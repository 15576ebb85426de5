import Mathlib.Data.List.TakeWhile
import Mathlib.Tactic.Common
import ProjectScope.Text.Blank

/-!
# Trimming and lowering

Trimming takes away blanks only, and lowering changes letters only, so the two may be done in
either order.
-/

namespace ProjectScope.Text

/-! ### Lower case -/

lemma toNat_toLower (c : Char) :
    c.toLower.toNat = if 65 ≤ c.toNat ∧ c.toNat ≤ 90 then c.toNat + 32 else c.toNat := by
  have hval : c.val.toNat = c.toNat := rfl
  unfold Char.toLower
  split_ifs with h h' h'
  · change (c.val + ('a'.val - 'A'.val)).toNat = c.toNat + 32
    rw [UInt32.toNat_add, hval]
    change (c.toNat + 32) % 2 ^ 32 = c.toNat + 32
    omega
  · exact absurd ⟨UInt32.le_iff_toNat_le.mp h.1, UInt32.le_iff_toNat_le.mp h.2⟩ h'
  · exact absurd ⟨UInt32.le_iff_toNat_le.mpr h'.1, UInt32.le_iff_toNat_le.mpr h'.2⟩ h
  · rfl

/-! ### Trimming -/

lemma mem_dropWhile_of_not {α : Type} {p : α → Bool} {s : List α} {c : α} (h : c ∈ s)
    (hc : p c = false) : c ∈ s.dropWhile p := by
  rw [← List.takeWhile_append_dropWhile (p := p) (l := s), List.mem_append] at h
  rcases h with h | h
  · rw [List.mem_takeWhile_imp h] at hc
    cases hc
  · exact h

/-- Trimming leaves every character that is not blank, and brings in none. -/
lemma mem_trim {s : List Char} {c : Char} (hc : isBlank c = false) : c ∈ trim s ↔ c ∈ s := by
  simp only [trim, trimRight, dropRightWhile, List.mem_reverse]
  constructor
  · intro h
    exact (List.dropWhile_sublist _).mem (List.mem_reverse.mp ((List.dropWhile_sublist _).mem h))
  · intro h
    exact mem_dropWhile_of_not (List.mem_reverse.mpr (mem_dropWhile_of_not h hc)) hc

lemma dropWhile_of_not {s : List Char} (h : ∀ c ∈ s, isBlank c = false) :
    s.dropWhile isBlank = s := by
  cases s with
  | nil => rfl
  | cons c s => rw [List.dropWhile_cons, h c List.mem_cons_self]; rfl

lemma trim_eq_self {s : List Char} (h : ∀ c ∈ s, isBlank c = false) : trim s = s := by
  rw [trim, trimRight, dropRightWhile, dropWhile_of_not h,
    dropWhile_of_not fun c hc => h c (List.mem_reverse.mp hc), List.reverse_reverse]

/-- Blanks at the end do not matter. -/
lemma trimRight_append_of_isBlank {s blanks : List Char} (h : ∀ c ∈ blanks, isBlank c = true) :
    trimRight (s ++ blanks) = trimRight s := by
  rw [trimRight, dropRightWhile, List.reverse_append,
    List.dropWhile_append_of_pos fun c hc => h c (by simpa using hc)]
  rfl

/-- What is not blank stays at the start. -/
lemma trimRight_append_of_not {u s : List Char} (h : ∀ c ∈ u, isBlank c = false) :
    trimRight (u ++ s) = u ++ trimRight s := by
  have hkeep : u.reverse.dropWhile isBlank = u.reverse :=
    dropWhile_of_not fun c hc => h c (List.mem_reverse.mp hc)
  simp only [trimRight, dropRightWhile, List.reverse_append, List.dropWhile_append, hkeep]
  split_ifs with hs
  · simp [List.isEmpty_iff.mp hs]
  · simp

/-- A text is what is left of it at the right end, and blanks. -/
lemma exists_eq_trimRight_append (s : List Char) :
    ∃ blanks, s = trimRight s ++ blanks ∧ ∀ c ∈ blanks, isBlank c = true := by
  refine ⟨(s.reverse.takeWhile isBlank).reverse, ?_, fun c hc => ?_⟩
  · rw [trimRight, dropRightWhile, ← List.reverse_append, List.takeWhile_append_dropWhile,
      List.reverse_reverse]
  · exact List.mem_takeWhile_imp (List.mem_reverse.mp hc)

/-- The two ends may be trimmed in either order. -/
lemma trim_trimRight (s : List Char) : trim (trimRight s) = trim s := by
  obtain ⟨blanks, hs, hblanks⟩ := exists_eq_trimRight_append s
  generalize trimRight s = kept at hs
  subst hs
  rw [trim, trim, List.dropWhile_append]
  split_ifs with hkept
  · rw [List.isEmpty_iff.mp hkept, List.dropWhile_eq_nil_iff.mpr hblanks]
  · rw [trimRight_append_of_isBlank hblanks]

/-- A text that starts with something that is not blank is trimmed at its right end only. -/
lemma trim_append_of_not {u s : List Char} (hne : u ≠ []) (h : ∀ c ∈ u, isBlank c = false) :
    trim (u ++ s) = u ++ trimRight s := by
  obtain ⟨c, u, rfl⟩ := List.exists_cons_of_ne_nil hne
  rw [trim, List.cons_append, List.dropWhile_cons, h c List.mem_cons_self, if_neg (by simp),
    ← List.cons_append, trimRight_append_of_not h]

end ProjectScope.Text

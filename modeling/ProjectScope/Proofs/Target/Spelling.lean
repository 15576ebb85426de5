import Mathlib.Data.List.Basic
import ProjectScope.Proofs.Text.Numeral
import ProjectScope.Target.Basic

/-!
# The spellings of a target

A target has two spellings, its name and its dotted form, in any case of letters and with any blanks
around. Both are a fixed start before the minor number as a plain numeral, and a number has only one
of those, so no other text reads as the target.
-/

namespace ProjectScope.Target

open Text.Numeral (IsPlain digits)

variable {s m : List Char} {t : Target}

/-- Whether a text is a spelling of a target: its name or its dotted form, but for the blanks around
it and the case of its letters. -/
def IsSpelling (s : String) (t : Target) : Prop :=
  String.ofList (Text.lower (Text.trim s.toList)) = t.name ∨
    String.ofList (Text.lower (Text.trim s.toList)) = t.pretty

lemma isSpelling_iff {s : String} :
    IsSpelling s t ↔ Text.lower (Text.trim s.toList) = t.nameChars ∨
      Text.lower (Text.trim s.toList) = t.prettyChars := by
  rw [IsSpelling, name, pretty, String.ofList_inj, String.ofList_inj]

/-- The minor number is looked for after one of two starts, and is a plain numeral. -/
lemma minorText?_eq_some (h : minorText? s = some m) :
    (s = ['p', 'y', '3'] ++ m ∨ s = ['3', '.'] ++ m) ∧ IsPlain m := by
  simp only [minorText?] at h
  split at h
  case h_1 rest hrest =>
    split_ifs at h with hplain
    cases h
    simp only [Bool.and_eq_true, List.all_eq_true, Bool.not_eq_true', List.isEmpty_eq_false_iff,
      Bool.or_eq_true, beq_iff_eq, bne_iff_ne] at hplain
    obtain ⟨⟨hdigits, hne⟩, hzero⟩ := hplain
    refine ⟨?_, hdigits, hne, hzero⟩
    rw [Option.orElse_eq_or, Option.or_eq_some_iff] at hrest
    rcases hrest with hname | ⟨-, hpretty⟩
    · exact .inl (List.isPrefixOf?_eq_some_iff_append_eq.mp hname).symm
    · exact .inr (List.isPrefixOf?_eq_some_iff_append_eq.mp hpretty).symm
  case h_2 => cases h

/-- A plain numeral that is read as the minor number of a target is how that number is written. -/
lemma digits_minor_of_ofMinor? {n : UInt64} (hm : IsPlain m) (hn : Text.Numeral.number? m = some n)
    (ht : ofMinor? n = some t) : digits t.minor = m := by
  have hminor : t.minor = n := by simpa [ofMinor?] using List.find?_some ht
  rw [hminor, Text.Numeral.digits_of_number? hm hn]

lemma isSpelling_of_ofText? {s : String} (h : ofText? s = some t) : IsSpelling s t := by
  simp only [ofText?, Option.bind_eq_bind, Option.bind_eq_some_iff] at h
  obtain ⟨m, hm, n, hn, ht⟩ := h
  obtain ⟨hs, hplain⟩ := minorText?_eq_some hm
  rw [isSpelling_iff, nameChars, prettyChars, digits_minor_of_ofMinor? hplain hn ht]
  exact hs

lemma ofText?_of_isSpelling {s : String} (h : IsSpelling s t) : ofText? s = some t := by
  rw [ofText?]
  rcases isSpelling_iff.mp h with hname | hpretty
  · rw [hname]
    cases t <;> decide
  · rw [hpretty]
    cases t <;> decide

/-- A text reads as a target exactly when it is one of the target's two spellings. A text that is
none of any target is an error, and the error shows it as it was given. -/
theorem parse_eq_ok_iff_isSpelling (s : String) :
    (∀ t, Target.parse s = .ok t ↔ IsSpelling s t) ∧
      ∀ e, Target.parse s = .error e ↔ e = .invalidTarget s ∧ ∀ t, ¬ IsSpelling s t := by
  have hread (t : Target) : ofText? s = some t ↔ IsSpelling s t :=
    ⟨isSpelling_of_ofText?, ofText?_of_isSpelling⟩
  simp only [Target.parse, ← hread]
  cases ofText? s with
  | some t => simp
  | none => simp [eq_comm]

/-- Zeros before the minor number and signs make no spelling. -/
example : (Target.parse " PY310\n", Target.parse "py303", Target.parse "3.+8") =
    (.ok .py310, .error (.invalidTarget "py303"), .error (.invalidTarget "3.+8")) := by
  decide +kernel

end ProjectScope.Target

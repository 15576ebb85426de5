import Mathlib.Data.List.Induction
import Mathlib.Tactic.Common
import ProjectScope.Text.Numeral

/-!
# Plain numerals

A run of digits in which no zero stands first, unless it stands alone, is how its number is written.
So a number has one plain numeral, and what is read from a plain numeral is written as it again.
-/

namespace ProjectScope.Text.Numeral

variable {c : Char} {ds : List Char}

/-! ### Single digits -/

lemma toNat_of_isDigit (h : c.isDigit = true) : 48 ≤ c.toNat ∧ c.toNat ≤ 57 :=
  Char.isDigit_iff_toNat.mp h

/-- A single digit is how its value is written. -/
lemma toDigits_of_isDigit (h : c.isDigit = true) : Nat.toDigits 10 (c.toNat - 48) = [c] := by
  obtain ⟨hlow, hhigh⟩ := toNat_of_isDigit h
  have hchar : (c.toNat - 48).digitChar = c := by
    rw [← Char.toNat_inj, Nat.toNat_digitChar_of_lt_ten (by omega)]
    omega
  rw [Nat.toDigits_of_lt_base (by omega), hchar]

/-- One more digit stands for ten times the number, and the digit. -/
lemma ofDigitChars_concat (ds : List Char) (c : Char) :
    Nat.ofDigitChars 10 (ds ++ [c]) 0 = 10 * Nat.ofDigitChars 10 ds 0 + (c.toNat - 48) := by
  rw [Nat.ofDigitChars_append, Nat.ofDigitChars_cons]
  rfl

/-! ### Numerals -/

/-- Whether a run of characters is a numeral without a leading zero. -/
structure IsPlain (ds : List Char) : Prop where
  isDigit : ∀ c ∈ ds, c.isDigit = true
  ne_nil : ds ≠ []
  noLeadingZero : ds.length = 1 ∨ ds.head? ≠ some '0'

/-- The digits before the last one are a plain numeral, and not zero. -/
lemma IsPlain.init (h : IsPlain (ds ++ [c])) (hne : ds ≠ []) :
    IsPlain ds ∧ ds.head? ≠ some '0' := by
  obtain ⟨d, rest, rfl⟩ := List.exists_cons_of_ne_nil hne
  have hhead : (d :: rest).head? ≠ some '0' := by
    rcases h.noLeadingZero with hlength | hhead
    · simp at hlength
    · exact hhead
  exact ⟨⟨fun d hd => h.isDigit d (List.mem_append_left [c] hd), hne, .inr hhead⟩, hhead⟩

/-- A plain numeral is how its number is written. -/
theorem toDigits_of_isPlain (h : IsPlain ds) : Nat.toDigits 10 (Nat.ofDigitChars 10 ds 0) = ds := by
  induction ds using List.reverseRecOn with
  | nil => exact absurd rfl h.ne_nil
  | append_singleton ds c ih =>
    have hc : c.isDigit = true := h.isDigit c (by simp)
    rw [ofDigitChars_concat]
    by_cases hne : ds = []
    · subst hne
      simpa [Nat.ofDigitChars] using toDigits_of_isDigit hc
    · obtain ⟨hinit, hhead⟩ := h.init hne
      have hds := ih hinit
      -- without a leading zero the digits before the last one are more than nothing
      have hpos : 0 < Nat.ofDigitChars 10 ds 0 := by
        rw [Nat.pos_iff_ne_zero]
        intro hzero
        rw [hzero, Nat.toDigits_zero] at hds
        rw [← hds] at hhead
        exact hhead rfl
      have hlast : c.toNat - 48 < 10 := by
        obtain ⟨-, hhigh⟩ := toNat_of_isDigit hc
        omega
      rw [← Nat.toDigits_append_toDigits (by decide) hpos hlast, hds, toDigits_of_isDigit hc]

/-- What is read from a plain numeral is written as it. -/
theorem digits_of_number? {n : UInt64} (h : IsPlain ds) (hn : number? ds = some n) :
    digits n = ds := by
  simp only [number?] at hn
  split_ifs at hn with hfits
  cases hn
  rw [digits, UInt64.toNat_ofNatLT, toDigits_of_isPlain h]

end ProjectScope.Text.Numeral

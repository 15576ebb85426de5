/-!
# Decimal numerals

Unsigned numbers of 64 bits as runs of decimal digits: `number?` reads one and `digits` writes
one. Reading accepts leading zeros and refuses only what does not fit.
-/

namespace ProjectScope.Text.Numeral

/-- The digits of a number, most significant first, without leading zeros. -/
def digits (n : UInt64) : List Char := Nat.toDigits 10 n.toNat

/-- The number that a run of digits denotes, unless it needs more than 64 bits. -/
def number? (ds : List Char) : Option UInt64 :=
  let n := Nat.ofDigitChars 10 ds 0
  if h : n < UInt64.size then some (UInt64.ofNatLT n h) else none

theorem number?_digits (n : UInt64) : number? (digits n) = some n := by
  have h : Nat.ofDigitChars 10 (digits n) 0 = n.toNat :=
    Nat.ofDigitChars_toDigits (by decide) (by decide)
  simp [number?, h, UInt64.toNat_lt_size]

end ProjectScope.Text.Numeral

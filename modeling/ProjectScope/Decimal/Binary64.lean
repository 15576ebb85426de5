/-!
# Binary floating point

Numbers in the 64-bit binary format, kept as their bits so that they can be compared and written
exactly. A finite number has the magnitude `significand * 2 ^ exponent`. Reading a decimal rounds
to the nearest number, and a tie to the even significand.
-/

namespace ProjectScope

/-- The quotient `n / d` times `base ^ k`, as a quotient of integers. -/
def scaleQuotient (base : Nat) (k : Int) (n d : Nat) : Nat × Nat :=
  (n * Nat.pow base k.toNat, d * Nat.pow base (-k).toNat)

/-- A number in the 64-bit binary format. -/
structure Binary64 where
  bits : UInt64
  deriving DecidableEq, Repr

namespace Binary64

/-- What the sign bit counts. -/
def signUnit : Nat := 0x8000000000000000

/-- What the lowest bit of the exponent counts; the bits below it belong to the significand. -/
def exponentUnit : Nat := 0x10000000000000

/-- The bits without the sign, as a number. Of two finite numbers the one with more of it is
farther from zero. -/
def magnitude (x : Binary64) : Nat := x.bits.toNat % signUnit

/-- Whether the sign bit is set. -/
def isNegative (x : Binary64) : Bool := signUnit ≤ x.bits.toNat

/-- The magnitude of infinity; every greater one is no number. -/
def infinite : Nat := 0x7FF * exponentUnit

/-- Whether a number is neither infinite nor undefined. -/
def isFinite (x : Binary64) : Bool := x.magnitude < infinite

/-- Whether the value is undefined. -/
def isNan (x : Binary64) : Bool := infinite < x.magnitude

/-- The number with the given sign and magnitude. -/
def ofMagnitude (negative : Bool) (n : Nat) : Binary64 :=
  ⟨UInt64.ofNat (if negative then signUnit + n else n)⟩

/-- The infinite number of the given sign. -/
def infinity (negative : Bool) : Binary64 := ofMagnitude negative infinite

/-- The undefined value of the given sign. -/
def nan (negative : Bool) : Binary64 := ofMagnitude negative (infinite + exponentUnit / 2)

/-- The field of the exponent, which is zero below the least normal number. -/
def exponentField (x : Binary64) : Nat := x.magnitude / exponentUnit

/-- The significand of a finite number as an integer. -/
def significand (x : Binary64) : Nat :=
  x.magnitude % exponentUnit + if x.exponentField = 0 then 0 else exponentUnit

/-- The power of two that the significand counts. -/
def exponent (x : Binary64) : Int := (max x.exponentField 1 : Nat) - 1075

/-- A quotient rounded to the nearest integer, a tie to the even one. -/
def roundQuotient (n d : Nat) : Nat :=
  let q := n / d
  let r := n % d
  if 2 * r < d then q else if d < 2 * r then q + 1 else q + q % 2

/-- The greatest `k` with `2 ^ k ≤ n / d`, for positive numbers. -/
def floorLog2 (n d : Nat) : Int :=
  let k : Int := (n.log2 : Int) - d.log2
  let (n, d) := scaleQuotient 2 (-k) n d
  if d ≤ n then k else k - 1

/-- The magnitude nearest to a positive quotient. A significand that rounds up to the next power
of two carries over into the exponent, as the bits are laid out. -/
def nearest (n d : Nat) : Nat :=
  let q := max (floorLog2 n d - 52) (-1074)
  let (n, d) := scaleQuotient 2 (-q) n d
  min infinite ((q + 1074).toNat * exponentUnit + roundQuotient n d)

/-- The number nearest to `digits * 10 ^ exponent`. What is certainly out of range is decided by
the number of digits alone, so that no huge power is computed. -/
def ofDecimal (negative : Bool) (digits : Nat) (exponent : Int) : Binary64 :=
  let point : Int := (Nat.toDigits 10 digits).length + exponent
  ofMagnitude negative <|
    if digits = 0 || point < -330 then 0
    else if 310 < point then infinite
    else
      let (n, d) := scaleQuotient 10 exponent digits 1
      nearest n d

end Binary64

end ProjectScope

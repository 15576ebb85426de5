import ProjectScope.Decimal.Binary64

/-!
# Shortest decimals

The decimal with the fewest digits that reads back as a given finite number, and of those the one
nearest to it. Which of two equally near ones is taken and how the digits are laid out is left to
each format: `Decimal.positional` never writes an exponent, `Decimal.scientific` always does.
-/

namespace ProjectScope

/-- The decimal `0.d₁d₂… * 10 ^ point`. -/
structure Decimal where
  digits : List Char
  point : Int
  deriving DecidableEq, Repr

/-- Which of two decimals is taken when both are equally near to a number. -/
inductive Tie where
  /-- The one farther from zero. -/
  | away
  /-- The one whose last digit is even. -/
  | even
  deriving DecidableEq, Repr

namespace Decimal

/-- The digits with a point among them and at least one digit after it, however many zeros that
takes. -/
def positional (d : Decimal) : List Char :=
  let zeros (n : Int) : List Char := List.replicate n.toNat '0'
  if d.point ≤ 0 then '0' :: '.' :: zeros (-d.point) ++ d.digits
  else if d.digits.length ≤ d.point then
    d.digits ++ zeros (d.point - d.digits.length) ++ ['.', '0']
  else d.digits.take d.point.toNat ++ '.' :: d.digits.drop d.point.toNat

/-- One digit, the others after a point, and an exponent with its sign. -/
def scientific (d : Decimal) : List Char :=
  let exponent := d.point - 1
  let fraction := if d.digits.length ≤ 1 then [] else '.' :: d.digits.drop 1
  d.digits.take 1 ++ fraction ++ 'e' :: (if exponent < 0 then '-' else '+') ::
    Nat.toDigits 10 exponent.natAbs

end Decimal

namespace Binary64

/-- The magnitude of a finite number as a quotient of integers. -/
def quotient (x : Binary64) : Nat × Nat :=
  scaleQuotient 2 x.exponent x.significand 1

/-- The place of the first digit of a positive quotient: it is less than `10 ^ firstPlace`, and not
less than a tenth of that. No power of two below one is a power of ten. -/
def firstPlace (n d : Nat) : Int :=
  if d ≤ n then (Nat.toDigits 10 (n / d)).length
  else 1 - ((Nat.toDigits 10 (d / n)).length : Int)

/-- The neighbours of a positive quotient among the multiples of `10 ^ place`, nearest first. -/
def neighbours (tie : Tie) (n d : Nat) (place : Int) : List Nat :=
  let (n, d) := scaleQuotient 10 (-place) n d
  let below := n / d
  let evenTie := tie = .even && 2 * (n % d) = d && below % 2 = 0
  if 2 * (n % d) < d || evenTie then [below, below + 1] else [below + 1, below]

/-- The shortest decimal that reads back as a finite number. Seventeen digits always do. -/
def shortest (tie : Tie) (x : Binary64) : Decimal :=
  let (n, d) := x.quotient
  let point := firstPlace n d
  let found := (List.range 17).findSome? fun k =>
    let place := point - (k + 1 : Nat)
    (neighbours tie n d place).find? (fun c => (ofDecimal false c place).magnitude == x.magnitude)
      |>.map (·, place)
  match found with
  | none => ⟨['0'], 1⟩
  | some (c, place) =>
    let digits := Nat.toDigits 10 c
    let trimmed := (digits.reverse.dropWhile (· == '0')).reverse
    ⟨if trimmed.isEmpty then ['0'] else trimmed, place + digits.length⟩

end Binary64

end ProjectScope

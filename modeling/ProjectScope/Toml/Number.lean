import ProjectScope.Toml.Text.Parser
import ProjectScope.Toml.Value

/-!
# Reading numbers

Integers have 64 bits and are decimal, or hexadecimal, octal or binary without a sign; a number
with a fraction or an exponent is a float. Single underscores may stand between digits, and a
decimal number other than zero starts with no zero.
-/

namespace ProjectScope.Toml

/-- Read digits that satisfy `p`, with single underscores between them. -/
def readDigits (p : Char → Bool) : List Char → List Char × List Char
  | '_' :: d :: r =>
    if p d then
      let (ds, rest) := readDigits p r
      (d :: ds, rest)
    else ([], '_' :: d :: r)
  | d :: r =>
    if p d then
      let (ds, rest) := readDigits p r
      (d :: ds, rest)
    else ([], d :: r)
  | [] => ([], [])

/-- Read at least one digit that satisfies `p`. -/
def readDigits1 (p : Char → Bool) : List Char → Except Fault (List Char × List Char)
  | d :: r => if p d then .ok (readDigits p (d :: r)) else .error (.expected "a digit")
  | [] => .error (.expected "a digit")

/-- Read a sign, if one stands here, as whether it is negative. -/
def readSign : List Char → Bool × List Char
  | '-' :: r => (true, r)
  | '+' :: r => (false, r)
  | s => (false, s)

/-- The integer of the given sign and size, if it has 64 bits. -/
def integerOf (negative : Bool) (n : Nat) : Except Fault Value :=
  let value : Int := if negative then -n else n
  if Int64.minValue.toInt ≤ value && value ≤ Int64.maxValue.toInt then
    .ok (.integer (Int64.ofInt value))
  else .error (.outOfRange (toString value))

/-- The number that digits denote in a base; hexadecimal digits serve every base. -/
def ofDigits (base : Nat) (ds : List Char) : Nat :=
  ds.foldl (fun n d => base * n + (hexDigit? d).getD 0) 0

/-- The bases that are marked by a letter after a zero, with their digits. -/
def base? : Char → Option (Nat × (Char → Bool))
  | 'x' => some (16, fun c => (hexDigit? c).isSome)
  | 'o' => some (8, fun c => '0' ≤ c && c ≤ '7')
  | 'b' => some (2, fun c => c == '0' || c == '1')
  | _ => none

/-- Read an integer in the given base, after its mark. -/
def readBased (base : Nat) (isDigit : Char → Bool) (s : List Char) :
    Except Fault (Value × List Char) := do
  let (ds, rest) ← readDigits1 isDigit s
  return (← integerOf false (ofDigits base ds), rest)

/-- Read the part of a decimal number before the point; after a zero it ends. -/
def readWhole : List Char → Except Fault (List Char × List Char)
  | '0' :: r => .ok (['0'], r)
  | s => readDigits1 Char.isDigit s

/-- Read the digits of a fraction, if a point stands here. -/
def readFraction? : List Char → Except Fault (Option (List Char) × List Char)
  | '.' :: r => do
    let (ds, rest) ← readDigits1 Char.isDigit r
    return (some ds, rest)
  | s => .ok (none, s)

/-- Read an exponent, if its letter stands here. -/
def readExponent? : List Char → Except Fault (Option Int × List Char)
  | e :: r =>
    if e = 'e' || e = 'E' then do
      let (negative, r) := readSign r
      let (ds, rest) ← readDigits1 Char.isDigit r
      let n : Int := ofDigits 10 ds
      return (some (if negative then -n else n), rest)
    else .ok (none, e :: r)
  | [] => .ok (none, [])

/-- The float of the given digits. A positive one that is rounded to infinity is out of range. -/
def floatOf (negative : Bool) (whole fraction : List Char) (exponent : Int) : Except Fault Value :=
  let x := Binary64.ofDecimal negative (ofDigits 10 (whole ++ fraction))
    (exponent - fraction.length)
  if x = Binary64.infinity false then .error (.outOfRange (String.ofList whole))
  else .ok (.float x)

/-- Read a decimal number without its sign. -/
def readDecimal (negative : Bool) (s : List Char) : Except Fault (Value × List Char) := do
  let (whole, s₁) ← readWhole s
  let (fraction, s₂) ← readFraction? s₁
  let (exponent, rest) ← readExponent? s₂
  match fraction, exponent with
  | none, none => return (← integerOf negative (ofDigits 10 whole), rest)
  | _, _ => return (← floatOf negative whole (fraction.getD []) (exponent.getD 0), rest)

/-- Read a number. -/
def readNumber (s : List Char) : Except Fault (Value × List Char) :=
  let (negative, unsigned) := readSign s
  match unsigned with
  | 'i' :: 'n' :: 'f' :: r => .ok (.float (Binary64.infinity negative), r)
  | 'n' :: 'a' :: 'n' :: r => .ok (.float (Binary64.nan negative), r)
  | _ =>
    match s with
    | '0' :: mark :: r =>
      match base? mark with
      | some (base, isDigit) => readBased base isDigit r
      | none => readDecimal negative unsigned
    | _ => readDecimal negative unsigned

end ProjectScope.Toml

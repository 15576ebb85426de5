import ProjectScope.Toml.Datetime

/-!
# Reading dates and times

A date is written `1979-05-27` and a time `07:32:00`, with an optional fraction of which nine
digits count. Both together stand on either side of a `T` or a blank, and an offset may follow:
`Z`, or hours and minutes after a sign.
-/

namespace ProjectScope.Toml

/-- Read exactly `n` decimal digits. -/
def fixedDigits? (n : Nat) (s : List Char) : Option (Nat × List Char) :=
  let ds := s.take n
  if ds.length = n && ds.all Char.isDigit then some (Nat.ofDigitChars 10 ds 0, s.drop n) else none

/-- Read exactly the given character. -/
def exactly? (c : Char) : List Char → Option (List Char)
  | d :: r => if c = d then some r else none
  | [] => none

/-- Read a number of two digits between `lo` and `hi`. -/
def twoDigits? (lo hi : Nat) (s : List Char) : Option (Nat × List Char) := do
  let (n, rest) ← fixedDigits? 2 s
  if lo ≤ n && n ≤ hi then some (n, rest) else none

/-- Read a day of the calendar. -/
def readDate? (s : List Char) : Option (Date × List Char) := do
  let (year, s) ← fixedDigits? 4 s
  let s ← exactly? '-' s
  let (month, s) ← twoDigits? 1 12 s
  let s ← exactly? '-' s
  let (day, s) ← twoDigits? 1 (daysIn year month) s
  return (⟨year, month, day⟩, s)

/-- The nanoseconds of a fraction of a second. -/
def nanosecondsOf (ds : List Char) : Nat :=
  let counted := ds.take 9
  Nat.ofDigitChars 10 counted 0 * Nat.pow 10 (9 - counted.length)

/-- Read a time of the day. A point that no digit follows is left. -/
def readTime? (s : List Char) : Option (Time × List Char) := do
  let (hour, s) ← twoDigits? 0 23 s
  let s ← exactly? ':' s
  let (minute, s) ← twoDigits? 0 59 s
  let s ← exactly? ':' s
  let (second, s) ← twoDigits? 0 60 s
  let fraction := ((exactly? '.' s).getD []).takeWhile Char.isDigit
  if fraction.isEmpty then return (⟨hour, minute, second, 0⟩, s)
  else return (⟨hour, minute, second, nanosecondsOf fraction⟩, s.drop (fraction.length + 1))

/-- Read an offset from universal time. -/
def readOffset? : List Char → Option (Offset × List Char)
  | [] => none
  | sign :: s =>
    if sign = 'Z' || sign = 'z' then some (.utc, s)
    else if sign = '+' || sign = '-' then do
      let (hours, s) ← twoDigits? 0 23 s
      let s ← exactly? ':' s
      let (minutes, s) ← twoDigits? 0 59 s
      let n : Int := hours * 60 + minutes
      return (.minutes (if sign = '-' then -n else n), s)
    else none

/-- Whether a character may stand between a date and a time. -/
def isTimeMark (c : Char) : Bool := c == 'T' || c == 't' || c == ' '

/-- Read what follows a date: a time and an offset, as far as they stand here. -/
def readAfterDate (d : Date) (s : List Char) : Datetime × List Char :=
  let time? : Option (Time × List Char) :=
    match s with
    | mark :: r => if isTimeMark mark then readTime? r else none
    | [] => none
  match time? with
  | none => (.date d, s)
  | some (t, r) =>
    match readOffset? r with
    | none => (.localDatetime d t, r)
    | some (o, rest) => (.offsetDatetime d t o, rest)

/-- Read a moment, if one stands here. -/
def readDatetime? (s : List Char) : Option (Datetime × List Char) :=
  match readDate? s with
  | some (d, r) => some (readAfterDate d r)
  | none => (readTime? s).map fun (t, r) => (.time t, r)

/-- The moment that the whole of a text names, if any. -/
def Datetime.ofText? (s : String) : Option Datetime :=
  match readDatetime? s.toList with
  | some (d, []) => some d
  | _ => none

end ProjectScope.Toml

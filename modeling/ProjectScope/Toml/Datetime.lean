/-!
# Dates and times

The four kinds of moment that a document can name: a date, a time, both, and both at an offset
from universal time. They are written in one way only, whatever their spelling was.
-/

namespace ProjectScope.Toml

/-- A day of the calendar. -/
structure Date where
  year : Nat
  month : Nat
  day : Nat
  deriving DecidableEq, Repr

/-- A time of the day. A second of 60 is a leap second. -/
structure Time where
  hour : Nat
  minute : Nat
  second : Nat
  nanosecond : Nat := 0
  deriving DecidableEq, Repr

/-- The distance from universal time. -/
inductive Offset where
  | utc
  | minutes (n : Int)
  deriving DecidableEq, Repr

/-- A moment, as far as it is named. -/
inductive Datetime where
  | date (d : Date)
  | time (t : Time)
  | localDatetime (d : Date) (t : Time)
  | offsetDatetime (d : Date) (t : Time) (o : Offset)
  deriving DecidableEq, Repr

/-- Whether a year has a 29th of February. -/
def isLeapYear (year : Nat) : Bool := year % 4 == 0 && (year % 100 != 0 || year % 400 == 0)

/-- The number of days of a month. -/
def daysIn (year month : Nat) : Nat :=
  if month = 2 then if isLeapYear year then 29 else 28
  else if [4, 6, 9, 11].contains month then 30
  else 31

/-- A number with at least `width` digits. -/
def padded (width n : Nat) : String :=
  let digits := Nat.toDigits 10 n
  String.ofList (List.replicate (width - digits.length) '0' ++ digits)

/-- A date as text. -/
def Date.toText (d : Date) : String :=
  padded 4 d.year ++ "-" ++ padded 2 d.month ++ "-" ++ padded 2 d.day

/-- A time as text; the fraction of the second has no zeros at its end. -/
def Time.toText (t : Time) : String :=
  let fraction := (padded 9 t.nanosecond).toList.reverse.dropWhile (· == '0')
  padded 2 t.hour ++ ":" ++ padded 2 t.minute ++ ":" ++ padded 2 t.second ++
    if fraction.isEmpty then "" else "." ++ String.ofList fraction.reverse

/-- An offset as text. -/
def Offset.toText : Offset → String
  | utc => "Z"
  | minutes n =>
    (if n < 0 then "-" else "+") ++ padded 2 (n.natAbs / 60) ++ ":" ++ padded 2 (n.natAbs % 60)

/-- A moment as text. -/
def Datetime.toText : Datetime → String
  | date d => d.toText
  | time t => t.toText
  | localDatetime d t => d.toText ++ "T" ++ t.toText
  | offsetDatetime d t o => d.toText ++ "T" ++ t.toText ++ o.toText

end ProjectScope.Toml

import ProjectScope.Decimal.Shortest
import ProjectScope.Toml.Text.Printer
import ProjectScope.Toml.Tree

/-!
# Writing values

A value is written within a line, or with the items of its arrays on lines of their own. The
entries of a table stand in the order of their keys.
-/

namespace ProjectScope.Toml

/-- A float as text: the fewest digits that read back, a tie away from zero, with a point and never
an exponent. The sign of an undefined value is not shown. -/
def floatText (x : Binary64) : String :=
  if x.isNan then "nan"
  else (if x.isNegative then "-" else "") ++
    if x.isFinite then String.ofList (x.shortest .away).positional else "inf"

/-- An array of written items. On lines of their own the items are indented by four blanks, at
every depth alike. -/
def bracketed (onLines : Bool) (items : List String) : String :=
  if onLines && 2 ≤ items.length then
    "[" ++ String.join (items.map fun s => "\n    " ++ s ++ ",") ++ "\n]"
  else "[" ++ ", ".intercalate items ++ "]"

/-- A table of written entries. -/
def braced (entries : List String) : String :=
  if entries.isEmpty then "\x7b\x7d" else "\x7b " ++ ", ".intercalate entries ++ " \x7d"

mutual

/-- A value as text. -/
def Value.write (onLines : Bool) : Value → String
  | .text s => quoteValue s
  | .integer n => toString n.toInt
  | .float x => floatText x
  | .boolean b => if b then "true" else "false"
  | .datetime d => d.toText
  | .array items => bracketed onLines (writeItems onLines items)
  | .table entries => braced (writeEntries onLines entries)

/-- The items of an array as texts. -/
def writeItems (onLines : Bool) : List Value → List String
  | [] => []
  | v :: rest => v.write onLines :: writeItems onLines rest

/-- The entries of a table as texts. -/
def writeEntries (onLines : Bool) : List (String × Value) → List String
  | [] => []
  | (key, v) :: rest =>
    (quoteKey key ++ " = " ++ v.write onLines) :: writeEntries onLines rest

end

/-- A value as a message shows it. A moment is shown as the table that marks it. -/
def Value.shown : Value → String
  | .datetime d => braced [quoteKey datetimeKey ++ " = " ++ quoteValue d.toText]
  | v => v.write false

end ProjectScope.Toml

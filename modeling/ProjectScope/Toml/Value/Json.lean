import ProjectScope.Json.Tree
import ProjectScope.Toml.Value.Printer

/-!
# Values as JSON

The same values in another notation. A moment is the record that marks it, and a number that JSON
cannot name is null.
-/

namespace ProjectScope.Toml

/-- A float as a JSON number: the fewest digits that read back, a tie to the even digit, with an
exponent where the point would stand more than sixteen digits from the first one, or more than four
zeros before it. -/
def floatJson (x : Binary64) : String :=
  if x.isFinite then
    let d := x.shortest .even
    (if x.isNegative then "-" else "") ++
      String.ofList (if -5 < d.point && d.point ≤ 16 then d.positional else d.scientific)
  else "null"

mutual

/-- A value as JSON. -/
def Value.toJson : Value → Json.Tree
  | .text s => .text s
  | .integer n => .scalar (toString n.toInt)
  | .float x => .scalar (floatJson x)
  | .boolean b => .scalar (if b then "true" else "false")
  | .datetime d => .record [(datetimeKey, .text d.toText)]
  | .array items => .list (itemsToJson items)
  | .table entries => .record (entriesToJson entries)

/-- The items of an array as JSON. -/
def itemsToJson : List Value → List Json.Tree
  | [] => []
  | v :: rest => v.toJson :: itemsToJson rest

/-- The entries of a table as JSON. -/
def entriesToJson : List (String × Value) → List (String × Json.Tree)
  | [] => []
  | (key, v) :: rest => (key, v.toJson) :: entriesToJson rest

end

/-- A table as JSON, in the order of its keys. -/
def Table.toJson (t : Table) : Json.Tree := .record (entriesToJson t)

end ProjectScope.Toml

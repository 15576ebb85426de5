import ProjectScope.Toml.Text.Parser

/-!
# Keys

A key leads through tables to an entry: its parts are joined by dots, and each part is bare or a
quoted text within one line.
-/

namespace ProjectScope.Toml

/-- A dotted key: the tables that it leads through, and the name of the entry. -/
structure Key where
  path : List String
  name : String
  deriving DecidableEq, Repr

/-- The characters of a bare key. -/
def isBareKeyChar (c : Char) : Bool := c.isAlphanum || c == '-' || c == '_'

/-- The greatest number of parts of a key, and one more than the deepest nesting of values. -/
def depthLimit : Nat := 79

namespace Key

/-- Read one part of a key. -/
def readPart (s : List Char) : Except Fault (String × List Char) :=
  match readShort? s with
  | some quoted => do
    let (cs, rest) ← quoted
    return (String.ofList cs, rest)
  | none =>
    let bare := s.takeWhile isBareKeyChar
    if bare.isEmpty then .error (.expected "a key")
    else .ok (String.ofList bare, s.dropWhile isBareKeyChar)

/-- Read a key of at most `limit` parts, with the blanks around each of them. -/
def readParts : Nat → List Char → Except Fault (Key × List Char)
  | 0, _ => .error .tooDeep
  | limit + 1, s => do
    let (part, rest) ← readPart (skipBlanks s)
    match skipBlanks rest with
    | '.' :: r =>
      let (key, rest) ← readParts limit r
      return ({ key with path := part :: key.path }, rest)
    | rest => return (⟨[], part⟩, rest)

/-- Read a key. -/
def read (s : List Char) : Except Fault (Key × List Char) := readParts depthLimit s

end Key

end ProjectScope.Toml

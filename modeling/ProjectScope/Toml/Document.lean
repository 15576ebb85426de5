import ProjectScope.Toml.Value.Parser

/-!
# Documents

A document is a list of statements, one a line: a key with its value, the header of a table, or
the header of one more element of a list of tables. Its table is grown by one statement after the
other.
-/

namespace ProjectScope.Toml

/-- A line of a document that says something. -/
inductive Statement where
  | pair (key : Key) (node : Node)
  | table (key : Key)
  | element (key : Key)

namespace Statement

/-- Read the rest of a header, after its brackets. -/
def readHeader (close : List Char) (s : List Char) : Except Fault (Key × List Char) := do
  let (key, r) ← Key.read s
  match close.isPrefixOf? r with
  | some rest => return (key, rest)
  | none => throw (.expected "the end of a header")

/-- Read a statement up to the end of its line. -/
def read (s : List Char) : Except Fault (Statement × List Char) := do
  let (statement, rest) ← match s with
    | '[' :: '[' :: r => do
      let (key, rest) ← readHeader [']', ']'] r
      pure (element key, rest)
    | '[' :: r => do
      let (key, rest) ← readHeader [']'] r
      pure (table key, rest)
    | _ => do
      let ((key, node), rest) ← readPair (readValue depthLimit) s
      pure (pair key node, rest)
  return (statement, ← readLineEnd rest)

/-- Read the statements of a text. -/
def readAll (s : List Char) : Except Fault (List Statement) := do
  match skipLines s with
  | [] => return []
  | '#' :: r =>
    let _ ← readLineEnd ('#' :: r)
    return []
  | t =>
    let (statement, rest) ← read t
    if _h : rest.length < s.length then return statement :: (← readAll rest)
    else throw (.expected "a statement")
termination_by s.length

end Statement

/-- A document that is being read: its entries, and the table that the last header has opened. -/
structure Growth where
  header : List String := []
  entries : Entries := []

namespace Growth

/-- Let a document grow by a statement. -/
def push (g : Growth) : Statement → Except Fault Growth
  | .pair key node =>
    return { g with entries := ← Entries.assignBelow g.header key node g.entries }
  | .table key => return ⟨key.path ++ [key.name], ← Entries.openTable key g.entries⟩
  | .element key => return ⟨key.path ++ [key.name], ← Entries.openElement key g.entries⟩

end Growth

/-- The table of a document. A byte order mark at its start is skipped. -/
def Table.parse (s : String) : Except Fault Table := do
  let body := match s.toList with
    | '\ufeff' :: r => r
    | r => r
  let growth ← (← Statement.readAll body).foldlM Growth.push {}
  return Table.ofList (← Entries.values growth.entries)

end ProjectScope.Toml

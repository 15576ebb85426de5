import ProjectScope.Toml.Number
import ProjectScope.Toml.Tree

/-!
# Reading values

A value is a text, a boolean, a number, a moment, an array or a table in braces. An array may run
over several lines and end in a comma, a table in braces may do neither. A reader of items that is
handed on stands for the values one level deeper; the lists end where an item takes nothing.
-/

namespace ProjectScope.Toml

/-- Read a value that holds no other values. -/
def readScalar (s : List Char) : Except Fault (Value × List Char) :=
  match readText? s with
  | some quoted => do
    let (cs, rest) ← quoted
    return (.text (String.ofList cs), rest)
  | none =>
    match s with
    | 't' :: 'r' :: 'u' :: 'e' :: r => .ok (.boolean true, r)
    | 'f' :: 'a' :: 'l' :: 's' :: 'e' :: r => .ok (.boolean false, r)
    | _ =>
      match readDatetime? s with
      | some (d, rest) => .ok (.datetime d, rest)
      | none => readNumber s

/-- Read the items of an array, after its bracket or a comma. -/
def readItems (item : List Char → Except Fault (Node × List Char)) (s : List Char) :
    Except Fault (List Node × List Char) :=
  match skipLines s with
  | ']' :: r => .ok ([], r)
  | t => do
    let (v, r) ← item t
    match skipLines r with
    | ']' :: r => return ([v], r)
    | ',' :: r =>
      if _h : r.length < s.length then
        let (vs, rest) ← readItems item r
        return (v :: vs, rest)
      else throw (.expected "a value")
    | _ => throw (.expected "a comma or the end of an array")
termination_by s.length

/-- Read a key, an equals sign and a value. -/
def readPair (item : List Char → Except Fault (Node × List Char)) (s : List Char) :
    Except Fault ((Key × Node) × List Char) := do
  let (key, r) ← Key.read s
  match r with
  | '=' :: r =>
    let (v, rest) ← item (skipBlanks r)
    return ((key, v), rest)
  | _ => throw (.expected "an equals sign")

/-- Read the entries of a table in braces, after its brace or a comma. -/
def readPairs (item : List Char → Except Fault (Node × List Char)) (s : List Char) :
    Except Fault (List (Key × Node) × List Char) := do
  let (pair, r) ← readPair item s
  match skipBlanks r with
  | '}' :: r => return ([pair], r)
  | ',' :: r =>
    if _h : r.length < s.length then
      let (pairs, rest) ← readPairs item r
      return (pair :: pairs, rest)
    else throw (.expected "a key")
  | _ => throw (.expected "a comma or the end of a table")
termination_by s.length

/-- The table in braces with the given entries. -/
def tableOfPairs (pairs : List (Key × Node)) : Except Fault Node := do
  return .table .braces (← pairs.foldlM (fun es (key, node) => Entries.assign key node es) [])

/-- Read a table in braces, after the first of them. -/
def readTable (item : List Char → Except Fault (Node × List Char)) (s : List Char) :
    Except Fault (Node × List Char) :=
  match skipBlanks s with
  | '}' :: r => .ok (.table .braces [], r)
  | _ => do
    let (pairs, rest) ← readPairs item s
    return (← tableOfPairs pairs, rest)

/-- Read a value that holds others at most `depth` levels deep. -/
def readValue : Nat → List Char → Except Fault (Node × List Char)
  | 0, s =>
    match s with
    | '[' :: _ => .error .tooDeep
    | '{' :: _ => .error .tooDeep
    | _ => (readScalar s).map fun (v, rest) => (.scalar v, rest)
  | depth + 1, s =>
    match s with
    | '[' :: r => do
      let (items, rest) ← readItems (readValue depth) r
      return (.array items, rest)
    | '{' :: r => readTable (readValue depth) r
    | _ => (readScalar s).map fun (v, rest) => (.scalar v, rest)

end ProjectScope.Toml

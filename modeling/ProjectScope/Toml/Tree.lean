import ProjectScope.Toml.Fault
import ProjectScope.Toml.Datetime.Parser
import ProjectScope.Toml.Key
import ProjectScope.Toml.Value

/-!
# Growing tables

While a document is read, its tables remember how they came to be, because that decides what may
still be added: a header opens a table once, dotted keys extend only tables that dotted keys have
made, and a list of tables grows at its end. The entries stand in the order in which they came, a
table that is opened after the ones within it as if it came only then.
-/

namespace ProjectScope.Toml

/-- How a table came to be. -/
inductive Origin where
  /-- By its own header, or as the whole of a document. -/
  | header
  /-- By braces, which hold all of it. -/
  | braces
  /-- By the header of a table within it. -/
  | implied
  /-- By a dotted key. -/
  | dotted
  deriving DecidableEq, Repr

/-- What a key leads to in a document that is being read. -/
inductive Node where
  /-- A value that holds no others. -/
  | scalar (v : Value)
  | array (items : List Node)
  | table (origin : Origin) (entries : List (String × Node))
  /-- The tables of a list; each was opened by a header of its own. -/
  | tables (elements : List (List (String × Node)))

/-- The entries of a table, in the order in which they came. -/
abbrev Entries := List (String × Node)

namespace Entries

/-- What a key leads to. -/
def get? (es : Entries) (key : String) : Option Node := es.lookup key

/-- Let a key lead to something else, in its place; a new key comes last. -/
def put (es : Entries) (key : String) (node : Node) : Entries :=
  match es with
  | [] => [(key, node)]
  | (k, old) :: rest => if k = key then (k, node) :: rest else (k, old) :: put rest key node

@[simp] theorem get?_nil (key : String) : get? [] key = none := rfl

theorem get?_cons (es : Entries) (k : String) (old : Node) (key : String) :
    get? ((k, old) :: es) key = if key = k then some old else es.get? key := by
  by_cases h : key = k
  · simp [get?, h]
  · simp [get?, List.lookup_cons, h, beq_false_of_ne h]

/-- Only the entry of the key changes. -/
theorem get?_put (es : Entries) (key : String) (node : Node) (other : String) :
    (es.put key node).get? other = if other = key then some node else es.get? other := by
  induction es with
  | nil => simp [put, get?_cons]
  | cons entry rest ih =>
    obtain ⟨k, old⟩ := entry
    unfold put
    split
    · rename_i h
      subst h
      simp only [get?_cons]
      split <;> rfl
    · rename_i h
      rw [get?_cons, get?_cons, ih]
      grind

/-- The entries without the one of a key. -/
def erase (es : Entries) (key : String) : Entries := es.filter (·.1 != key)

/-- Change the table that a path leads to, through tables that are made as `origin` says where
there are none, and through the last element of each list of tables. Dotted keys go through no
table that has a header, and nothing goes through braces from outside. The change is told how the
table came to be. -/
def descend (origin : Origin) (change : Origin → Entries → Except Fault Entries) (here : Origin) :
    List String → Entries → Except Fault Entries
  | [], es => change here es
  | key :: path, es => do
    match es.get? key with
    | none =>
      let inner ← descend origin change origin path []
      return es.put key (.table origin inner)
    | some (.scalar _) | some (.array _) | some (.table .braces _) => throw (.notATable key)
    | some (.table o inner) =>
      if origin = .dotted && o = .header then throw (.duplicateKey key)
      let inner ← descend origin change o path inner
      return es.put key (.table o inner)
    | some (.tables elements) =>
      let inner ← descend origin change .header path (elements.getLast?.getD [])
      return es.put key (.tables (elements.dropLast ++ [inner]))

/-- Add an entry to a table. A table made by dotted keys takes entries by dotted keys alone, and
every other table takes by a dotted key only what lies in a table that dotted keys have made. -/
def addEntry (key : Key) (node : Node) (here : Origin) (es : Entries) : Except Fault Entries :=
  if (here == .dotted) == key.path.isEmpty then .error (.duplicateKey key.name)
  else match es.get? key.name with
    | some _ => .error (.duplicateKey key.name)
    | none => .ok (es.put key.name node)

/-- Give a key something to lead to in the table at hand. -/
def assign (key : Key) (node : Node) (es : Entries) : Except Fault Entries :=
  descend .dotted (addEntry key node) .header key.path es

/-- Open a table by its header. One that is there because of tables within it moves to the end. -/
def openTable (key : Key) (es : Entries) : Except Fault Entries :=
  descend .implied (fun _ es =>
    match es.get? key.name with
    | none => .ok (es.put key.name (.table .header []))
    | some (.table .implied inner) =>
      .ok ((es.erase key.name).put key.name (.table .header inner))
    | some _ => .error (.duplicateKey key.name)) .header key.path es

/-- Add an element to a list of tables by its header. -/
def openElement (key : Key) (es : Entries) : Except Fault Entries :=
  descend .implied (fun _ es =>
    match es.get? key.name with
    | none => .ok (es.put key.name (.tables [[]]))
    | some (.tables elements) => .ok (es.put key.name (.tables (elements ++ [[]])))
    | some _ => .error (.duplicateKey key.name)) .header key.path es

/-- Give a key something to lead to below the table that the last header has opened. -/
def assignBelow (header : List String) (key : Key) (node : Node) (es : Entries) :
    Except Fault Entries :=
  descend .implied (fun _ es => assign key node es) .header header es

end Entries

/-- The key that marks a table as a moment. -/
def datetimeKey : String := "$__toml_private_datetime"

mutual

/-- The value that has grown. -/
def Node.toValue : Node → Except Fault Value
  | .scalar v => .ok v
  | .array items => return .array (← Node.values items)
  | .table _ entries => Entries.toValue entries
  | .tables elements => return .array (← Entries.elementValues elements)

/-- The values of the items of an array. -/
def Node.values : List Node → Except Fault (List Value)
  | [] => .ok []
  | node :: rest => do return (← node.toValue) :: (← Node.values rest)

/-- The value of a table: one whose first key is the mark of moments stands for the moment in its
text, and what follows that is left aside. -/
def Entries.toValue : List (String × Node) → Except Fault Value
  | [] => .ok (.table [])
  | (key, node) :: rest => do
    if key = datetimeKey then
      match node with
      | .scalar (.text s) =>
        match Datetime.ofText? s with
        | some d => return .datetime d
        | none => throw (.expected "a date or time")
      | _ => throw (.expected "a date or time")
    else return .table (Table.ofList ((key, ← node.toValue) :: (← Entries.values rest)))

/-- The values of entries, in their order. -/
def Entries.values : List (String × Node) → Except Fault (List (String × Value))
  | [] => .ok []
  | (key, node) :: rest => do return (key, ← node.toValue) :: (← Entries.values rest)

/-- The values of a list of tables. -/
def Entries.elementValues : List (List (String × Node)) → Except Fault (List Value)
  | [] => .ok []
  | es :: rest => do return (← Entries.toValue es) :: (← Entries.elementValues rest)

end

end ProjectScope.Toml

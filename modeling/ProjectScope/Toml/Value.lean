import ProjectScope.Decimal.Binary64
import ProjectScope.Toml.Datetime

/-!
# Values and tables

The values that a document holds. The entries of a table stand in the order of their keys, each
key once, which `Table.insert` keeps up; the order is that of the code points.
-/

namespace ProjectScope.Toml

/-- A value of a document. -/
inductive Value where
  | text (s : String)
  | integer (n : Int64)
  | float (x : Binary64)
  | boolean (b : Bool)
  | datetime (d : Datetime)
  | array (items : List Value)
  | table (entries : List (String × Value))
  deriving Repr

/-- Values by their keys, in the order of the keys. -/
abbrev Table := List (String × Value)

namespace Table

/-- The keys, in order. -/
def keys (t : Table) : List String := t.map Prod.fst

/-- The value of a key. -/
def get? (t : Table) (key : String) : Option Value := t.lookup key

/-- Whether a key has a value. -/
def contains (t : Table) (key : String) : Bool := (t.get? key).isSome

/-- Give a key a value, in place of the one that it may have. -/
def insert (t : Table) (key : String) (v : Value) : Table :=
  match t with
  | [] => [(key, v)]
  | (k, w) :: rest =>
    if key < k then (key, v) :: (k, w) :: rest
    else if key = k then (key, v) :: rest
    else (k, w) :: insert rest key v

/-- The table of the given entries; of several with one key the last one holds. -/
def ofList (entries : List (String × Value)) : Table :=
  entries.foldl (fun t (key, v) => insert t key v) []

@[simp] theorem get?_nil (key : String) : get? [] key = none := rfl

theorem get?_cons (t : Table) (k : String) (w : Value) (key : String) :
    get? ((k, w) :: t) key = if key = k then some w else t.get? key := by
  by_cases h : key = k
  · simp [get?, h]
  · simp [get?, List.lookup_cons, h, beq_false_of_ne h]

/-- Only the value of the key changes. -/
theorem get?_insert (t : Table) (key : String) (v : Value) (other : String) :
    (t.insert key v).get? other = if other = key then some v else t.get? other := by
  induction t with
  | nil => simp [insert, get?_cons]
  | cons entry rest ih =>
    obtain ⟨k, w⟩ := entry
    unfold insert
    split
    · rw [get?_cons]
    · split
      · rename_i h
        subst h
        simp only [get?_cons]
        split <;> rfl
      · rename_i h
        rw [get?_cons, get?_cons, ih]
        grind

end Table

namespace Value

/-- The text of a text value. -/
def text? : Value → Option String
  | text s => some s
  | _ => none

/-- The number of an integer value. -/
def integer? : Value → Option Int64
  | integer n => some n
  | _ => none

/-- The truth value of a boolean. -/
def boolean? : Value → Option Bool
  | boolean b => some b
  | _ => none

/-- The entries of a table value. -/
def table? : Value → Option Table
  | table entries => some entries
  | _ => none

/-- Whether a value is a table. -/
def isTable (v : Value) : Bool := v.table?.isSome

end Value

end ProjectScope.Toml

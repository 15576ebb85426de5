import ProjectScope.Toml.Value.Printer

/-!
# Writing documents

A document is written as sections: the entries that have no section of their own, and then, in the
order of the keys, a section for each table and for each element of a list of tables. A section
with a header is set off by an empty line, unless nothing stands before it.
-/

namespace ProjectScope.Toml

/-- What stands above the entries of a section. -/
inductive Heading where
  /-- Nothing: the section of the document itself. -/
  | none
  | table
  | element
  deriving DecidableEq, Repr

/-- A part of a written document. -/
structure Section where
  heading : Heading
  path : List String
  /-- The entries that stand in the section itself. -/
  lines : List String
  /-- Whether the table of the section has no entries at all. -/
  isEmpty : Bool

namespace Section

/-- Whether a section is written. A table of which only the parts below it say something needs no
header. -/
def isVisible (s : Section) : Bool :=
  match s.heading with
  | .none => !s.lines.isEmpty
  | .table => !s.lines.isEmpty || s.isEmpty
  | .element => true

/-- The header of a section, with the end of its line. -/
def header (s : Section) : String :=
  let path := ".".intercalate (s.path.map quoteKey)
  match s.heading with
  | .none => ""
  | .table => "[" ++ path ++ "]\n"
  | .element => "[[" ++ path ++ "]]\n"

/-- A section as text. -/
def toText (s : Section) : String := s.header ++ String.join (s.lines.map (· ++ "\n"))

end Section

namespace Value

/-- Whether a value is a list of tables that is written as sections. -/
def isTableList : Value → Bool
  | array items => !items.isEmpty && items.all isTable
  | _ => false

/-- Whether a value is written as sections of its own. -/
def hasSections (v : Value) : Bool := v.isTable || v.isTableList

end Value

/-- The lines of the entries that stand in the section of their table. -/
def entryLines (entries : List (String × Value)) : List String :=
  entries.filterMap fun (key, v) =>
    if v.hasSections then Option.none
    else some (quoteKey key ++ " = " ++ v.write true)

mutual

/-- The sections of a value at a path, where it has any. -/
def Value.sections (path : List String) (heading : Heading) : Value → List Section
  | .table entries =>
    ⟨heading, path, entryLines entries, entries.isEmpty⟩ :: entrySections path entries
  | .array items =>
    if (Value.array items).isTableList then elementSections path items else []
  | _ => []

/-- The sections of the elements of a list of tables. -/
def elementSections (path : List String) : List Value → List Section
  | [] => []
  | v :: rest => v.sections path .element ++ elementSections path rest

/-- The sections of the entries of a table. -/
def entrySections (path : List String) : List (String × Value) → List Section
  | [] => []
  | (key, v) :: rest => v.sections (path ++ [key]) .table ++ entrySections path rest

end

/-- A table as a document. -/
def Table.render (t : Table) : String :=
  let sections := (Value.table t).sections [] .none
  "\n".intercalate ((sections.filter Section.isVisible).map Section.toText)

end ProjectScope.Toml

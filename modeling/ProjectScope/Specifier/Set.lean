import ProjectScope.Specifier.Narrowing

/-!
# Specifier sets

Clauses with commas between them. A version satisfies the set when it satisfies every clause;
blank clauses are skipped, so a blank text is the empty set.
-/

namespace ProjectScope

/-- Clauses that a version has to satisfy together, in the order in which they are written. -/
structure SpecifierSet where
  clauses : List Specifier := []
  deriving DecidableEq, Repr

namespace SpecifierSet

/-- The clauses of a text, trimmed, without the blank ones. -/
def pieces (s : String) : List (List Char) :=
  ((s.toList.splitOn ',').map Text.trim).filter (!·.isEmpty)

/-- Read a set; the first clause that cannot be read is the error. -/
def parse (s : String) : Except Error SpecifierSet := do
  let clauses ← (pieces s).mapM fun piece => Specifier.parse (String.ofList piece)
  return { clauses }

/-- Whether there are no clauses. -/
def isEmpty (xs : SpecifierSet) : Bool := xs.clauses.isEmpty

/-- Whether a version satisfies every clause. -/
def contains (xs : SpecifierSet) (c : Version) : Bool := xs.clauses.all (·.contains c)

/-- The first clause that a version does not satisfy. -/
def firstRejecting? (xs : SpecifierSet) (c : Version) : Option Specifier :=
  xs.clauses.find? fun x => !x.contains c

/-- The versions that satisfy the set, in their order. -/
def filter (xs : SpecifierSet) (cs : List Version) : List Version := cs.filter xs.contains

/-- Narrow every clause to minor versions. -/
def narrow (xs : SpecifierSet) : Except Error SpecifierSet := do
  let clauses ← xs.clauses.mapM Specifier.narrow
  return { clauses }

/-- Two sets are the same when their clauses are, one by one. -/
def same (xs ys : SpecifierSet) : Bool :=
  xs.clauses.length == ys.clauses.length &&
    (xs.clauses.zip ys.clauses).all fun (x, y) => x.same y

/-- The set as it is printed. -/
def render (xs : SpecifierSet) : List Char :=
  [','].intercalate (xs.clauses.map Specifier.render)

/-- The printed set as a string. -/
def toText (xs : SpecifierSet) : String := String.ofList xs.render

end SpecifierSet

end ProjectScope

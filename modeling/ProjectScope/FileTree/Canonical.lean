import ProjectScope.FileTree.Basic
import ProjectScope.Path.Lexical

/-!
# Canonical paths

A path is made canonical as far as it exists: the longest prefix that the tree knows is replaced by
the location it leads to, and what is left is folded as text. So a path whose end is missing, or
which runs through a regular file, still has a canonical form.
-/

namespace ProjectScope

/-- A path in two parts: the part that exists, made canonical, and what is left of it. -/
structure PartialPath where
  canonical : Path
  rest : Option Path := none
  deriving DecidableEq, Repr

namespace FileTree

/-- Whether a lookup failed only because something is not there. -/
def isAbsence (e : IoError) : Bool := e.kind == .notFound || e.kind == .notADirectory

/-- Split a path at the longest prefix that exists. The prefix is given last component first, and
the components after it as they are. -/
def splitExisting (t : FileTree) (p : Path) :
    List Component → List Component → Except Error PartialPath
  | [], _ => .error (.invalidPath p "Cannot find any existing portion of path")
  | c :: before, rest =>
    let shortened := Path.ofComponents (c :: before).reverse
    match t.realpath shortened with
    | .ok l =>
      .ok ⟨.ofNames l, if rest.isEmpty then none else some (.ofComponents rest)⟩
    | .error e =>
      if isAbsence e then splitExisting t p before (c :: rest) else .error (.ofIo shortened e)

/-- Split a path at the longest prefix that exists. A failure other than absence is the error. -/
def canonicalizeExisting (t : FileTree) (p : Path) : Except Error PartialPath :=
  t.splitExisting p p.components.reverse []

/-- The canonical form of a path, be it there or not. -/
def resolve (t : FileTree) (p : Path) : Except Error Path := do
  let found ← t.canonicalizeExisting p
  match found.rest with
  | none => return found.canonical
  | some rest => return (found.canonical.join rest).fold

end FileTree

end ProjectScope

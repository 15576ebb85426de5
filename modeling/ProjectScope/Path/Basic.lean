import ProjectScope.Text.Blank

/-!
# Paths

A path is kept as it is spelled, because messages and joined paths show the spelling. What a path
means is its list of components: repeated and trailing slashes carry no component, nor does a `.`
after the first place. Two spellings with the same components name the same key.
-/

namespace ProjectScope

/-- A path as it is spelled. -/
structure Path where
  text : String
  deriving DecidableEq, Repr

/-- What a step of a path does. -/
inductive Component where
  /-- Start at the root. -/
  | root
  /-- Stay where the path starts, as a leading `.` does. -/
  | here
  /-- Go to the parent. -/
  | up
  /-- Go to the entry of this name. -/
  | name (n : String)
  deriving DecidableEq, Repr

/-- A piece of a path between two slashes. -/
abbrev Segment := List Char

namespace Segment

/-- Empty pieces and single dots are no components of their own. -/
def isFiller (s : Segment) : Bool := s == [] || s == ['.']

/-- The component that a piece stands for, if any. -/
def component? (s : Segment) : Option Component :=
  if s.isFiller then none
  else if s == ['.', '.'] then some .up
  else some (.name (String.ofList s))

end Segment

/-- How a path starts. -/
inductive Lead where
  | root
  | here
  | bare
  deriving DecidableEq, Repr

namespace Lead

/-- The component that the start of a path contributes. -/
def components : Lead → List Component
  | root => [.root]
  | here => [.here]
  | bare => []

end Lead

namespace Path

/-- The pieces with slashes between them. -/
def glue (segments : List Segment) : List Char := ['/'].intercalate segments

/-- The path with the given start and pieces. -/
def ofParts (lead : Lead) (body : List Segment) : Path :=
  match lead, body with
  | .root, body => ⟨String.ofList ('/' :: glue body)⟩
  | .here, [] => ⟨"."⟩
  | .here, body => ⟨String.ofList ('.' :: '/' :: glue body)⟩
  | .bare, body => ⟨String.ofList (glue body)⟩

/-- The pieces of a path, split at every slash. -/
def pieces (p : Path) : List Segment := p.text.toList.splitOn '/'

/-- How a path starts, and the pieces after that. -/
def parts (p : Path) : Lead × List Segment :=
  match p.pieces with
  | [] :: s :: body => (.root, s :: body)
  | ['.'] :: body => (.here, body)
  | body => (.bare, body)

/-- How a path starts. -/
def lead (p : Path) : Lead := p.parts.1

/-- The pieces of a path after its start. -/
def body (p : Path) : List Segment := p.parts.2

/-- The components of a path, which are all that it means. -/
def components (p : Path) : List Component :=
  p.lead.components ++ p.body.filterMap Segment.component?

/-- Whether a path starts at the root. -/
def isAbsolute (p : Path) : Bool := p.lead == .root

/-- Whether nothing is written. -/
def isEmpty (p : Path) : Bool := p.text.isEmpty

/-- Whether two spellings mean the same path. -/
def same (p q : Path) : Bool := p.components == q.components

/-- `q` seen from `p`: an absolute `q` stands for itself, and a slash is written between the two
only where `p` does not end in one already. -/
def join (p q : Path) : Path :=
  if q.isAbsolute then q
  else if p.isEmpty || p.text.toList.getLast? == some '/' then ⟨p.text ++ q.text⟩
  else ⟨p.text ++ "/" ++ q.text⟩

/-- The entry of the given name in the directory `p`. -/
def child (p : Path) (name : String) : Path := p.join ⟨name⟩

/-- The path that spells the given components. -/
def ofComponents (cs : List Component) : Path :=
  let spelled : List Segment := cs.filterMap fun
    | .root => none
    | .here => some ['.']
    | .up => some ['.', '.']
    | .name n => some n.toList
  if cs.head? == some .root then ofParts .root spelled else ⟨String.ofList (glue spelled)⟩

/-- The absolute path that leads through the given names. -/
def ofNames (names : List String) : Path := ofParts .root (names.map String.toList)

/-- The directories above a path with the given start, whose pieces are given last first. -/
def above (lead : Lead) : List Segment → List Path
  | [] => if lead = .here then [⟨""⟩] else []
  | s :: rest =>
    if s.isFiller then above lead rest
    else ofParts lead (rest.dropWhile Segment.isFiller).reverse :: above lead rest

/-- The strict ancestors of a path, nearest first. -/
def properAncestors (p : Path) : List Path := above p.lead p.body.reverse

/-- The path itself and its ancestors, nearest first. -/
def ancestors (p : Path) : List Path := p :: p.properAncestors

/-- The nearest strict ancestor. -/
def parent? (p : Path) : Option Path := p.properAncestors.head?

/-- The last ancestor: the root for an absolute path, the empty path for a relative one. -/
def top (p : Path) : Path := p.properAncestors.getLast?.getD p

/-- Drop the first `n` components from the pieces of a path. -/
def dropSegments : Nat → List Segment → List Segment
  | _, [] => []
  | 0, body => body.dropWhile Segment.isFiller
  | n + 1, s :: body => if s.isFiller then dropSegments (n + 1) body else dropSegments n body

/-- What is left of `p` below `base`, or nothing when `p` does not lie there. -/
def stripBase? (base p : Path) : Option Path :=
  if base.components.isPrefixOf p.components then
    let body := Text.dropRightWhile Segment.isFiller p.body
    if base.components.isEmpty then some (ofParts p.lead body)
    else
      let below := base.components.length - p.lead.components.length
      some (ofParts .bare (dropSegments below body))
  else none

@[simp] theorem mem_ancestors_self (p : Path) : p ∈ p.ancestors := by simp [ancestors]

theorem join_of_isAbsolute {p q : Path} (h : q.isAbsolute = true) : p.join q = q := by
  simp [join, h]

end Path

end ProjectScope

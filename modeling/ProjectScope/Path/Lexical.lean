import ProjectScope.Path.Basic

/-!
# Paths as text

Operations that look at the spelling of a path and never at the disk: folding `.` and `..`,
making a path absolute, and replacing a leading `~` by a home directory.
-/

namespace ProjectScope

/-- A path without `.` and with every `..` folded that can be: a start, the levels that a relative
path climbs, and the names after that, last first. -/
structure Folded where
  rooted : Bool := false
  climbs : Nat := 0
  names : List String := []
  deriving DecidableEq, Repr

namespace Folded

/-- Take one more component. The root is its own parent. -/
def push (f : Folded) : Component → Folded
  | .root => { f with rooted := true }
  | .here => f
  | .up =>
    match f.names with
    | _ :: names => { f with names }
    | [] => if f.rooted then f else { f with climbs := f.climbs + 1 }
  | .name n => { f with names := n :: f.names }

/-- The components that are left after folding. -/
def components (f : Folded) : List Component :=
  (if f.rooted then [.root] else []) ++ List.replicate f.climbs .up ++
    f.names.reverse.map .name

end Folded

namespace Path

/-- Fold the `.` and `..` of a path without looking at the disk. -/
def fold (p : Path) : Path :=
  ofComponents (p.components.foldl Folded.push {}).components

/-- The path, seen from `base` when it is relative. -/
def absolutize (base p : Path) : Path := if p.isAbsolute then p else base.join p

/-- Replace a first component `~` by the home directory; nothing when that is needed and unknown.
A name such as `~user` stands for itself. -/
def expandTilde? (home : Option Path) (p : Path) : Option Path :=
  if p.components.head? == some (.name "~") then
    home.map fun h =>
      let rest := ofParts .bare
        (dropSegments 1 (Text.dropRightWhile Segment.isFiller p.body))
      if rest.isEmpty then h else h.join rest
  else some p

end Path

end ProjectScope

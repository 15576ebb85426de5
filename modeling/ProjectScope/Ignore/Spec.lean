import ProjectScope.Error
import ProjectScope.Ignore.Pattern

/-!
# Ignore specs

The patterns of an ignore file at a root. For a path the last pattern that matches decides; where
none matches, the directories above are asked in turn, and the nearest one at which a pattern
matches decides.
-/

namespace ProjectScope

/-- The name of an ignore file. -/
def ignoreFileName : String := ".gitignore"

/-- The patterns that hold below a root, in the order of their lines. -/
structure IgnoreSpec where
  root : Path
  patterns : List Pattern := []
  deriving Repr

/-- Why a path cannot be matched. -/
inductive MatchFault where
  /-- What is left of the path below the root is absolute. -/
  | absoluteRemainder
  deriving DecidableEq, Repr

namespace IgnoreSpec

/-- The error about a line that is no pattern; the line is quoted without the blanks at its end. -/
def lineError (file : Path) (number : Nat) (line : String) (fault : GlobFault) : Error :=
  .invalidIgnoreFile file number
    ("error parsing glob '" ++ String.ofList (Pattern.trimLine line.toList) ++ "': " ++
      fault.message)

/-- The patterns of the lines from line number `number` on. -/
def readLines (file : Path) : Nat → List String → Except Error (List Pattern)
  | _, [] => .ok []
  | number, line :: lines => do
    let pattern? ← (Pattern.ofLine line.toList).mapError (lineError file number line)
    return pattern?.toList ++ (← readLines file (number + 1) lines)

/-- The spec of an ignore file at `root` with the given lines; the first line that is no pattern is
the error. -/
def ofLines (root : Path) (lines : List String) : Except Error IgnoreSpec := do
  return { root, patterns := ← readLines (root.child ignoreFileName) 1 lines }

/-- The number of patterns. -/
def size (spec : IgnoreSpec) : Nat := spec.patterns.length

/-- Drop a leading `./`. -/
def dropDot (s : List Char) : List Char := (['.', '/'].isPrefixOf? s).getD s

/-- A path as the patterns see it: without a leading `./`, and, if it has several components,
without a leading copy of the root and a slash after that. -/
def seenFrom (root path : Path) : Path :=
  let base := dropDot root.text.toList
  let s := dropDot path.text.toList
  if (Path.mk (String.ofList base)).same ⟨"."⟩ || !s.contains '/' then ⟨String.ofList s⟩
  else match base.isPrefixOf? s with
    | some ('/' :: r) => ⟨String.ofList r⟩
    | some r => ⟨String.ofList r⟩
    | none => ⟨String.ofList s⟩

/-- What the patterns say about a path itself: the last one that matches decides. -/
def verdict? (patterns : List Pattern) (path : Path) (isDirectory : Bool) : Option Bool :=
  let bytes := Glob.bytes path.text.toList
  (patterns.reverse.find? (·.appliesTo bytes isDirectory)).map fun p => !p.negated

/-- What the patterns say about a path: its own verdict, or that of the nearest directory above it
that has one. -/
def verdictUpwards? (patterns : List Pattern) (path : Path) (isDirectory : Bool) : Option Bool :=
  (verdict? patterns path isDirectory).orElse fun _ =>
    path.properAncestors.findSome? fun dir => verdict? patterns dir true

/-- The path relative to the root, if it lies below it. -/
def relative? (spec : IgnoreSpec) (path : Path) : Option Path :=
  if path.isAbsolute then spec.root.stripBase? path else some path

/-- Whether a path is ignored. An absolute path has to lie below the root. -/
def ignores (spec : IgnoreSpec) (path : Path) (isDirectory : Bool) : Except MatchFault Bool :=
  match spec.relative? path with
  | none => .ok false
  | some relative =>
    if relative.isEmpty || spec.patterns.isEmpty then .ok false
    else
      let seen := seenFrom spec.root relative
      if seen.isAbsolute then .error .absoluteRemainder
      else .ok ((verdictUpwards? spec.patterns seen isDirectory).getD false)

end IgnoreSpec

end ProjectScope

import ProjectScope.Ignore.Glob.Parser

/-!
# Ignore patterns

A line of an ignore file is a comment, blank, or a pattern: a glob with marks for negation, for
being anchored at the root and for directories only. A pattern without a slash inside is about
entries at any depth.
-/

namespace ProjectScope

/-- A pattern of an ignore file. -/
structure Pattern where
  glob : Glob
  /-- Whether entries that match are taken back in. -/
  negated : Bool := false
  onlyDirectories : Bool := false
  deriving Repr

namespace Pattern

/-- Whether a line says that its glob is anchored or negated, and the glob. A backslash takes the
meaning from a first `!` or `#`. -/
def splitMarks : List Char → Bool × Bool × List Char
  | '\\' :: '!' :: r => (false, false, '!' :: r)
  | '\\' :: '#' :: r => (false, false, '#' :: r)
  | '!' :: '/' :: r => (true, true, r)
  | '!' :: r => (true, false, r)
  | '/' :: r => (false, true, r)
  | r => (false, false, r)

/-- Drop a final slash, with a backslash before it, which says that only directories match. -/
def splitFinalSlash (s : List Char) : Bool × List Char :=
  match s.reverse with
  | '/' :: '\\' :: r => (true, r.reverse)
  | '/' :: r => (true, r.reverse)
  | _ => (false, s)

/-- The text of the glob: what is not anchored and has no slash inside matches at any depth, and
what ends in `/**` matches below a directory and not the directory itself. -/
def globText (anchored : Bool) (s : List Char) : List Char :=
  let deep := !anchored && !s.contains '/' && s != ['*', '*']
  let s := if deep then ['*', '*', '/'] ++ s else s
  if ['/', '*', '*'].isSuffixOf s then s ++ ['/', '*'] else s

/-- The line without blanks at its end, which stay where a backslash stands before the last. -/
def trimLine (line : List Char) : List Char :=
  if ['\\', ' '].isSuffixOf line then line else Text.trimRight line

/-- The pattern on a line; nothing when the line is a comment or blank. -/
def ofLine (line : List Char) : Except GlobFault (Option Pattern) :=
  if line.head? == some '#' || (trimLine line).isEmpty then .ok none
  else do
    let (negated, anchored, s) := splitMarks (trimLine line)
    let (onlyDirectories, s) := splitFinalSlash s
    let glob ← Glob.parse (globText anchored s)
    return some { glob, negated, onlyDirectories }

/-- Whether the pattern matches a path as it is written. -/
def appliesTo (p : Pattern) (path : List UInt8) (isDirectory : Bool) : Bool :=
  (!p.onlyDirectories || isDirectory) && p.glob.matchesBytes path

end Pattern

end ProjectScope

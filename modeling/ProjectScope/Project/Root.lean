import ProjectScope.FileTree.Basic
import ProjectScope.Path.Basic

/-!
# Project roots

A directory is the root of a project if it holds a marker: an entry `.git` of any kind, a directory
`.hg`, or a project file with a section for the tool. The candidates for the root of a path are the
directories above it, and the path itself if it is a directory.
-/

namespace ProjectScope

/-- Why a directory is the root. -/
inductive RootReason where
  | git
  | mercurial
  | projectFile
  /-- No directory has a marker, and the root of the file system stands in. -/
  | fileSystemRoot
  deriving DecidableEq, Repr

/-- The reason in words. -/
def RootReason.text : RootReason → String
  | git => ".git directory"
  | mercurial => ".hg directory"
  | projectFile => "pyproject.toml"
  | fileSystemRoot => "file system root"

/-- The root of a project. -/
structure ProjectRoot where
  path : Path
  reason : RootReason
  deriving DecidableEq, Repr

/-- The entry that marks a directory under Git; a linked work tree has a file of this name. -/
def gitMarker : String := ".git"

/-- The directory that marks a directory under Mercurial. -/
def mercurialMarker : String := ".hg"

/-- The source that stands for the standard input. -/
def stdinMark : String := "-"

namespace FileTree

/-- The directories that may be the root for a path, nearest first. -/
def candidateRoots (t : FileTree) (p : Path) : List Path :=
  (if t.isDirectory p then [p] else []) ++ p.properAncestors

/-- What a path leads to, if anything. Nothing stands under a regular file. -/
def probe (t : FileTree) (p : Path) : Except Error (Option Entry) :=
  match t.stat p with
  | .ok e => .ok (some e)
  | .error e =>
    if e.kind = .notFound || p.parent?.any t.isFile then .ok none else .error (.ofIo p e)

/-- The deepest directory that is a candidate for every one of some paths. Paths that share none
have the root of the first one in common. -/
def commonCandidate (t : FileTree) (first : Path) (rest : List Path) : Path :=
  let shared (d : Path) : Bool := rest.all fun p => (t.candidateRoots p).any d.same
  ((t.candidateRoots first).find? shared).getD first.top

end FileTree

end ProjectScope

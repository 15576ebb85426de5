import ProjectScope.FileTree.Canonical
import ProjectScope.Session.Basic
import ProjectScope.Text.Lines

/-!
# Paths, documents and ignore files of a session

Each path is resolved, each document parsed and each ignore file compiled at most once. Documents
and ignore files are remembered by their resolved paths, so all paths to one file share them.
-/

namespace ProjectScope

/-- Read and parse a document. -/
def FileTree.readDocument (t : FileTree) (p : Path) : Except Error Toml.Table :=
  match t.readText p with
  | .error e => .error (if e.kind = .notFound then .configNotFound p else .ofIo p e)
  | .ok text => (Toml.Table.parse text).mapError fun fault => .invalidDocument p fault.message

/-- Read the ignore file at a root; there need not be one. -/
def FileTree.readIgnoreFile (t : FileTree) (root : Path) : Logged (Except Error IgnoreSpec) :=
  let file := root.child ignoreFileName
  match t.readText file with
  | .error e =>
    if e.kind = .notFound then
      { value := .ok { root }
        log := [.debug ("no " ++ ignoreFileName ++ " at " ++ root.text)] }
    else { value := .error (.ofIo file e) }
  | .ok text =>
    match IgnoreSpec.ofLines root ((Text.lines text.toList).map String.ofList) with
    | .ok spec => { value := .ok spec }
    | .error e => { value := .error e, log := [⟨.error, e.message⟩] }

namespace Session

/-- Resolve a path: an absolute path without links, be there something or not. -/
def resolve (s : Session) (t : FileTree) (p : Path) : Action Path :=
  .remembered .paths p.components (.ofResult (t.resolve (Path.absolutize s.base p)))

/-- A source relative to a resolved root, if it lies there once it is resolved. -/
def relativeTo (s : Session) (t : FileTree) (root source : Path) : Action (Option Path) := do
  return root.stripBase? (← s.resolve t source)

/-- The document at a path. -/
def document (s : Session) (t : FileTree) (p : Path) : Action Toml.Table := do
  let resolved ← s.resolve t p
  .remembered .documents resolved.components (.ofResult (t.readDocument resolved))

/-- Whether the document at a path has an entry for the tool. -/
def hasTool (s : Session) (t : FileTree) (p : Path) : Action Bool := do
  return ProjectFile.hasTool (← s.document t p) s.tool

/-- The options of the tool as they are written in the document at a path. -/
def rawOptions (s : Session) (t : FileTree) (p : Path) : Action Toml.Table := do
  return ProjectFile.rawOptions (← s.document t p) s.tool

/-- The options of the tool that the document at a path gives. -/
def options (s : Session) (t : FileTree) (p : Path) : Action Options := do
  .ofLogged (ProjectFile.options (← s.document t p) s.tool p)

/-- The ignore spec of a root. -/
def ignoreSpec (s : Session) (t : FileTree) (root : Path) : Action IgnoreSpec := do
  let resolved ← s.resolve t root
  .remembered .ignores resolved.components do
    .ofResult (← .ofLogged (t.readIgnoreFile resolved))

/-- The user-level configuration file, resolved. -/
def userConfig (s : Session) (t : FileTree) : Action Path := do
  s.resolve t (← .ofResult (s.user.configPath s.tool))

end Session

end ProjectScope

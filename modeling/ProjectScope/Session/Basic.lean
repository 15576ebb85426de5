import ProjectScope.Config.ProjectFile
import ProjectScope.Config.User
import ProjectScope.Ignore.Spec
import ProjectScope.Project.Root
import ProjectScope.Session.Memo

/-!
# Sessions

A session says how the operations of one run are meant: from which directory relative paths lead,
for which tool, and in which environment. What the operations find out is remembered in caches,
which are trusted for as long as they live: no entry is ever removed or replaced. An action is an
operation on the caches and the log; what it has remembered and logged stays when it fails.
-/

namespace ProjectScope

/-- The facts that the operations of a run depend on, apart from the disk. -/
structure Session where
  base : Path
  tool : String := defaultTool
  user : UserEnvironment := {}
  deriving Repr

/-- A path as a question: what it means, whatever its spelling. -/
abbrev PathKey := List Component

/-- A list of sources and the file name of the standard input as a question. -/
abbrev SourceKey := List PathKey × Option PathKey

/-- What has been found out: the resolved paths by the paths as given, documents and ignore specs by
resolved paths, and project roots by the sources they were located for. -/
structure Caches where
  paths : Memo PathKey Path := {}
  documents : Memo PathKey Toml.Table := {}
  roots : Memo SourceKey ProjectRoot := {}
  ignores : Memo PathKey IgnoreSpec := {}

/-- The caches and the log so far. -/
structure Journal where
  caches : Caches := {}
  log : List LogRecord := []

/-- An operation on the caches and the log. -/
abbrev Action := ExceptT Error (StateM Journal)

/-- A part of the caches. -/
structure CachePart (κ α : Type) where
  get : Caches → Memo κ α
  set : Memo κ α → Caches → Caches

namespace CachePart

/-- The resolved paths. -/
def paths : CachePart PathKey Path := ⟨Caches.paths, fun m c => { c with paths := m }⟩

/-- The documents. -/
def documents : CachePart PathKey Toml.Table :=
  ⟨Caches.documents, fun m c => { c with documents := m }⟩

/-- The project roots. -/
def roots : CachePart SourceKey ProjectRoot := ⟨Caches.roots, fun m c => { c with roots := m }⟩

/-- The ignore specs. -/
def ignores : CachePart PathKey IgnoreSpec := ⟨Caches.ignores, fun m c => { c with ignores := m }⟩

end CachePart

namespace Action

variable {α : Type}

/-- Add records to the log. -/
def log (records : List LogRecord) : Action Unit :=
  modify fun j => { j with log := j.log ++ records }

/-- A result that needs no caches. -/
def ofResult : Except Error α → Action α
  | .ok a => pure a
  | .error e => throw e

/-- A result with the records that belong to it. -/
def ofLogged (r : Logged α) : Action α := do
  log r.log
  return r.value

/-- Remember an answer. -/
def remember {κ : Type} [DecidableEq κ] (part : CachePart κ α) (k : κ) (a : α) : Action Unit :=
  modify fun j => { j with caches := part.set ((part.get j.caches).add k a) j.caches }

/-- The remembered answer to a question, or one that is found now and remembered. -/
def remembered {κ : Type} [DecidableEq κ] (part : CachePart κ α) (k : κ) (find : Action α) :
    Action α := do
  match (part.get (← get).caches).get? k with
  | some a => return a
  | none =>
    let a ← find
    remember part k a
    return a

/-- Run an action. -/
def run (action : Action α) (j : Journal) : Except Error α × Journal := StateT.run action j

end Action

end ProjectScope

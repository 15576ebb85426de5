import ProjectScope.Session.Files

/-!
# Discovery

The root of a project is looked for from the deepest directory that all sources have in common,
upwards to the first directory with a marker. Which configuration file applies to the sources
follows from it: the project file at the root, or else the file of the user.
-/

namespace ProjectScope

/-- Where a configuration file was found. -/
inductive ConfigOrigin where
  | project
  | user
  deriving DecidableEq, Repr

/-- The configuration file that applies to some sources, and their root. -/
structure FoundConfig where
  path : Path
  origin : ConfigOrigin
  root : ProjectRoot
  deriving DecidableEq, Repr

namespace Session

/-- The sources with the file name of the standard input, where one is given, in the place of its
mark. -/
def substitute (stdin : Option Path) (sources : List Path) : List Path :=
  sources.map fun p => if p.text = stdinMark then stdin.getD p else p

/-- The deepest directory that is a candidate root for every source; without sources, for the base
of the session. -/
def commonBase (s : Session) (t : FileTree) (sources : List Path) (stdin : Option Path) :
    Action Path := do
  match ← (substitute stdin sources).mapM (s.resolve t) with
  | [] => return t.commonCandidate (← s.resolve t s.base) []
  | first :: rest => return t.commonCandidate first rest

/-- The marker that makes a directory the root, if it has one. -/
def marker? (s : Session) (t : FileTree) (directory : Path) : Action (Option RootReason) := do
  if (← .ofResult (t.probe (directory.child gitMarker))).isSome then return some .git
  if (← .ofResult (t.probe (directory.child mercurialMarker))).any Entry.isDirectory then
    return some .mercurial
  let file := directory.child projectFileName
  if (← .ofResult (t.probe file)).any Entry.isFile then
    if ← s.hasTool t file then return some .projectFile
    .log [.debug (file.text ++ " has no [tool." ++ s.tool ++ "] section, continuing upwards")]
  return none

/-- The first of some directories that has a marker. -/
def firstMarked? (s : Session) (t : FileTree) : List Path → Action (Option ProjectRoot)
  | [] => return none
  | directory :: rest => do
    match ← s.marker? t directory with
    | some reason => return some ⟨directory, reason⟩
    | none => firstMarked? s t rest

/-- The nearest directory with a marker, from a base upwards, or else the file system's root. -/
def walk (s : Session) (t : FileTree) (base : Path) : Action ProjectRoot := do
  return (← s.firstMarked? t base.ancestors).getD ⟨base.top, .fileSystemRoot⟩

/-- The question that sources ask. -/
def sourceKey (sources : List Path) (stdin : Option Path) : SourceKey :=
  (sources.map Path.components, stdin.map Path.components)

/-- The root of the project that some sources belong to. -/
def locate (s : Session) (t : FileTree) (sources : List Path) (stdin : Option Path) :
    Action ProjectRoot :=
  .remembered .roots (sourceKey sources stdin) do
    let base ← s.commonBase t sources stdin
    let root ← s.walk t base
    .log [.debug ("project root " ++ root.path.text ++ " (" ++ root.reason.text ++
      ") from common base " ++ base.text)]
    return root

/-- The user-level configuration file, resolved; nothing, and a record of the reason, when it
cannot be determined. -/
def userConfig? (s : Session) (t : FileTree) : Action (Option Path) :=
  tryCatch (some <$> s.userConfig t) fun e => do
    .log [.debug ("ignoring user-level configuration: " ++ e.message)]
    return none

/-- The configuration file that applies to some sources. -/
def findConfig (s : Session) (t : FileTree) (sources : List Path) (stdin : Option Path) :
    Action (Option FoundConfig) := do
  let root ← s.locate t sources stdin
  let file := root.path.child projectFileName
  if t.isFile file then return some ⟨file, .project, root⟩
  match ← s.userConfig? t with
  | some user => return if t.isFile user then some ⟨user, .user, root⟩ else none
  | none => return none

end Session

end ProjectScope

import ProjectScope.Command.Failure
import ProjectScope.Command.Text
import ProjectScope.Session.Discovery
import ProjectScope.Toml.Document.Printer
import ProjectScope.Toml.Value.Json

/-!
# Running a request

A request runs in a session of its own, in the working directory. Results go to standard output;
notes, the records of the log that the verbosity shows, and the failure go to standard error. What
has been written before a failure stays written.
-/

namespace ProjectScope.Command

/-- The caches of a run, and what it has written. -/
structure Terminal where
  caches : Caches := {}
  output : List String := []
  notes : List String := []

/-- A run that may fail. -/
abbrev Program := ExceptT Failure (StateM Terminal)

/-- What a run depends on. -/
structure Context where
  tree : FileTree
  environment : Environment
  invocation : Invocation

/-- The end of a run. -/
structure Response where
  code : Nat
  output : List String := []
  notes : List String := []
  failure : Option Failure := none

namespace Context

/-- The session of a run. -/
def session (c : Context) : Session :=
  { base := .ofNames c.tree.workingDirectory
    tool := c.invocation.tool
    user := c.environment.user }

/-- How much of the log is shown. -/
def verbosity (c : Context) : Verbosity :=
  .choose c.invocation.verbose c.invocation.quiet (c.environment.get? "PROJROOT_LOG_MODE")

/-- A path as a note shows it: below the home directory, relative to that. -/
def shorten (c : Context) (p : Path) : String :=
  match c.environment.home?.bind (·.stripBase? p) with
  | some relative => "~/" ++ relative.text
  | none => p.text

end Context

namespace Program

/-- Write a line of the result. -/
def print (line : String) : Program Unit :=
  modify fun t => { t with output := t.output ++ [line] }

/-- Write notes. -/
def note (lines : List String) : Program Unit :=
  modify fun t => { t with notes := t.notes ++ lines }

/-- The lines of the records that are shown. -/
def shown (c : Context) (log : List LogRecord) : List String :=
  (log.filter fun r => c.verbosity.shows r.severity).map LogRecord.line

/-- Run an action of the session, and show its log. -/
def act {α : Type} (c : Context) (action : Action α) : Program α := do
  let (result, journal) := action.run { caches := (← get).caches }
  modify fun t => { t with caches := journal.caches }
  note (shown c journal.log)
  match result with
  | .ok a => return a
  | .error e => throw (.library e)

/-- Find the root of the project of some sources. -/
def findRoot (c : Context) (sources : List Path) (stdin : Option Path) (reason : Bool)
    (format : ResultFormat) : Program Unit := do
  let root ← act c (c.session.locate c.tree sources stdin)
  if c.invocation.verbose then
    note ["Identified `" ++ c.shorten root.path ++ "` as project root containing a " ++
      root.reason.text ++ "."]
  match format with
  | .json =>
    print (Json.Tree.record
      [("path", .text root.path.text), ("reason", .text root.reason.text)]).toText
  | .text => print (root.path.text ++ if reason then "\t" ++ root.reason.text else "")

/-- The configuration file that applies to some sources, with a note of where it was found. -/
def discoverConfig (c : Context) (sources : List Path) (stdin : Option Path) :
    Program Path := do
  match ← act c (c.session.findConfig c.tree sources stdin) with
  | none =>
    throw (.config ("no configuration file found for [tool." ++ c.invocation.tool ++ "]"))
  | some found =>
    let origin := match found.origin with
      | .project => "project"
      | .user => "user-level"
    if !c.invocation.quiet then
      note ["Using " ++ origin ++ " configuration: " ++ c.shorten found.path]
    return found.path

/-- Show the options that a file gives, or the file that applies to some sources. -/
def showConfig (c : Context) (file : Option Path) (sources : List Path) (stdin : Option Path)
    (format : OptionsFormat) : Program Unit := do
  let path ← match file with
    | some path => pure path
    | none => discoverConfig c sources stdin
  let options ← act c (c.session.options c.tree path)
  match format with
  | .json => print options.table.toJson.toText
  | .toml =>
    let text := options.table.render.toList
    print (String.ofList (if text.getLast? = some '\n' then text.dropLast else text))

/-- The `requires-python` text that is asked about. -/
def requirement (c : Context) : RequirementSource → Program String
  | .given text => return text
  | .projectFile path => do
    match ProjectFile.requiresPython? (← act c (c.session.document c.tree path)) with
    | some text => return text
    | none => throw (.negative (path.text ++ " has no [project] requires-python"))

/-- Infer the targets of a project. -/
def targetVersions (c : Context) (source : RequirementSource) (pretty : Bool)
    (format : ResultFormat) : Program Unit := do
  let text ← requirement c source
  match ← act c (.ofLogged (inferTargets text)) with
  | none =>
    throw (.negative ("no supported target versions for requires-python `" ++ text ++ "`"))
  | some targets =>
    let names := targets.map fun t => if pretty then t.pretty else t.name
    match format with
    | .json => print (Json.Tree.list (names.map Json.Tree.text)).toText
    | .text => names.forM print

/-- Show where the configuration of the user lives. -/
def userConfig (c : Context) (mustExist : Bool) : Program Unit := do
  let path ← act c (c.session.userConfig c.tree)
  print path.text
  if mustExist && !c.tree.isFile path then
    throw (.negative ("no user-level configuration at " ++ path.text))

/-- Whether a path is ignored by the spec of a root. -/
def isIgnored (c : Context) (root : Path) (spec : IgnoreSpec) (path : Path) : Program Bool := do
  match ← act c (c.session.relativeTo c.tree root path) with
  | none => return false
  | some relative =>
    let resolved ← act c (c.session.resolve c.tree path)
    return (spec.ignores relative (c.tree.isDirectory resolved)).toOption.getD false

/-- Show which of some paths are ignored, or the verdict on each of them. -/
def reportIgnored (c : Context) (root : Path) (spec : IgnoreSpec) (all : Bool) :
    List Path → Program Bool
  | [] => return false
  | path :: rest => do
    let ignored ← isIgnored c root spec path
    if all then print (path.text ++ "\t" ++ if ignored then "ignored" else "not ignored")
    else if ignored then print path.text
    let others ← reportIgnored c root spec all rest
    return ignored || others

/-- Show which paths are ignored. -/
def checkIgnore (c : Context) (paths : List Path) (root : Option Path) (all : Bool) :
    Program Unit := do
  let root ← match root with
    | some root => act c (c.session.resolve c.tree root)
    | none => ProjectRoot.path <$> act c (c.session.locate c.tree paths none)
  let spec ← act c (c.session.ignoreSpec c.tree root)
  if !(← reportIgnored c root spec all paths) then throw (.negative "no path is ignored")

/-- Run a request. -/
def ofRequest (c : Context) : Request → Program Unit
  | .findRoot sources stdin reason format => findRoot c sources stdin reason format
  | .showConfig file sources stdin format => showConfig c file sources stdin format
  | .targetVersions source pretty format => targetVersions c source pretty format
  | .userConfig mustExist => userConfig c mustExist
  | .checkIgnore paths root all => checkIgnore c paths root all
  | .completions shell => do
    if !c.invocation.quiet then note shell.notes
    print shell.script

end Program

namespace Response

/-- The exit code for arguments that do not fit. -/
def usageCode : Nat := 2

/-- What follows from arguments that ask for no request. -/
def ofHalt : Halt → Response
  | .help => { code := 0, output := [usageText] }
  | .version => { code := 0, output := [versionText] }
  | .fault f => { code := usageCode, notes := ["error: " ++ f.message] }

/-- The line about the failure, if there is one. -/
def failureLine? (r : Response) : Option String := r.failure.map ("Error: " ++ ·.message)

end Response

/-- Run a command line on a tree, in an environment. -/
def run (t : FileTree) (env : Environment) (args : List String) : Response :=
  match Invocation.ofArguments env args with
  | .error halt => .ofHalt halt
  | .ok invocation =>
    let (result, terminal) :=
      StateT.run (Program.ofRequest ⟨t, env, invocation⟩ invocation.request) {}
    let failure := match result with
      | .ok _ => none
      | .error f => some f
    { code := (failure.map Failure.exitCode).getD 0
      output := terminal.output
      notes := terminal.notes
      failure }

end ProjectScope.Command

import ProjectScope.Command.Grammar
import ProjectScope.Config.ProjectFile
import ProjectScope.Config.User

/-!
# Requests

What the command line can ask for, and how it is asked. The options `--verbose`, `--quiet` and
`--tool` may stand before the name of the command as well as after it, where they win; the
environment stands in for options that are not given.
-/

namespace ProjectScope.Command

/-- The variables of the environment. -/
structure Environment where
  bindings : List (String × String) := []
  deriving Repr

namespace Environment

/-- The value of a variable, if it is set. -/
def get? (env : Environment) (name : String) : Option String := env.bindings.lookup name

/-- The home directory. -/
def home? (env : Environment) : Option Path := (env.get? "HOME").map Path.mk

/-- The facts that decide where the configuration of the user lives. -/
def user (env : Environment) : UserEnvironment :=
  { configHome := env.get? "XDG_CONFIG_HOME", home := env.home? }

end Environment

/-- The formats of results. -/
inductive ResultFormat where
  | text
  | json
  deriving DecidableEq, Repr

/-- The formats of options. -/
inductive OptionsFormat where
  | toml
  | json
  deriving DecidableEq, Repr

/-- The shells that complete commands. -/
inductive Shell where
  | bash
  | elvish
  | fish
  | powershell
  | zsh
  deriving DecidableEq, Repr

namespace Shell

/-- The name of a shell. -/
def name : Shell → String
  | bash => "bash"
  | elvish => "elvish"
  | fish => "fish"
  | powershell => "powershell"
  | zsh => "zsh"

/-- Every shell. -/
def all : List Shell := [bash, elvish, fish, powershell, zsh]

end Shell

/-- Where a `requires-python` text comes from. -/
inductive RequirementSource where
  | given (text : String)
  | projectFile (path : Path)
  deriving DecidableEq, Repr

/-- What is asked for. -/
inductive Request where
  | findRoot (sources : List Path) (stdin : Option Path) (reason : Bool) (format : ResultFormat)
  | showConfig (file : Option Path) (sources : List Path) (stdin : Option Path)
    (format : OptionsFormat)
  | targetVersions (requirement : RequirementSource) (pretty : Bool) (format : ResultFormat)
  | userConfig (mustExist : Bool)
  | checkIgnore (paths : List Path) (root : Option Path) (all : Bool)
  | completions (shell : Shell)
  deriving Repr

namespace Request

/-- The paths that a request looks up. -/
def lookups : Request → List Path
  | findRoot sources stdin _ _ => sources ++ stdin.toList
  | showConfig _ sources stdin _ => sources ++ stdin.toList
  | checkIgnore paths root _ => paths ++ root.toList
  | _ => []

/-- The paths of files that a request reads. -/
def readings : Request → List Path
  | showConfig file _ _ _ => file.toList
  | targetVersions (.projectFile file) _ _ => [file]
  | _ => []

end Request

/-- A request, and what holds for every request. -/
structure Invocation where
  verbose : Bool
  quiet : Bool
  tool : String
  request : Request
  deriving Repr

/-- The options of every command. -/
def commonOptions : List OptionSpec :=
  [⟨"verbose", .switch, none⟩, ⟨"quiet", .switch, none⟩, ⟨"tool", .text, none⟩,
    ⟨"help", .help, some 'h'⟩]

/-- The option for the file name of the standard input. -/
def stdinOption : OptionSpec := ⟨"stdin-filename", .text, none⟩

/-- The option for the format of results. -/
def formatOption : OptionSpec := ⟨"format", .oneOf ["text", "json"], none⟩

/-- The format of results that has been asked for. -/
def resultFormat (g : Given) : ResultFormat :=
  if g.value? "format" = some "json" then .json else .text

/-- The file name of the standard input, from its option or from the environment. -/
def stdinName? (env : Environment) (g : Given) : Option Path :=
  ((g.value? "stdin-filename").orElse fun _ => env.get? "PROJROOT_STDIN_FILENAME").map Path.mk

/-- The operands as paths. -/
def operandPaths (g : Given) : List Path := g.operands.map Path.mk

/-- A command: its options and operands, and the request that they make. -/
structure CommandSpec where
  name : String
  options : List OptionSpec
  operands : Operands := .none
  request : Environment → Given → Except UsageFault Request

namespace CommandSpec

/-- Find the root of the project of some sources. -/
def findRoot : CommandSpec where
  name := "find-root"
  options := [stdinOption, ⟨"reason", .switch, none⟩, formatOption]
  operands := .many .path
  request env g :=
    .ok (.findRoot (operandPaths g) (stdinName? env g) (g.has "reason") (resultFormat g))

/-- Show the options that apply to some sources. -/
def showConfig : CommandSpec where
  name := "show-config"
  options := [⟨"config", .path, none⟩, stdinOption, ⟨"format", .oneOf ["toml", "json"], none⟩]
  operands := .many .path
  request env g :=
    .ok (.showConfig ((g.value? "config").map Path.mk) (operandPaths g) (stdinName? env g)
      (if g.value? "format" = some "json" then .json else .toml))

/-- Infer the targets of a project. -/
def targetVersions : CommandSpec where
  name := "target-versions"
  options := [⟨"project", .path, none⟩, ⟨"pretty", .switch, none⟩, formatOption]
  operands := .one .text
  request _ g :=
    let ask (r : RequirementSource) : Request :=
      .targetVersions r (g.has "pretty") (resultFormat g)
    match g.operands, g.value? "project" with
    | [text], none => .ok (ask (.given text))
    | [], some file => .ok (ask (.projectFile ⟨file⟩))
    | [], none => .error (.missing "a requires-python value or '--project'")
    | _, _ => .error (.exclusive "a requires-python value" "'--project'")

/-- Show where the configuration of the user lives. -/
def userConfig : CommandSpec where
  name := "user-config"
  options := [⟨"exists", .switch, none⟩]
  request _ g := .ok (.userConfig (g.has "exists"))

/-- Show which paths are ignored. -/
def checkIgnore : CommandSpec where
  name := "check-ignore"
  options := [⟨"root", .path, none⟩, ⟨"non-matching", .switch, some 'n'⟩]
  operands := .many .path
  request _ g :=
    if g.operands.isEmpty then .error (.missing "a path")
    else .ok (.checkIgnore (operandPaths g) ((g.value? "root").map Path.mk)
      (g.has "non-matching"))

/-- Write a completion script. -/
def completions : CommandSpec where
  name := "completions"
  options := []
  operands := .one (.oneOf (Shell.all.map Shell.name))
  request _ g :=
    match g.operands.head?.bind fun name => Shell.all.find? (·.name == name) with
    | some shell => .ok (.completions shell)
    | none => .error (.missing "a shell")

/-- Every command. -/
def all : List CommandSpec :=
  [findRoot, showConfig, targetVersions, userConfig, checkIgnore, completions]

/-- The arguments of a command, with the options of every command. -/
def grammar (c : CommandSpec) : Grammar :=
  { options := c.options ++ commonOptions, operands := c.operands }

end CommandSpec

/-- The name of the command that shows the usage. -/
def helpName : String := "help"

/-- The commands that help can be asked for. -/
def helpTopics : List String := helpName :: CommandSpec.all.map CommandSpec.name

/-- The outcome of asking for help on a topic. -/
def helpOn : List String → Halt
  | [] => .help
  | [topic] => if helpTopics.contains topic then .help else .fault (.unknownCommand topic)
  | topic :: next :: _ =>
    .fault (.unknownCommand (if helpTopics.contains topic then next else topic))

namespace Invocation

/-- The arguments before the name of the command. -/
def leadingGrammar : Grammar :=
  { options := commonOptions ++ [⟨"version", .version, some 'V'⟩] }

/-- Read the arguments of a command line. -/
def ofArguments (env : Environment) (args : List String) : Except Halt Invocation := do
  let (before, rest) ← leadingGrammar.read {} args
  match rest with
  | [] => throw (.fault (.missing "a command"))
  | name :: rest =>
    match CommandSpec.all.find? (·.name == name) with
    | none => throw (if name == helpName then helpOn rest else .fault (.unknownCommand name))
    | some command =>
      let after ← command.grammar.readAll rest
      let request ← (command.request env after).mapError Halt.fault
      let tool := (after.value? "tool").orElse fun _ =>
        (before.value? "tool").orElse fun _ => env.get? "PROJROOT_TOOL"
      return {
        verbose := before.has "verbose" || after.has "verbose"
        quiet := before.has "quiet" || after.has "quiet"
        tool := tool.getD defaultTool
        request }

end Invocation

end ProjectScope.Command

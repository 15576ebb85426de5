import ProjectScope.Error
import ProjectScope.Path.Lexical

/-!
# The user-level configuration file

Where a tool's configuration file for one user lives is a function of a few facts about the
environment. The file need not exist.
-/

namespace ProjectScope

/-- The family of operating systems, as far as configuration files are concerned. -/
inductive Platform where
  | windows
  | unix
  deriving DecidableEq, Repr

/-- The facts that decide where the file lives. -/
structure UserEnvironment where
  platform : Platform := .unix
  /-- The value of `XDG_CONFIG_HOME`, if it is set. -/
  configHome : Option String := none
  home : Option Path := none
  deriving DecidableEq, Repr

namespace UserEnvironment

/-- The home directory, where it is needed. -/
def requireHome (env : UserEnvironment) : Except Error Path :=
  match env.home with
  | some home => .ok home
  | none => .error .homeUnknown

/-- The directory that holds the configuration files on a Unix system. An empty
`XDG_CONFIG_HOME` counts as unset, and a leading `~` in it is the home directory. -/
def configDirectory (env : UserEnvironment) : Except Error Path :=
  match env.configHome with
  | some dir =>
    if dir.isEmpty then return (← env.requireHome).child ".config"
    else match Path.expandTilde? env.home ⟨dir⟩ with
      | some p => .ok p
      | none => .error .homeUnknown
  | none => return (← env.requireHome).child ".config"

/-- The configuration file of a tool: `.tool` in the home directory on Windows, and `tool` in the
configuration directory elsewhere. -/
def configPath (env : UserEnvironment) (tool : String) : Except Error Path :=
  match env.platform with
  | .windows => return (← env.requireHome).child ("." ++ tool)
  | .unix => return (← env.configDirectory).child tool

end UserEnvironment

end ProjectScope

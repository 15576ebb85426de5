import ProjectScope.Command.Request

/-!
# Fixed texts

The usage, the version, and the completion scripts, which complete the names of the commands.
-/

namespace ProjectScope.Command

/-- The name by which the program is called. -/
def programName : String := "projroot"

/-- The version of the program. -/
def versionText : String := programName ++ " 0.1.0"

/-- The usage. -/
def usageText : String :=
  "\n".intercalate ["Inspect project root discovery and formatter configuration", "",
    "Usage: " ++ programName ++ " [OPTIONS] <COMMAND>", "", "Commands:"] ++
    String.join (helpTopics.map ("\n  " ++ ·))

namespace Shell

/-- How a completion script is put to use. -/
def instruction? : Shell → Option String
  | bash => some ("eval \"$(" ++ programName ++ " completions bash)\"")
  | zsh => some (programName ++ " completions zsh > ~/.zsh/completions/_" ++ programName)
  | fish => some (programName ++ " completions fish | source")
  | powershell =>
    some (programName ++ " completions powershell | Out-String | Invoke-Expression")
  | elvish => none

/-- The notes that go with a completion script. -/
def notes (shell : Shell) : List String :=
  ("# Generating " ++ shell.name ++ " completion script") ::
    (shell.instruction?.map ("#   " ++ ·)).toList

/-- A script that completes the names of the commands. -/
def script (shell : Shell) : String :=
  let words := " ".intercalate helpTopics
  let quoted := ", ".intercalate (helpTopics.map fun s => "'" ++ s ++ "'")
  match shell with
  | bash => "complete -W '" ++ words ++ "' " ++ programName
  | zsh => "#compdef " ++ programName ++ "\ncompadd " ++ words
  | fish => "complete -c " ++ programName ++ " -n __fish_use_subcommand -f -a '" ++ words ++ "'"
  | powershell =>
    "Register-ArgumentCompleter -Native -CommandName " ++ programName ++
      " -ScriptBlock \x7b " ++ quoted ++ " \x7d"
  | elvish =>
    "set edit:completion:arg-completer[" ++ programName ++ "] = \x7b|@words| put " ++ words ++
      " \x7d"

end Shell

end ProjectScope.Command

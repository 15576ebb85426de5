import ProjectScope.Config.Options
import ProjectScope.Target.Inference
import ProjectScope.Toml.Document

/-!
# Project files

What a project file says about a tool and about the project itself. A tool that configures no
targets gets those that the project's `requires-python` admits.
-/

namespace ProjectScope

open Toml

/-- The name of a project file. -/
def projectFileName : String := "pyproject.toml"

/-- The tool that is configured when none is named. -/
def defaultTool : String := "black"

namespace ProjectFile

/-- The table of a key that holds one. -/
def subtable? (t : Table) (key : String) : Option Table := (t.get? key).bind Value.table?

/-- Whether a document has an entry for a tool, be it a table or not. -/
def hasTool (document : Table) (tool : String) : Bool :=
  (subtable? document "tool").any (·.contains tool)

/-- The table of a tool. -/
def toolSection? (document : Table) (tool : String) : Option Table :=
  (subtable? document "tool").bind (subtable? · tool)

/-- The `requires-python` text of a project. -/
def requiresPython? (document : Table) : Option String :=
  ((subtable? document "project").bind (·.get? "requires-python")).bind Value.text?

/-- The targets that a project admits. -/
def inferredTargets (document : Table) : Logged (Option Targets) :=
  match requiresPython? document with
  | some text => inferTargets text
  | none => { value := none }

/-- The options of a tool as they are written; none when it has no table. -/
def rawOptions (document : Table) (tool : String) : Table :=
  (toolSection? document tool).getD []

/-- The options of a tool in the document at a path, with the inferred targets where none are
configured. -/
def options (document : Table) (tool : String) (path : Path) : Logged Options :=
  let written := Options.ofTable (rawOptions document tool)
  if (written.get? targetOption).isSome then { value := written }
  else
    let found := inferredTargets document
    match found.value with
    | some ts => { value := written.withTargets ts, log := found.log }
    | none =>
      { value := written
        log := found.log ++ [.debug ("no target versions inferred for " ++ path.text)] }

end ProjectFile

end ProjectScope

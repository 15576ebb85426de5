import ProjectScope.Error
import ProjectScope.Target.Basic
import ProjectScope.Toml.Value.Printer

/-!
# Options of a tool

The table of a tool holds its options. In the name of an option a hyphen and an underscore mean the
same, and the names are brought to underscores; the values stay as they are.
-/

namespace ProjectScope

open Toml

/-- The name of the option that a key gives. -/
def optionName (key : String) : String :=
  String.ofList (key.toList.map fun c => if c = '-' then '_' else c)

/-- The option that holds the target versions. -/
def targetOption : String := "target_version"

/-- The options of a tool, by their names. -/
structure Options where
  table : Table := []
  deriving Repr

namespace Options

/-- The options that a table gives. Where several keys give one option, the last of them holds. -/
def ofTable (t : Table) : Options :=
  ⟨Table.ofList (t.map fun (key, v) => (optionName key, v))⟩

/-- The value of an option. -/
def get? (o : Options) (name : String) : Option Value := o.table.get? name

/-- The target that a value names. -/
def targetOf (v : Value) : Except Error Target :=
  match v with
  | .text name => Target.parse name
  | v => .error (.invalidTarget v.shown)

/-- The configured targets, ascending, if there are any: one name, or an array of names. The first
value that names no target is the error. -/
def targets (o : Options) : Except Error (Option Targets) :=
  match o.get? targetOption with
  | none => .ok none
  | some v => do
    let values := match v with
      | .array items => items
      | v => [v]
    let found ← values.mapM targetOf
    return some (Targets.ofList found)

/-- The options with the given targets configured. -/
def withTargets (o : Options) (ts : Targets) : Options :=
  ⟨o.table.insert targetOption (.array (ts.map fun t => .text t.name))⟩

/-- Only the target versions change. -/
theorem get?_withTargets (o : Options) (ts : Targets) (name : String) :
    (o.withTargets ts).get? name =
      if name = targetOption then some (.array (ts.map fun t => .text t.name)) else o.get? name :=
  Table.get?_insert _ _ _ _

end Options

end ProjectScope

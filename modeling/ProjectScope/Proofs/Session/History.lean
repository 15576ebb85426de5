import ProjectScope.Session.Discovery

/-!
# Runs

A run performs the operations of a session one after the other on the same caches. In between the
session may be set to another tool or environment, and the disk may change.
-/

namespace ProjectScope

/-- An operation of a session, with what it is asked. -/
inductive Call where
  | resolve (p : Path)
  | relativeTo (root source : Path)
  | document (p : Path)
  | hasTool (p : Path)
  | rawOptions (p : Path)
  | options (p : Path)
  | ignoreSpec (root : Path)
  | userConfig
  | commonBase (sources : List Path) (stdin : Option Path)
  | walk (base : Path)
  | locate (sources : List Path) (stdin : Option Path)
  | findConfig (sources : List Path) (stdin : Option Path)
  deriving DecidableEq, Repr

namespace Call

/-- What an operation answers when it succeeds. -/
abbrev Answer : Call → Type
  | resolve _ => Path
  | relativeTo _ _ => Option Path
  | document _ => Toml.Table
  | hasTool _ => Bool
  | rawOptions _ => Toml.Table
  | options _ => Options
  | ignoreSpec _ => IgnoreSpec
  | userConfig => Path
  | commonBase _ _ => Path
  | walk _ => ProjectRoot
  | locate _ _ => ProjectRoot
  | findConfig _ _ => Option FoundConfig

/-- What a session does when it is called. -/
def action (s : Session) (t : FileTree) : (c : Call) → Action c.Answer
  | resolve p => s.resolve t p
  | relativeTo root source => s.relativeTo t root source
  | document p => s.document t p
  | hasTool p => s.hasTool t p
  | rawOptions p => s.rawOptions t p
  | options p => s.options t p
  | ignoreSpec root => s.ignoreSpec t root
  | userConfig => s.userConfig t
  | commonBase sources stdin => s.commonBase t sources stdin
  | walk base => s.walk t base
  | locate sources stdin => s.locate t sources stdin
  | findConfig sources stdin => s.findConfig t sources stdin

/-- Whether an operation asks for a root by its sources, which may be a remembered one. -/
def asksForRoot : Call → Bool
  | locate _ _ => true
  | findConfig _ _ => true
  | _ => false

end Call

/-- What happens in a run. -/
inductive Step where
  | call (c : Call)
  | forTool (tool : String)
  | forUser (user : UserEnvironment)
  | change (t : FileTree)

/-- Whether the disk stays as it is. -/
def Step.keepsTree : Step → Bool
  | .change _ => false
  | _ => true

/-- Where a run stands: the session as it is set, the disk, and what has been found out. -/
structure Run where
  session : Session
  tree : FileTree
  journal : Journal := {}

namespace Run

/-- What a call answers now, logs aside. -/
def answer (σ : Run) (c : Call) : Except Error c.Answer :=
  ((c.action σ.session σ.tree).run σ.journal).1

/-- The run after a call. -/
def perform (σ : Run) (c : Call) : Run :=
  { σ with journal := ((c.action σ.session σ.tree).run σ.journal).2 }

/-- The run after a step. -/
def step (σ : Run) : Step → Run
  | .call c => σ.perform c
  | .forTool tool => { σ with session := { σ.session with tool } }
  | .forUser user => { σ with session := { σ.session with user } }
  | .change tree => { σ with tree }

/-- The run after some steps. -/
def after (σ : Run) (history : List Step) : Run := history.foldl step σ

/-- The same session on the same disk, with nothing found out yet. -/
def fresh (σ : Run) : Run := { σ with journal := {} }

@[simp] theorem after_nil (σ : Run) : σ.after [] = σ := rfl

@[simp] theorem after_cons (σ : Run) (first : Step) (rest : List Step) :
    σ.after (first :: rest) = (σ.step first).after rest := rfl

end Run

end ProjectScope

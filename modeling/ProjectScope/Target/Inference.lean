import ProjectScope.Log
import ProjectScope.Specifier.Set
import ProjectScope.Target.Basic

/-!
# Inferring targets

A project says in `requires-python` which versions it runs on: either one version or a specifier
set. The inferred targets are the ones that the version belongs to, or that satisfy the set once
it is narrowed to minor versions. A text that is neither infers nothing; that is not an error.
-/

namespace ProjectScope

/-- What a `requires-python` text says. -/
inductive VersionRange where
  | exact (v : Version)
  | specifiers (xs : SpecifierSet)
  deriving DecidableEq, Repr

/-- A result together with the records that were logged on the way. -/
structure Logged (α : Type) where
  value : α
  log : List LogRecord := []

namespace VersionRange

/-- Read a `requires-python` text; a version is tried first. -/
def parse (s : String) : Except Error VersionRange :=
  match Version.parse s with
  | .ok v => .ok (.exact v)
  | .error _ => (SpecifierSet.parse s).map .specifiers

/-- The target that a version belongs to. -/
def exactTarget? (v : Version) : Option Target :=
  if v.major = 3 then v.minor?.bind Target.ofMinor? else none

/-- The targets that satisfy a narrowed set. -/
def admitted (narrowed : SpecifierSet) : Targets :=
  Target.all.filter fun t => narrowed.contains t.version

/-- The first clause whose narrowed form a target does not satisfy, as it was written. -/
def rejecting? (written narrowed : SpecifierSet) (t : Target) : Option Specifier :=
  ((written.clauses.zip narrowed.clauses).find? fun (_, x) => !x.contains t.version).map Prod.fst

/-- The record about a target that a clause rejects. -/
def rejection (t : Target) (x : Specifier) : LogRecord :=
  .debug (t.pretty ++ " rejected by `" ++ x.toText ++ "`")

/-- The records about every target, when none satisfies a set. -/
def rejections (written narrowed : SpecifierSet) : List LogRecord :=
  Target.all.filterMap fun t => (rejecting? written narrowed t).map (rejection t)

/-- The targets in a range, ascending; nothing when there are none. -/
def targets : VersionRange → Logged (Except Error (Option Targets))
  | exact v => { value := .ok ((exactTarget? v).map fun t => [t]) }
  | specifiers written =>
    match written.narrow with
    | .error e => { value := .error e }
    | .ok narrowed =>
      if narrowed.isEmpty then { value := .ok none }
      else if (admitted narrowed).isEmpty then
        { value := .ok none, log := rejections written narrowed }
      else { value := .ok (some (admitted narrowed)) }

end VersionRange

/-- The names of targets as a log record shows them. -/
def Targets.shown (ts : Targets) : String :=
  "[" ++ ", ".intercalate (ts.map fun t => "\"" ++ t.name ++ "\"") ++ "]"

/-- Infer the targets of a project from its `requires-python` text. -/
def inferTargets (requiresPython : String) : Logged (Option Targets) :=
  let quoted := "requires-python `" ++ requiresPython ++ "`"
  match VersionRange.parse requiresPython with
  | .error e => { value := none, log := [.debug ("ignoring " ++ quoted ++ ": " ++ e.message)] }
  | .ok range =>
    let found := range.targets
    match found.value with
    | .ok (some ts) =>
      { value := some ts
        log := found.log ++ [.debug ("inferred targets " ++ ts.shown ++ " from " ++ quoted)] }
    | .ok none =>
      { value := none
        log := found.log ++ [.debug (quoted ++ " admits no supported target")] }
    | .error e =>
      { value := none
        log := found.log ++ [.debug ("ignoring " ++ quoted ++ ": " ++ e.message)] }

end ProjectScope

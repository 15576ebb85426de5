import ProjectScope.Error
import ProjectScope.Version.Printer

/-!
# Target versions

The minor versions of Python that formatted code can be kept valid for, 3.3 to 3.13. Each has a
name such as `py310` and a dotted form such as `3.10`.
-/

namespace ProjectScope

/-- A minor version of Python 3. -/
inductive Target where
  | py33
  | py34
  | py35
  | py36
  | py37
  | py38
  | py39
  | py310
  | py311
  | py312
  | py313
  deriving DecidableEq, Repr

namespace Target

/-- Every target, ascending. -/
def all : List Target :=
  [py33, py34, py35, py36, py37, py38, py39, py310, py311, py312, py313]

/-- The minor number. -/
def minor : Target → UInt64
  | py33 => 3
  | py34 => 4
  | py35 => 5
  | py36 => 6
  | py37 => 7
  | py38 => 8
  | py39 => 9
  | py310 => 10
  | py311 => 11
  | py312 => 12
  | py313 => 13

/-- The target with the given minor number. -/
def ofMinor? (n : UInt64) : Option Target := all.find? (·.minor == n)

/-- The name in a configuration file. -/
def nameChars (t : Target) : List Char := ['p', 'y', '3'] ++ Text.Numeral.digits t.minor

/-- The name in a configuration file, as a string. -/
def name (t : Target) : String := String.ofList t.nameChars

/-- The dotted form. -/
def prettyChars (t : Target) : List Char := ['3', '.'] ++ Text.Numeral.digits t.minor

/-- The dotted form, as a string. -/
def pretty (t : Target) : String := String.ofList t.prettyChars

/-- The target as a final release. -/
def version (t : Target) : Version := .ofRelease [3, t.minor]

/-- The minor number in a name or a dotted form: plain digits without a leading zero. -/
def minorText? (s : List Char) : Option (List Char) :=
  match (['p', 'y', '3'].isPrefixOf? s).orElse fun _ => ['3', '.'].isPrefixOf? s with
  | some m =>
    if m.all Char.isDigit && !m.isEmpty && (m.length == 1 || m.head? != some '0') then some m
    else none
  | none => none

/-- Read a name or a dotted form; blanks around it and the case of its letters do not matter. -/
def ofText? (s : String) : Option Target := do
  let m ← minorText? (Text.lower (Text.trim s.toList))
  let n ← Text.Numeral.number? m
  ofMinor? n

/-- Read a target; the error names the text as it was given. -/
def parse (s : String) : Except Error Target :=
  match ofText? s with
  | some t => .ok t
  | none => .error (.invalidTarget s)

theorem mem_all (t : Target) : t ∈ all := by cases t <;> decide

theorem ofMinor?_minor (t : Target) : ofMinor? t.minor = some t := by cases t <;> decide

end Target

/-- Targets in ascending order, each at most once. -/
abbrev Targets := List Target

/-- The given targets in ascending order. -/
def Targets.ofList (ts : List Target) : Targets := Target.all.filter (ts.contains ·)

@[simp] theorem Targets.mem_ofList {t : Target} {ts : List Target} :
    t ∈ Targets.ofList ts ↔ t ∈ ts := by
  simp [ofList, Target.mem_all]

end ProjectScope

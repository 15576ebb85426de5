import ProjectScope.Text.Blank

/-!
# Log records and verbosity

What the library reports about its decisions is a list of records. Which of them a person gets to
see depends on the verbosity of the run.
-/

namespace ProjectScope

/-- How severe a record is, most severe first. -/
inductive Severity where
  | error
  | warn
  | info
  | debug
  | trace
  deriving DecidableEq, Repr

namespace Severity

/-- The name of a severity in a printed record. -/
def label : Severity → String
  | error => "ERROR"
  | warn => "WARN"
  | info => "INFO"
  | debug => "DEBUG"
  | trace => "TRACE"

/-- The place of a severity, most severe first. -/
def rank : Severity → Nat
  | error => 1
  | warn => 2
  | info => 3
  | debug => 4
  | trace => 5

/-- Every severity, most severe first. -/
def all : List Severity := [error, warn, info, debug, trace]

end Severity

/-- A line of the log. -/
structure LogRecord where
  severity : Severity
  text : String
  deriving DecidableEq, Repr

/-- A record as one line of text. -/
def LogRecord.line (r : LogRecord) : String := r.severity.label ++ ": " ++ r.text

/-- A record about a decision. -/
def LogRecord.debug (text : String) : LogRecord := ⟨.debug, text⟩

/-- How much of the log is shown. -/
inductive Verbosity where
  | quiet
  | normal
  | verbose
  deriving DecidableEq, Repr

namespace Verbosity

/-- The name of a verbosity. -/
def name : Verbosity → String
  | quiet => "quiet"
  | normal => "normal"
  | verbose => "verbose"

/-- The verbosity of the given name, in any case of its letters. No character outside ASCII has a
lower-case form among the letters of these names. -/
def ofName? (s : String) : Option Verbosity :=
  let lowered := String.ofList (Text.lower s.toList)
  [quiet, normal, verbose].find? fun v => v.name == lowered

/-- What is said about an unknown name. -/
def unknownName (s : String) : String := "invalid log level: " ++ s

/-- The least severe records that are shown; nothing when none are. -/
def threshold? : Verbosity → Option Severity
  | quiet => none
  | normal => some .warn
  | verbose => some .debug

/-- The threshold as a word. -/
def thresholdName (v : Verbosity) : String :=
  match v.threshold? with
  | none => "OFF"
  | some s => s.label

/-- Whether records of a severity are shown. -/
def shows (v : Verbosity) (s : Severity) : Bool :=
  match v.threshold? with
  | none => false
  | some t => s.rank ≤ t.rank

/-- The verbosity of a run: the switches win over the environment, `verbose` over `quiet`, and an
unknown name in the environment counts as none. -/
def choose (verbose quiet : Bool) (environment : Option String) : Verbosity :=
  if verbose then .verbose
  else if quiet then .quiet
  else (environment.bind ofName?).getD .normal

end Verbosity

end ProjectScope

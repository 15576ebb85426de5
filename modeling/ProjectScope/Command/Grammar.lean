/-!
# Options and operands

The arguments of a command are options and operands in any order. An option is written `--name`,
`--name value` or `--name=value`, and a switch may have a letter of its own; after `--` everything
is an operand. A value or an operand that starts with a hyphen needs `=` or `--`, unless it is a
single hyphen. The first argument that does not fit, or that asks for help, decides.
-/

namespace ProjectScope.Command

/-- What an option or an operand takes. -/
inductive Kind where
  /-- No value. -/
  | switch
  /-- No value; the usage is shown instead of running the command. -/
  | help
  /-- No value; the version is shown instead of running the command. -/
  | version
  | text
  /-- A text that is not empty. -/
  | path
  | oneOf (choices : List String)
  deriving DecidableEq, Repr

namespace Kind

/-- Whether a value follows. -/
def takesValue : Kind → Bool
  | switch => false
  | help => false
  | version => false
  | _ => true

/-- Whether a value is acceptable. -/
def accepts (v : String) : Kind → Bool
  | path => !v.isEmpty
  | oneOf choices => choices.contains v
  | _ => true

end Kind

/-- An option. -/
structure OptionSpec where
  name : String
  kind : Kind := .switch
  letter : Option Char := none
  deriving Repr

/-- The operands of a command. -/
inductive Operands where
  | none
  | one (kind : Kind)
  | many (kind : Kind)
  deriving Repr

/-- The options and operands of a command. -/
structure Grammar where
  options : List OptionSpec
  operands : Operands := .none
  deriving Repr

/-- Why arguments do not fit. -/
inductive UsageFault where
  | unknownOption (name : String)
  | unknownCommand (name : String)
  | unexpectedOperand (text : String)
  | missingValue (option : String)
  | unneededValue (option : String)
  | invalidValue (text : String)
  | repeated (option : String)
  | missing (what : String)
  | exclusive (what other : String)
  deriving DecidableEq, Repr

/-- The fault in words. -/
def UsageFault.message : UsageFault → String
  | unknownOption name => "unknown option '" ++ name ++ "'"
  | unknownCommand name => "unknown command '" ++ name ++ "'"
  | unexpectedOperand text => "unexpected argument '" ++ text ++ "'"
  | missingValue option => "a value is required for '--" ++ option ++ "'"
  | unneededValue option => "no value is expected for '--" ++ option ++ "'"
  | invalidValue text => "invalid value '" ++ text ++ "'"
  | repeated option => "'--" ++ option ++ "' can be given only once"
  | missing what => "missing " ++ what
  | exclusive what other => what ++ " and " ++ other ++ " exclude each other"

/-- Why reading arguments ends before a command is known. -/
inductive Halt where
  | fault (f : UsageFault)
  | help
  | version
  deriving DecidableEq, Repr

/-- The options and operands that have been given. -/
structure Given where
  switches : List String := []
  values : List (String × String) := []
  operands : List String := []
  deriving Repr

namespace Given

/-- Whether a switch has been given. -/
def has (g : Given) (name : String) : Bool := g.switches.contains name

/-- The value of an option that has been given. -/
def value? (g : Given) (name : String) : Option String := g.values.lookup name

/-- Take an option, with the value that it has been given. -/
def take (g : Given) (o : OptionSpec) (value : Option String) : Except Halt Given :=
  match o.kind, value with
  | .help, none => .error .help
  | .version, none => .error .version
  | .switch, none =>
    if g.has o.name then .error (.fault (.repeated o.name))
    else .ok { g with switches := o.name :: g.switches }
  | kind, some v =>
    if !kind.takesValue then .error (.fault (.unneededValue o.name))
    else if !kind.accepts v then .error (.fault (.invalidValue v))
    else if (g.value? o.name).isSome then .error (.fault (.repeated o.name))
    else .ok { g with values := (o.name, v) :: g.values }
  | _, none => .error (.fault (.missingValue o.name))

/-- Take an operand. -/
def takeOperand (operands : Operands) (g : Given) (v : String) : Except Halt Given :=
  let taken : Given := { g with operands := g.operands ++ [v] }
  match operands with
  | .none => .error (.fault (.unexpectedOperand v))
  | .one kind =>
    if !g.operands.isEmpty then .error (.fault (.unexpectedOperand v))
    else if kind.accepts v then .ok taken
    else .error (.fault (.invalidValue v))
  | .many kind => if kind.accepts v then .ok taken else .error (.fault (.invalidValue v))

end Given

/-- An argument by its form. -/
inductive Argument where
  /-- The mark after which everything is an operand. -/
  | terminator
  | long (name : String) (value : Option String)
  | letters (cs : List Char)
  | operand (text : String)
  deriving Repr

namespace Argument

/-- The form of an argument. -/
def ofText (s : String) : Argument :=
  match s.toList with
  | ['-', '-'] => terminator
  | '-' :: '-' :: r =>
    match r.dropWhile (· != '=') with
    | _ :: v => long (String.ofList (r.takeWhile (· != '='))) (some (String.ofList v))
    | [] => long (String.ofList r) none
  | '-' :: c :: r => letters (c :: r)
  | _ => operand s

/-- Whether an argument can be the value of the option before it. -/
def isOperand (s : String) : Bool :=
  match ofText s with
  | operand _ => true
  | _ => false

end Argument

namespace Grammar

/-- Take the switches of some letters. -/
def takeLetters (grammar : Grammar) (g : Given) (cs : List Char) : Except Halt Given :=
  cs.foldlM (fun g c =>
    match grammar.options.find? (·.letter == some c) with
    | some o => g.take o none
    | none => .error (.fault (.unknownOption (String.ofList ['-', c])))) g

/-- Read arguments, up to the first operand if the grammar has none; what is left starts with it. -/
def read (grammar : Grammar) (g : Given) : List String → Except Halt (Given × List String)
  | [] => .ok (g, [])
  | s :: rest => do
    match Argument.ofText s with
    | .terminator => return (← rest.foldlM (Given.takeOperand grammar.operands) g, [])
    | .letters cs => read grammar (← grammar.takeLetters g cs) rest
    | .operand v =>
      match grammar.operands with
      | .none => return (g, s :: rest)
      | operands => read grammar (← g.takeOperand operands v) rest
    | .long name value =>
      match grammar.options.find? (·.name == name) with
      | none => throw (.fault (.unknownOption s))
      | some o =>
        if o.kind.takesValue && value.isNone then
          match rest with
          | [] => throw (.fault (.missingValue name))
          | v :: rest =>
            if Argument.isOperand v then read grammar (← g.take o (some v)) rest
            else throw (.fault (.missingValue name))
        else read grammar (← g.take o value) rest

/-- Read all arguments. -/
def readAll (grammar : Grammar) (args : List String) : Except Halt Given := do
  let (g, rest) ← grammar.read {} args
  match rest with
  | [] => return g
  | s :: _ => throw (.fault (.unexpectedOperand s))

end Grammar

end ProjectScope.Command

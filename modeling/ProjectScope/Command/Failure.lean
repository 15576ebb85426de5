import ProjectScope.Error

/-!
# Failures of a command

How a command ends when it does not succeed: the message on standard error and the exit code.
-/

namespace ProjectScope.Command

/-- Why a command fails. -/
inductive Failure where
  | library (e : Error)
  | invalidArguments (message : String)
  | io (message : String)
  | config (message : String)
  /-- The command ran, and the answer is no. -/
  | negative (message : String)
  deriving DecidableEq, Repr

namespace Failure

/-- The failure in words. -/
def message : Failure → String
  | library e => e.message
  | invalidArguments m => "Invalid arguments: " ++ m
  | io m => "I/O error: " ++ m
  | config m => "Configuration error: " ++ m
  | negative m => m

/-- The exit code: 1 for a negative answer, 4 for bad arguments, 5 for the disk, 7 for a missing or
malformed file and 6 for the rest. -/
def exitCode : Failure → Nat
  | negative _ => 1
  | library (.configNotFound _) => 7
  | library (.invalidDocument _ _) => 7
  | library (.invalidIgnoreFile _ _ _) => 7
  | library (.io _ _) => 5
  | library (.permissionDenied _) => 5
  | library (.invalidTarget _) => 4
  | library _ => 6
  | invalidArguments _ => 4
  | io _ => 5
  | config _ => 7

end Failure

end ProjectScope.Command

import ProjectScope.Path.Basic

/-!
# Errors

What can go wrong: malformed input and failures of the disk. The absence of something optional (an
ignore file, a section, a marker) is never an error.
-/

namespace ProjectScope

/-- The kinds of failure that the disk reports. -/
inductive IoKind where
  | notFound
  | permissionDenied
  | notADirectory
  | isADirectory
  | tooManyLinks
  | nameTooLong
  | invalidInput
  | invalidData
  | other
  deriving DecidableEq, Repr

/-- A failure of the disk, with the words of the system. -/
structure IoError where
  kind : IoKind
  message : String
  deriving DecidableEq, Repr

namespace IoError

def notFound : IoError := ⟨.notFound, "No such file or directory (os error 2)"⟩

def notADirectory : IoError := ⟨.notADirectory, "Not a directory (os error 20)"⟩

def isADirectory : IoError := ⟨.isADirectory, "Is a directory (os error 21)"⟩

def nameTooLong : IoError := ⟨.nameTooLong, "File name too long (os error 36)"⟩

def tooManyLinks : IoError := ⟨.tooManyLinks, "Too many levels of symbolic links (os error 40)"⟩

def nulInName : IoError := ⟨.invalidInput, "file name contained an unexpected NUL byte"⟩

def notUtf8 : IoError := ⟨.invalidData, "stream did not contain valid UTF-8"⟩

end IoError

/-- What can go wrong. -/
inductive Error where
  | invalidPath (path : Path) (reason : String)
  | pathNotFound (path : Path)
  | permissionDenied (path : Path)
  | io (path : Path) (cause : IoError)
  | configNotFound (path : Path)
  | invalidDocument (path : Path) (reason : String)
  | invalidVersion (input reason : String)
  | invalidSpecifier (input reason : String)
  | invalidTarget (name : String)
  | invalidIgnoreFile (path : Path) (line : Nat) (reason : String)
  | homeUnknown
  deriving DecidableEq, Repr

namespace Error

/-- The error in words. -/
def message : Error → String
  | invalidPath path reason => "invalid path " ++ path.text ++ ": " ++ reason
  | pathNotFound path => "path not found: " ++ path.text
  | permissionDenied path => "permission denied: " ++ path.text
  | io path cause => "I/O error on " ++ path.text ++ ": " ++ cause.message
  | configNotFound path => "configuration file not found: " ++ path.text
  | invalidDocument path reason => "could not parse " ++ path.text ++ ": " ++ reason
  | invalidVersion input reason => "invalid version '" ++ input ++ "': " ++ reason
  | invalidSpecifier input reason => "invalid specifier '" ++ input ++ "': " ++ reason
  | invalidTarget name => "unknown target version '" ++ name ++ "'"
  | invalidIgnoreFile path line reason =>
    "could not parse " ++ path.text ++ " (line " ++ toString line ++ "): " ++ reason
  | homeUnknown => "cannot determine home directory"

/-- Whether the error says that something does not exist. -/
def isNotFound : Error → Bool
  | pathNotFound _ => true
  | configNotFound _ => true
  | io _ cause => cause.kind == .notFound
  | _ => false

/-- Whether the error says that access was refused. -/
def isPermissionDenied : Error → Bool
  | permissionDenied _ => true
  | _ => false

/-- Whether a version or a specifier could not be read. -/
def isVersionSyntax : Error → Bool
  | invalidVersion _ _ => true
  | invalidSpecifier _ _ => true
  | _ => false

/-- A failure of the disk on a path; absence and refusal keep errors of their own. -/
def ofIo (path : Path) (cause : IoError) : Error :=
  match cause.kind with
  | .notFound => pathNotFound path
  | .permissionDenied => permissionDenied path
  | _ => io path cause

/-- What is not absent is refused, or a failure that the error reports as it is. -/
theorem ofIo_of_ne_notFound {cause : IoError} (path : Path) (h : cause.kind ≠ .notFound) :
    ofIo path cause =
      if cause.kind = .permissionDenied then permissionDenied path else io path cause := by
  unfold ofIo
  split
  · contradiction
  · rename_i hkind
    rw [if_pos hkind]
  · rename_i hkind
    rw [if_neg hkind]

end Error

end ProjectScope

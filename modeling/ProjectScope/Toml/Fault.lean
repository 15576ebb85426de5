/-!
# Faults of a document

Why a text is no document.
-/

namespace ProjectScope.Toml

/-- Why a text is no document. -/
inductive Fault where
  | expected (what : String)
  | unclosedText
  | controlCharacter
  | invalidEscape
  | outOfRange (number : String)
  | duplicateKey (key : String)
  | notATable (key : String)
  | tooDeep
  deriving DecidableEq, Repr

/-- The fault in words. -/
def Fault.message : Fault → String
  | expected what => "expected " ++ what
  | unclosedText => "text is not closed"
  | controlCharacter => "control character in text"
  | invalidEscape => "invalid escape"
  | outOfRange number => "number out of range: " ++ number
  | duplicateKey key => "duplicate key '" ++ key ++ "'"
  | notATable key => "'" ++ key ++ "' is no table that can be extended"
  | tooDeep => "nested too deeply"

end ProjectScope.Toml

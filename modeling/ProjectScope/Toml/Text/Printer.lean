import ProjectScope.Toml.Key

/-!
# Writing texts and keys

Each text is written in the plainest spelling that needs no escapes: between double marks, between
single marks, or between three of either. Only where none of them will do are characters escaped.
-/

namespace ProjectScope.Toml

/-- How a text is spelled: within a line or over several, and between which marks. -/
inductive Spelling where
  | short (q : Quote)
  | long (q : Quote)
  deriving DecidableEq, Repr

/-- The length of the longest run of a character. -/
def longestRun (c : Char) (s : List Char) : Nat :=
  (s.foldl (fun (longest, run) d =>
    let run := if d = c then run + 1 else 0
    (max longest run, run)) (0, 0)).1

/-- Whether a character can only be written as an escape, whatever the spelling. -/
def needsEscape (c : Char) : Bool := (c < ' ' && c != '\t' && c != '\n') || c == '\x7f'

namespace Spelling

/-- Whether a text can be spelled so without an escape, and without ending too early. -/
def suits (s : List Char) : Spelling → Bool
  | short .basic =>
    !s.any needsEscape && !s.contains '\\' && !s.contains '"' && !s.contains '\n'
  | short .literal => !s.any needsEscape && !s.contains '\'' && !s.contains '\n'
  | long .basic => !s.any needsEscape && !s.contains '\\' && longestRun '"' s ≤ 2
  | long .literal => !s.any needsEscape && longestRun '\'' s ≤ 2

/-- The spelling of a value: the first that suits, or one with escapes. -/
def ofValue (s : List Char) : Spelling :=
  [short .basic, short .literal, long .basic, long .literal].find? (suits s)
    |>.getD (if s.contains '\n' then long .basic else short .basic)

/-- The spelling of a key, which stays within its line. -/
def ofKey (s : List Char) : Spelling :=
  [short .basic, short .literal].find? (suits s) |>.getD (short .basic)

end Spelling

/-- A hexadecimal digit, in upper case. -/
def hexDigit (n : Nat) : Char :=
  if n < 10 then Char.ofNat ('0'.toNat + n) else Char.ofNat ('A'.toNat + n - 10)

/-- The escape of a character. -/
def escapeOf (c : Char) : List Char :=
  if c = '\x08' then ['\\', 'b']
  else if c = '\t' then ['\\', 't']
  else if c = '\n' then ['\\', 'n']
  else if c = '\x0c' then ['\\', 'f']
  else if c = '\r' then ['\\', 'r']
  else if c = '"' then ['\\', '"']
  else if c = '\\' then ['\\', '\\']
  else ['\\', 'u', '0', '0', hexDigit (c.toNat / 16 % 16), hexDigit (c.toNat % 16)]

/-- A text between double marks, of which `marks` stand at each end. A line feed stays where three
do, and so do up to two marks in a row; `run` counts the marks just written. -/
def escaped (marks : Nat) (run : Nat) : List Char → List Char
  | [] => []
  | c :: r =>
    if c = '"' then
      if run + 1 < marks then c :: escaped marks (run + 1) r
      else escapeOf c ++ escaped marks 0 r
    else if c = '\n' && marks = 3 then c :: escaped marks 0 r
    else if c < ' ' || c = '\\' || c = '\x7f' then escapeOf c ++ escaped marks 0 r
    else c :: escaped marks 0 r

/-- A text in the given spelling. Over several lines it starts on a line of its own. -/
def spell (s : List Char) : Spelling → List Char
  | .short .basic => '"' :: escaped 1 0 s ++ ['"']
  | .short .literal => '\'' :: s ++ ['\'']
  | .long q =>
    let marks := List.replicate 3 q.mark
    let written := if q = .basic then escaped 3 0 s else s
    marks ++ (if s.contains '\n' then ['\n'] else []) ++ written ++ marks

/-- A text as a value. -/
def quoteValue (s : String) : String :=
  String.ofList (spell s.toList (.ofValue s.toList))

/-- A part of a key: bare where it can be. -/
def quoteKey (s : String) : String :=
  let cs := s.toList
  if !cs.isEmpty && cs.all isBareKeyChar then s else String.ofList (spell cs (.ofKey cs))

end ProjectScope.Toml

import ProjectScope.Toml.Fault

/-!
# Blanks, comments and ends of lines

What may stand between the parts of a document. A line ends with a line feed, which a carriage
return may precede; a carriage return alone ends nothing.
-/

namespace ProjectScope.Toml

/-- The blanks within a line. -/
def isLineBlank (c : Char) : Bool := c == ' ' || c == '\t'

/-- The characters that comments and quoted texts may hold: all but the control characters, of
which only the tab is allowed. -/
def isPlain (c : Char) : Bool := c == '\t' || (' ' ≤ c && c != '\x7f')

/-- Drop the blanks at the start. -/
def skipBlanks (s : List Char) : List Char := s.dropWhile isLineBlank

/-- What follows an end of line, if one stands here. -/
def afterNewline? : List Char → Option (List Char)
  | '\n' :: r => some r
  | '\r' :: '\n' :: r => some r
  | _ => none

/-- Drop a comment, if one stands here. -/
def skipComment : List Char → List Char
  | '#' :: r => r.dropWhile isPlain
  | s => s

/-- Go over blanks and a comment to the start of the next line, or to the end of the text. -/
def readLineEnd (s : List Char) : Except Fault (List Char) :=
  let rest := skipComment (skipBlanks s)
  match rest, afterNewline? rest with
  | [], _ => .ok []
  | _, some r => .ok r
  | _, none => .error (.expected "an end of line")

theorem length_skipBlanks_le (s : List Char) : (skipBlanks s).length ≤ s.length :=
  (List.dropWhile_sublist _).length_le

theorem length_skipComment_le (s : List Char) : (skipComment s).length ≤ s.length := by
  unfold skipComment
  split
  · have := (List.dropWhile_sublist (l := ‹List Char›) isPlain).length_le
    simp only [List.length_cons]
    omega
  · exact Nat.le_refl _

theorem length_afterNewline?_lt {s r : List Char} (h : afterNewline? s = some r) :
    r.length < s.length := by
  unfold afterNewline? at h
  split at h
  · cases h
    exact Nat.lt_succ_self _
  · cases h
    exact Nat.lt_succ_of_lt (Nat.lt_succ_self _)
  · cases h

/-- Go over blanks, comments and ends of lines. -/
def skipLines (s : List Char) : List Char :=
  match _h : afterNewline? (skipComment (skipBlanks s)) with
  | some r => skipLines r
  | none => skipBlanks s
termination_by s.length
decreasing_by
  have := length_afterNewline?_lt _h
  have := length_skipComment_le (skipBlanks s)
  have := length_skipBlanks_le s
  omega

/-- Go over blanks and ends of lines. -/
def skipFolded (s : List Char) : List Char :=
  match s with
  | ' ' :: r => skipFolded r
  | '\t' :: r => skipFolded r
  | '\n' :: r => skipFolded r
  | '\r' :: '\n' :: r => skipFolded r
  | s => s

theorem length_skipFolded_le (s : List Char) : (skipFolded s).length ≤ s.length := by
  fun_induction skipFolded s <;> simp <;> omega

end ProjectScope.Toml

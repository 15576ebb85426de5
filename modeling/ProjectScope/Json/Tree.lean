/-!
# JSON text

Trees of JSON values and the text of a tree over several lines, indented by two blanks a level.
-/

namespace ProjectScope.Json

/-- A JSON value. A scalar holds its own text: a number, a truth value or `null`. -/
inductive Tree where
  | scalar (written : String)
  | text (s : String)
  | list (items : List Tree)
  | record (fields : List (String × Tree))

/-- A hexadecimal digit, in lower case. -/
def hexDigit (n : Nat) : Char :=
  if n < 10 then Char.ofNat ('0'.toNat + n) else Char.ofNat ('a'.toNat + n - 10)

/-- A character within quotes. -/
def escape (c : Char) : List Char :=
  if c = '"' then ['\\', '"']
  else if c = '\\' then ['\\', '\\']
  else if c = '\x08' then ['\\', 'b']
  else if c = '\t' then ['\\', 't']
  else if c = '\n' then ['\\', 'n']
  else if c = '\x0c' then ['\\', 'f']
  else if c = '\r' then ['\\', 'r']
  else if c < ' ' then ['\\', 'u', '0', '0', hexDigit (c.toNat / 16), hexDigit (c.toNat % 16)]
  else [c]

/-- A text within quotes. -/
def quote (s : String) : String := String.ofList ('"' :: s.toList.flatMap escape ++ ['"'])

/-- Written values between two brackets, one a line; nothing stands between them when there is no
value. -/
def enclose (opening closing : String) (depth : Nat) (items : List String) : String :=
  let indent (n : Nat) := String.ofList (List.replicate (2 * n) ' ')
  if items.isEmpty then opening ++ closing
  else opening ++ "\n" ++ ",\n".intercalate (items.map (indent (depth + 1) ++ ·)) ++ "\n" ++
    indent depth ++ closing

mutual

/-- A tree as text, at the given depth within another one. -/
def Tree.write (depth : Nat) : Tree → String
  | .scalar written => written
  | .text s => quote s
  | .list items => enclose "[" "]" depth (writeItems depth items)
  | .record fields => enclose "\x7b" "\x7d" depth (writeFields depth fields)

/-- The items of a list as texts. -/
def writeItems (depth : Nat) : List Tree → List String
  | [] => []
  | t :: rest => t.write (depth + 1) :: writeItems depth rest

/-- The fields of a record as texts. -/
def writeFields (depth : Nat) : List (String × Tree) → List String
  | [] => []
  | (name, t) :: rest => (quote name ++ ": " ++ t.write (depth + 1)) :: writeFields depth rest

end

/-- A tree as a text of its own. -/
def Tree.toText (t : Tree) : String := t.write 0

end ProjectScope.Json

import ProjectScope.Toml.Layout

/-!
# Reading quoted texts

A text stands between marks: double ones, which let a backslash escape characters, or single ones,
which take every character as it is. Three marks at each end make a text that runs over several
lines; it may end in up to two marks of its own, a line feed right after the opening marks is no
part of it, and every end of line in it is read as a line feed.
-/

namespace ProjectScope.Toml

/-- How a text is quoted. -/
inductive Quote where
  /-- Between double marks, with escapes. -/
  | basic
  /-- Between single marks, without escapes. -/
  | literal
  deriving DecidableEq, Repr

namespace Quote

/-- The mark at both ends of a text. -/
def mark : Quote → Char
  | basic => '"'
  | literal => '\''

end Quote

/-- The value of a hexadecimal digit. -/
def hexDigit? (c : Char) : Option Nat :=
  if c.isDigit then some (c.toNat - '0'.toNat)
  else if 'a' ≤ c && c ≤ 'f' then some (c.toNat - 'a'.toNat + 10)
  else if 'A' ≤ c && c ≤ 'F' then some (c.toNat - 'A'.toNat + 10)
  else none

/-- The number that hexadecimal digits denote. -/
def ofHexDigits? (ds : List Char) : Option Nat :=
  ds.foldl (fun n d => do return 16 * (← n) + (← hexDigit? d)) (some 0)

/-- The character of the given code, which must be no surrogate. -/
def charOfHex? (ds : List Char) : Option Char := do
  let n ← ofHexDigits? ds
  if n.isValidChar then some (Char.ofNat n) else none

/-- The character that an escape stands for, read after its backslash. -/
def readEscape : List Char → Except Fault (Char × List Char)
  | 'b' :: r => .ok ('\x08', r)
  | 't' :: r => .ok ('\t', r)
  | 'n' :: r => .ok ('\n', r)
  | 'f' :: r => .ok ('\x0c', r)
  | 'r' :: r => .ok ('\r', r)
  | '"' :: r => .ok ('"', r)
  | '\\' :: r => .ok ('\\', r)
  | 'u' :: a :: b :: c :: d :: r => code [a, b, c, d] r
  | 'U' :: a :: b :: c :: d :: e :: f :: g :: h :: r => code [a, b, c, d, e, f, g, h] r
  | _ => .error .invalidEscape
where
  /-- The character of a code. -/
  code (digits r : List Char) : Except Fault (Char × List Char) :=
    match charOfHex? digits with
    | some c => .ok (c, r)
    | none => .error .invalidEscape

theorem rest_of_code {digits r rest : List Char} {c : Char}
    (h : readEscape.code digits r = .ok (c, rest)) : rest = r := by
  unfold readEscape.code at h
  split at h <;> simp_all

theorem length_readEscape_lt {s r : List Char} {c : Char} (h : readEscape s = .ok (c, r)) :
    r.length < s.length := by
  unfold readEscape at h
  split at h
  all_goals first
    | (obtain rfl := rest_of_code h
       simp only [List.length_cons]
       omega)
    | (simp at h; obtain ⟨-, rfl⟩ := h; simp)
    | simp at h

/-- What follows a backslash at the end of a line: the text after the blanks and ends of lines. -/
def afterFold? (s : List Char) : Option (List Char) :=
  (afterNewline? (skipBlanks s)).map skipFolded

theorem length_afterFold?_lt {s r : List Char} (h : afterFold? s = some r) :
    r.length < s.length := by
  obtain ⟨t, ht, rfl⟩ := Option.map_eq_some_iff.1 h
  have := length_afterNewline?_lt ht
  have := length_skipBlanks_le s
  have := length_skipFolded_le t
  omega

/-- Read a text within a line, after its opening mark. -/
def readShort (q : Quote) (s : List Char) : Except Fault (List Char × List Char) :=
  match s with
  | [] => .error .unclosedText
  | c :: r =>
    if c = q.mark then .ok ([], r)
    else if q = .basic && c = '\\' then
      match _h : readEscape r with
      | .ok (c, r) => do
        let (cs, rest) ← readShort q r
        return (c :: cs, rest)
      | .error fault => .error fault
    else if isPlain c then do
      let (cs, rest) ← readShort q r
      return (c :: cs, rest)
    else .error .controlCharacter
termination_by s.length
decreasing_by
  · have := length_readEscape_lt _h
    simp only [List.length_cons]
    omega
  · simp

/-- The closing marks of a text over several lines: up to two marks before them belong to the
text. -/
def closing? (q : Quote) : List Char → Option (List Char × List Char)
  | a :: b :: c :: r =>
    if a = q.mark && b = q.mark && c = q.mark then
      let own := (r.take 2).takeWhile (· = q.mark)
      some (own, r.drop own.length)
    else none
  | _ => none

/-- Read a text over several lines, after its opening marks. -/
def readLong (q : Quote) (s : List Char) : Except Fault (List Char × List Char) :=
  match closing? q s with
  | some closed => .ok closed
  | none =>
    match _h₁ : afterNewline? s with
    | some r => do
      let (cs, rest) ← readLong q r
      return ('\n' :: cs, rest)
    | none =>
      match s with
      | [] => .error .unclosedText
      | c :: r =>
        if q = .basic && c = '\\' then
          match _h₂ : afterFold? r with
          | some r => readLong q r
          | none =>
            match _h₃ : readEscape r with
            | .ok (c, r) => do
              let (cs, rest) ← readLong q r
              return (c :: cs, rest)
            | .error fault => .error fault
        else if isPlain c then do
          let (cs, rest) ← readLong q r
          return (c :: cs, rest)
        else .error .controlCharacter
termination_by s.length
decreasing_by
  · exact length_afterNewline?_lt _h₁
  · have := length_afterFold?_lt _h₂
    simp only [List.length_cons]
    omega
  · have := length_readEscape_lt _h₃
    simp only [List.length_cons]
    omega
  · simp

/-- Read a text within a line, if one stands here. -/
def readShort? : List Char → Option (Except Fault (List Char × List Char))
  | '"' :: r => some (readShort .basic r)
  | '\'' :: r => some (readShort .literal r)
  | _ => none

/-- Read a text of either kind, if one stands here. -/
def readText? : List Char → Option (Except Fault (List Char × List Char))
  | '"' :: '"' :: '"' :: r => some (readLong .basic ((afterNewline? r).getD r))
  | '\'' :: '\'' :: '\'' :: r => some (readLong .literal ((afterNewline? r).getD r))
  | s => readShort? s

end ProjectScope.Toml

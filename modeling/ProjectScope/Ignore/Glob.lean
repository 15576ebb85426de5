import ProjectScope.Text.Blank

/-!
# Globs

A glob is a list of tokens, and a path is matched as its bytes in UTF-8. Matching carries along,
for every position of the path, whether the tokens so far can end there; each token turns one such
row into the next. So a glob is matched in time proportional to its size and that of the path,
whatever its stars and groups.
-/

namespace ProjectScope

/-- A piece of a glob. -/
inductive Token where
  | literal (c : Char)
  /-- `?`: one byte other than a slash. -/
  | any
  /-- `*`: any run of bytes other than slashes. -/
  | star
  /-- `**/` at the start: no directory or more. -/
  | leadingDirectories
  /-- `/**/`: one slash, or directories between two. -/
  | innerDirectories
  /-- `/**` at the end: everything below. -/
  | everythingBelow
  /-- `[...]`: one byte from the ranges, or one outside them. -/
  | oneOf (negated : Bool) (ranges : List (Char × Char))
  /-- A group in braces: one of the alternatives. -/
  | group (branches : List (List Token))
  deriving Repr

/-- A glob. -/
abbrev Glob := List Token

namespace Glob

/-- The byte of a slash. -/
def slash : UInt8 := 0x2F

/-- The bytes of a character in UTF-8. -/
def bytesOf (c : Char) : List UInt8 := String.utf8EncodeChar c

/-- The bytes of a text in UTF-8. -/
def bytes (s : List Char) : List UInt8 := s.flatMap bytesOf

/-- Whether a byte lies in a range of characters. The range is read byte by byte: the bytes of `lo`
but the last, the range from that one to the first byte of `hi`, and the other bytes of `hi`. -/
def inRange (b : UInt8) (lo hi : Char) : Bool :=
  let los := bytesOf lo
  let his := bytesOf hi
  if lo = hi then los.contains b
  else los.dropLast.contains b || his.tail.contains b ||
    (los.getLast?.all (· ≤ b) && his.head?.all (b ≤ ·))

/-- Whether a byte belongs to a class. -/
def inClass (negated : Bool) (ranges : List (Char × Char)) (b : UInt8) : Bool :=
  (ranges.any fun (lo, hi) => inRange b lo hi) != negated

/-- For each position of a text, from the first to the one after its end, whether a match can end
there. -/
abbrev Row := List Bool

/-- Go one byte further wherever the byte satisfies `p`. -/
def advance (p : UInt8 → Bool) (s : List UInt8) (row : Row) : Row :=
  false :: List.zipWith (fun ok b => ok && p b) row s

/-- Go any number of bytes further, over bytes that satisfy `p`. -/
def spread (p : UInt8 → Bool) (reached : Bool) : List UInt8 → Row → Row
  | b :: s, ok :: row => (ok || reached) :: spread p ((ok || reached) && p b) s row
  | [], ok :: _ => [ok || reached]
  | _, [] => []

/-- The positions that one of two rows reaches. -/
def union (r r' : Row) : Row := List.zipWith (· || ·) r r'

/-- Go over some bytes that end in a slash. -/
def throughSlash (s : List UInt8) (row : Row) : Row :=
  advance (· == slash) s (spread (fun _ => true) false s row)

mutual

/-- Whether a token is a group that has no alternative to offer; it matches the empty text. -/
def isVoidToken : Token → Bool
  | .group branches => areVoid branches
  | _ => false

/-- Whether every token is void, as in the empty glob. -/
def isVoid : List Token → Bool
  | [] => true
  | t :: ts => isVoidToken t && isVoid ts

/-- Whether every branch is void. -/
def areVoid : List (List Token) → Bool
  | [] => true
  | ts :: branches => isVoid ts && areVoid branches

end

mutual

/-- The positions reached after a token, from those reached before it. -/
def reachToken (s : List UInt8) (row : Row) : Token → Row
  | .literal c => (bytesOf c).foldl (fun row b => advance (· == b) s row) row
  | .any => advance (· != slash) s row
  | .star => spread (· != slash) false s row
  | .leadingDirectories => union row (throughSlash s row)
  | .innerDirectories =>
    let once := advance (· == slash) s row
    union once (throughSlash s once)
  | .everythingBelow => spread (fun _ => true) false s (advance (· == slash) s row)
  | .oneOf negated ranges => advance (inClass negated ranges) s row
  | .group branches => if areVoid branches then row else reachBranches s row branches

/-- The positions reached after some tokens. -/
def reach (s : List UInt8) (row : Row) : List Token → Row
  | [] => row
  | t :: ts => reach s (reachToken s row t) ts

/-- The positions reached after one of the branches; void branches offer nothing. -/
def reachBranches (s : List UInt8) (row : Row) : List (List Token) → Row
  | [] => row.map fun _ => false
  | ts :: branches =>
    if isVoid ts then reachBranches s row branches
    else union (reach s row ts) (reachBranches s row branches)

end

/-- The token as a character that stands for itself. -/
def literal? : Token → Option Char
  | .literal c => some c
  | _ => none

/-- Whether the tokens end in a dot and characters after it, with no slash among them. -/
def endsInExtension (g : Glob) : Bool :=
  let tail := (g.reverse.map literal?).takeWhile fun
    | some c => c != '/' && c != '.'
    | none => false
  match g.reverse[tail.length]? with
  | some (.literal '.') => true
  | _ => false

/-- Whether a glob is about the base name of a path: a literal base name, or an extension. A glob
of literals alone is compared with the whole path. -/
def isAboutName (g : Glob) : Bool :=
  match g with
  | .leadingDirectories :: rest =>
    if (rest.map literal?).all Option.isSome then
      !rest.isEmpty && !(rest.map literal?).contains (some '/')
    else endsInExtension g
  | _ => !(g.map literal?).all Option.isSome && endsInExtension g

/-- Whether the last component of a path is `..`, which is no base name. -/
def lacksName (s : List UInt8) : Bool :=
  (s.reverse.takeWhile (· != slash)) == [0x2E, 0x2E]

/-- Whether a glob matches the whole of a path. The glob `**` alone matches everything. -/
def matchesBytes (g : Glob) (s : List UInt8) : Bool :=
  match g with
  | [.leadingDirectories] => true
  | g =>
    if isAboutName g && lacksName s then false
    else (reach s (true :: s.map fun _ => false) g).getLast?.getD false

end Glob

end ProjectScope

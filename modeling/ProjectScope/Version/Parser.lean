import ProjectScope.Error
import ProjectScope.Version.Basic

/-!
# Reading versions

A version is read from left to right after trimming and lowering. Each reader takes the text that
is left, consumes as much as its part of the grammar allows and returns the rest:

    v? (N!)? N(.N)* pre? post? dev? (+local)?

where a suffix may stand after one of the separators `-`, `_` and `.`, and its number may be
left out. A number takes a separator before it only when a digit follows, so that in `1.0a.post1`
the dot is left for the post-release.
-/

namespace ProjectScope

/-- Why a text is not a version. -/
inductive VersionFault where
  | empty
  | noRelease
  | noReleaseAfterEpoch
  | tooLarge (digits : String)
  | unexpectedText (offset : Nat)
  | emptyLocalSegment
  deriving DecidableEq, Repr

/-- The fault in words. -/
def VersionFault.message : VersionFault → String
  | empty => "empty version"
  | noRelease => "expected a release number"
  | noReleaseAfterEpoch => "expected a release number after epoch"
  | tooLarge digits => "number '" ++ digits ++ "' is too large"
  | unexpectedText offset => "unexpected text at offset " ++ toString offset
  | emptyLocalSegment => "empty local version segment"

namespace Version

/-- The characters that may stand before a suffix. -/
def isSeparator (c : Char) : Bool := c == '-' || c == '_' || c == '.'

/-- The characters of a local label. -/
def isLabelChar (c : Char) : Bool := ('a' ≤ c && c ≤ 'z') || c.isDigit

/-- Drop one separator, if there is one. -/
def skipSeparator : List Char → List Char
  | c :: r => if isSeparator c then r else c :: r
  | [] => []

/-- Drop one separator, if there is one and a digit follows it. -/
def skipSeparatorBeforeDigit : List Char → List Char
  | c :: d :: r => if isSeparator c && d.isDigit then d :: r else c :: d :: r
  | s => s

/-- Read a number, if one stands here. -/
def readNumber? (s : List Char) : Except VersionFault (Option UInt64 × List Char) :=
  let digits := s.takeWhile Char.isDigit
  if digits.isEmpty then .ok (none, s)
  else match Text.Numeral.number? digits with
    | some n => .ok (some n, s.dropWhile Char.isDigit)
    | none => .error (.tooLarge (String.ofList digits))

/-- Read the number of a suffix; a missing one is zero. -/
def readSuffixNumber (s : List Char) : Except VersionFault (UInt64 × List Char) := do
  let (n, rest) ← readNumber? (skipSeparatorBeforeDigit s)
  return (n.getD 0, rest)

theorem length_dropWhile_le (p : Char → Bool) (s : List Char) :
    (s.dropWhile p).length ≤ s.length :=
  (List.dropWhile_sublist p).length_le

/-- Read the release segments after the first; a dot that no number follows is left. -/
def readSegments (s : List Char) : Except VersionFault (List UInt64 × List Char) :=
  match s with
  | '.' :: r =>
    let digits := r.takeWhile Char.isDigit
    if digits.isEmpty then .ok ([], s)
    else match Text.Numeral.number? digits with
      | some n => do
        let (ns, rest) ← readSegments (r.dropWhile Char.isDigit)
        return (n :: ns, rest)
      | none => .error (.tooLarge (String.ofList digits))
  | _ => .ok ([], s)
termination_by s.length
decreasing_by
  have := length_dropWhile_le Char.isDigit r
  simp only [List.length_cons]
  omega

/-- The first of the words that the text starts with, by its meaning, and the rest. -/
def word? {α : Type} (words : List (String × α)) (s : List Char) : Option (α × List Char) :=
  words.findSome? fun (w, meaning) => (w.toList.isPrefixOf? s).map (meaning, ·)

/-- The spellings of the phases; of two that start alike the longer one comes first. -/
def phaseWords : List (String × Phase) :=
  [("alpha", .alpha), ("a", .alpha), ("beta", .beta), ("b", .beta), ("preview", .candidate),
    ("pre", .candidate), ("rc", .candidate), ("c", .candidate)]

/-- The spellings of a post-release. -/
def postWords : List (String × Unit) := [("post", ()), ("rev", ()), ("r", ())]

/-- The spelling of a development release. -/
def devWords : List (String × Unit) := [("dev", ())]

/-- Read a suffix that starts with one of the given words. -/
def readSuffix? {α : Type} (words : List (String × α)) (s : List Char) :
    Except VersionFault (Option (α × UInt64) × List Char) :=
  match word? words (skipSeparator s) with
  | none => .ok (none, s)
  | some (meaning, r) => do
    let (n, rest) ← readSuffixNumber r
    return (some (meaning, n), rest)

/-- Read a pre-release suffix, if one stands here. -/
def readPre? (s : List Char) : Except VersionFault (Option (Phase × UInt64) × List Char) :=
  readSuffix? phaseWords s

/-- Read a post-release suffix: a hyphen and a number, or one of the words. -/
def readPost? (s : List Char) : Except VersionFault (Option UInt64 × List Char) := do
  let byWord : Except VersionFault (Option UInt64 × List Char) := do
    let (found, rest) ← readSuffix? postWords s
    return (found.map Prod.snd, rest)
  match s with
  | '-' :: r =>
    match ← readNumber? r with
    | (some n, rest) => return (some n, rest)
    | (none, _) => byWord
  | _ => byWord

/-- Read a development-release suffix, if one stands here. -/
def readDev? (s : List Char) : Except VersionFault (Option UInt64 × List Char) := do
  let (found, rest) ← readSuffix? devWords s
  return (found.map Prod.snd, rest)

/-- The part of a local label that a run of letters and digits is. -/
def labelPartOf (run : List Char) : LocalPart :=
  match Text.Numeral.number? run with
  | some n => if run.all Char.isDigit then .number n else .text (String.ofList run)
  | none => .text (String.ofList run)

/-- Read the parts of a local label; each has at least one character. -/
def readLabelParts (s : List Char) : Except VersionFault (List LocalPart × List Char) :=
  let run := s.takeWhile isLabelChar
  if run.isEmpty then .error .emptyLocalSegment
  else match _h : s.dropWhile isLabelChar with
    | c :: r =>
      if isSeparator c then do
        let (parts, rest) ← readLabelParts r
        return (labelPartOf run :: parts, rest)
      else .ok ([labelPartOf run], c :: r)
    | [] => .ok ([labelPartOf run], [])
termination_by s.length
decreasing_by
  have := length_dropWhile_le isLabelChar s
  rw [_h] at this
  simp only [List.length_cons] at this
  omega

/-- Read the local label, if one stands here. -/
def readLabel : List Char → Except VersionFault (List LocalPart × List Char)
  | '+' :: r => readLabelParts r
  | s => .ok ([], s)

/-- Read the epoch, if one is written, and the first release segment. -/
def readEpochAndMajor (s : List Char) : Except VersionFault ((UInt64 × UInt64) × List Char) := do
  match ← readNumber? s with
  | (none, _) => throw .noRelease
  | (some n, '!' :: r) =>
    match ← readNumber? r with
    | (none, _) => throw .noReleaseAfterEpoch
    | (some m, rest) => return ((n, m), rest)
  | (some n, rest) => return ((0, n), rest)

/-- Drop one leading `v`. -/
def skipV : List Char → List Char
  | 'v' :: r => r
  | s => s

/-- Read a version that takes up the whole of a trimmed text in lower case. -/
def ofLowered (s : List Char) : Except VersionFault Version := do
  if s.isEmpty then throw .empty
  let ((epoch, major), s₁) ← readEpochAndMajor (skipV s)
  let (minors, s₂) ← readSegments s₁
  let (pre, s₃) ← readPre? s₂
  let (post, s₄) ← readPost? s₃
  let (dev, s₅) ← readDev? s₄
  let (label, rest) ← readLabel s₅
  if rest.isEmpty then
    return { epoch, release := major :: minors, pre, post, dev, label }
  else throw (.unexpectedText (s.length - rest.length))

/-- Read a version; blanks around it and the case of its letters do not matter. -/
def ofText (s : String) : Except VersionFault Version :=
  ofLowered (Text.lower (Text.trim s.toList))

/-- Read a version; the error names the text as it was given. -/
def parse (s : String) : Except Error Version :=
  (ofText s).mapError fun fault => .invalidVersion s fault.message

end Version

end ProjectScope

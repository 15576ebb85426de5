import ProjectScope.Version.Parser

/-!
# The grammar of versions

A reading of a text as a version says for each part of the grammar

    v? (N!)? N(.N)* pre? post? dev? (+local)?

whether it is there and how it is spelled. It gives the text that is read and the version that the
text stands for. Where a text has two readings, the early one takes a number for the first part that
can have it.
-/

namespace ProjectScope.Version

/-! ### Numbers and separators -/

/-- A number as it is written: digits whose value fits in 64 bits. -/
structure Numeral where
  digits : List Char
  digits_ne_nil : digits ≠ []
  isDigit : ∀ c ∈ digits, c.isDigit = true
  fits : Nat.ofDigitChars 10 digits 0 < UInt64.size

/-- The number that is written. -/
def Numeral.value (m : Numeral) : UInt64 := UInt64.ofNatLT _ m.fits

/-- One of `-`, `_` and `.`. -/
abbrev Separator := { c : Char // isSeparator c = true }

/-- A separator that may be left out. -/
def separatorText : Option Separator → List Char
  | none => []
  | some c => [c.1]

/-- The number of a suffix, with the separator before it. -/
structure Count where
  separator : Option Separator
  numeral : Numeral

namespace Count

/-- How the number is written. -/
def text (n : Count) : List Char := separatorText n.separator ++ n.numeral.digits

/-- How a number that may be left out is written. -/
def text? (n : Option Count) : List Char := n.elim [] text

/-- A number that is left out is zero. -/
def value? (n : Option Count) : UInt64 := n.elim 0 fun n => n.numeral.value

end Count

/-- Whether no number of a suffix stands at the start of a text. -/
def NoCount (s : List Char) : Prop := ∀ n : Count, ¬ n.text <+: s

/-! ### Suffixes -/

/-- The spellings of a phase. -/
def spellingsOf : Phase → List String
  | .alpha => ["alpha", "a"]
  | .beta => ["beta", "b"]
  | .candidate => ["preview", "pre", "rc", "c"]

/-- The spellings of a post-release. -/
def postSpellings : List String := ["post", "rev", "r"]

/-- The spelling of a development release. -/
def devSpellings : List String := ["dev"]

/-- A suffix as it is written, with one of some words. -/
structure Suffix (spellings : List String) where
  separator : Option Separator
  word : String
  word_mem : word ∈ spellings
  count : Option Count

namespace Suffix

variable {spellings : List String} (x : Suffix spellings)

/-- How the suffix is written. -/
def text : List Char := separatorText x.separator ++ (x.word.toList ++ Count.text? x.count)

/-- The number of the suffix. -/
def value : UInt64 := Count.value? x.count

/-- Whether the suffix takes its number where the rest of the text has one for it. -/
def IsEarly (rest : List Char) : Prop := x.count = none → NoCount rest

end Suffix

/-- A pre-release suffix as it is written. -/
structure PreReading where
  phase : Phase
  suffix : Suffix (spellingsOf phase)

/-- A post-release suffix as it is written: a hyphen and a number, or one of the words. -/
inductive PostReading where
  | hyphen (n : Numeral)
  | word (x : Suffix postSpellings)

namespace PostReading

/-- How the suffix is written. -/
def text : PostReading → List Char
  | hyphen n => '-' :: n.digits
  | word x => x.text

/-- The number of the suffix. -/
def value : PostReading → UInt64
  | hyphen n => n.value
  | word x => x.value

/-- Whether the suffix takes its number where the rest of the text has one for it. -/
def IsEarly : PostReading → List Char → Prop
  | hyphen _, _ => True
  | word x, rest => x.IsEarly rest

end PostReading

/-! ### Local labels -/

/-- A run of letters and digits in a local label. -/
structure Segment where
  chars : List Char
  chars_ne_nil : chars ≠ []
  isLabelChar : ∀ c ∈ chars, isLabelChar c = true

/-- What a run stands for: a number when it is one and fits, and any other text otherwise. -/
def Segment.part (x : Segment) : LocalPart :=
  if h : x.chars.all Char.isDigit = true ∧ Nat.ofDigitChars 10 x.chars 0 < UInt64.size then
    .number (UInt64.ofNatLT _ h.2)
  else .text (String.ofList x.chars)

/-- A local label as it is written, without the plus sign. -/
structure LabelReading where
  first : Segment
  others : List (Separator × Segment)

namespace LabelReading

/-- How the runs after the first are written. -/
def othersText (others : List (Separator × Segment)) : List Char :=
  others.flatMap fun x => x.1.1 :: x.2.chars

/-- How the label is written. -/
def text (x : LabelReading) : List Char := x.first.chars ++ othersText x.others

/-- What the label stands for. -/
def parts (x : LabelReading) : List LocalPart :=
  x.first.part :: x.others.map fun other => other.2.part

end LabelReading

/-! ### Readings -/

/-- A reading of a text as a version. -/
structure Reading where
  marked : Bool
  epoch : Option Numeral
  major : Numeral
  minors : List Numeral
  pre : Option PreReading
  post : Option PostReading
  dev : Option (Suffix devSpellings)
  label : Option LabelReading

namespace Reading

variable (r : Reading)

/-- How release segments after the first are written. -/
def minorsText (minors : List Numeral) : List Char := minors.flatMap fun m => '.' :: m.digits

/-- What is written after the development release. -/
def labelText : List Char := r.label.elim [] fun x => '+' :: x.text

/-- What is written after the post-release. -/
def devText : List Char := r.dev.elim [] Suffix.text ++ r.labelText

/-- What is written after the pre-release. -/
def postText : List Char := r.post.elim [] PostReading.text ++ r.devText

/-- What is written after the release segments. -/
def preText : List Char := r.pre.elim [] (fun p => p.suffix.text) ++ r.postText

/-- What is written after the epoch. -/
def releaseText : List Char := r.major.digits ++ (minorsText r.minors ++ r.preText)

/-- The text that is read. -/
def text : List Char :=
  (if r.marked then ['v'] else []) ++
    (r.epoch.elim [] (fun m => m.digits ++ ['!']) ++ r.releaseText)

/-- The version that the text stands for. -/
def version : Version where
  epoch := r.epoch.elim 0 Numeral.value
  release := r.major.value :: r.minors.map Numeral.value
  pre := r.pre.map fun p => (p.phase, p.suffix.value)
  post := r.post.map PostReading.value
  dev := r.dev.map Suffix.value
  label := r.label.elim [] LabelReading.parts

/-- Whether each suffix takes its number as early as it can. -/
structure IsEarly : Prop where
  pre : ∀ p ∈ r.pre, p.suffix.IsEarly r.postText
  post : ∀ p ∈ r.post, p.IsEarly r.devText
  dev : ∀ x ∈ r.dev, x.IsEarly r.labelText

end Reading

end ProjectScope.Version

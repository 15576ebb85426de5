import ProjectScope.Version.Basic

/-!
# Printing versions

The canonical spelling of a version: the shortest names of the phases, dots before `post` and
`dev`, and no leading zeros.
-/

namespace ProjectScope

/-- Numbers with dots between them. -/
def dotted (segments : List UInt64) : List Char :=
  ['.'].intercalate (segments.map Text.Numeral.digits)

/-- A part of a local label as it is printed. -/
def LocalPart.spelling : LocalPart → List Char
  | .text label => label.toList
  | .number n => Text.Numeral.digits n

namespace Version

/-- The epoch with its `!`, which is left out when it is zero. -/
def epochPart (epoch : UInt64) : List Char :=
  if epoch = 0 then [] else Text.Numeral.digits epoch ++ ['!']

/-- The pre-release suffix. -/
def prePart : Option (Phase × UInt64) → List Char
  | none => []
  | some (phase, n) => phase.tag ++ Text.Numeral.digits n

/-- The post-release suffix. -/
def postPart : Option UInt64 → List Char
  | none => []
  | some n => ['.', 'p', 'o', 's', 't'] ++ Text.Numeral.digits n

/-- The development-release suffix. -/
def devPart : Option UInt64 → List Char
  | none => []
  | some n => ['.', 'd', 'e', 'v'] ++ Text.Numeral.digits n

/-- The local label with its `+`. -/
def labelPart : List LocalPart → List Char
  | [] => []
  | parts => '+' :: ['.'].intercalate (parts.map LocalPart.spelling)

/-- The canonical spelling of a version. -/
def render (v : Version) : List Char :=
  epochPart v.epoch ++ dotted v.release ++ prePart v.pre ++ postPart v.post ++ devPart v.dev ++
    labelPart v.label

/-- The canonical spelling as a string. -/
def toText (v : Version) : String := String.ofList v.render

end Version

end ProjectScope

import ProjectScope.Text.Blank
import ProjectScope.Version.Order
import ProjectScope.Version.Printer

/-!
# Specifiers

A specifier such as `>=3.8`, `~=3.9.1` or `==3.*` is a clause about versions. The comparisons
follow the rules for Python packages: local labels count only where the clause names one, `<3.9`
leaves out the pre-releases of 3.9 itself, and `>3.9` its post-releases.
-/

namespace ProjectScope

/-- The operator of a clause. -/
inductive Operator where
  | compatible
  | equal
  | notEqual
  | atMost
  | atLeast
  | less
  | greater
  | arbitrary
  deriving DecidableEq, Repr

namespace Operator

/-- The operator as it is written. -/
def symbol : Operator → String
  | compatible => "~="
  | equal => "=="
  | notEqual => "!="
  | atMost => "<="
  | atLeast => ">="
  | less => "<"
  | greater => ">"
  | arbitrary => "==="

/-- Every operator; of two that start alike the longer one comes first. -/
def all : List Operator :=
  [arbitrary, compatible, equal, notEqual, atMost, atLeast, less, greater]

/-- Whether the operator asks for a version or for any other, and so may have a wildcard or a
local label. -/
def isEquality : Operator → Bool
  | equal => true
  | notEqual => true
  | _ => false

end Operator

/-- What a clause compares with. -/
inductive Operand where
  | version (v : Version)
  /-- Any version of this epoch whose release starts like this, as in `==3.8.*`. -/
  | wildcard (epoch : UInt64) (release : List UInt64)
  /-- A text that the printed version has to be, in any case of its letters. -/
  | text (t : String)
  deriving DecidableEq, Repr

/-- One clause. -/
structure Specifier where
  operator : Operator
  operand : Operand
  /-- For `~=`, the number of leading release segments that a version has to share. -/
  shared : Nat := 0
  deriving DecidableEq, Repr

/-- Whether the release of a version starts with the given segments. -/
def Version.startsWith (v : Version) (segments : List UInt64) : Bool :=
  segments.zipIdx.all fun (s, i) => v.segment i == s

/-- Whether `v` is the version `w` that a clause names; the local label of `v` counts only when
`w` has one. -/
def Version.matchesExactly (v w : Version) : Bool :=
  if w.isLocal then v.same w else v.withoutLocal.same w

namespace Operand

/-- Two operands are the same when they are written alike, up to the spelling of a version. -/
def same : Operand → Operand → Bool
  | version v, version w => v.same w
  | wildcard e r, wildcard e' r' => e == e' && r == r'
  | text t, text t' => t == t'
  | _, _ => false

/-- The operand as it is printed. -/
def render : Operand → List Char
  | version v => v.render
  | wildcard epoch release => Version.epochPart epoch ++ dotted release ++ ['.', '*']
  | text t => t.toList

end Operand

namespace Specifier

/-- Two clauses are the same when operator, operand and the shared segments agree. -/
def same (x y : Specifier) : Bool :=
  x.operator == y.operator && x.operand.same y.operand && x.shared == y.shared

/-- Whether the clause ends in `.*`. -/
def isWildcard (x : Specifier) : Bool :=
  match x.operand with
  | .wildcard _ _ => true
  | _ => false

/-- The version that the clause compares with, if it names one. -/
def version? (x : Specifier) : Option Version :=
  match x.operand with
  | .version v => some v
  | _ => none

/-- Whether a version satisfies the clause. -/
def contains (x : Specifier) (c : Version) : Bool :=
  let p := c.withoutLocal
  match x.operand, x.operator with
  | .text t, _ => Text.lower c.render == Text.lower t.toList
  | .wildcard epoch release, op =>
    let matched := p.epoch == epoch && p.startsWith release
    if op = .equal then matched else !matched
  | .version v, .compatible => v.atMost p && p.startsWith (v.release.take x.shared)
  | .version v, .equal => c.matchesExactly v
  | .version v, .notEqual => !c.matchesExactly v
  | .version v, .atMost => p.atMost v
  | .version v, .atLeast => v.atMost p
  | .version v, .less =>
    p.before v && !(!v.isPrerelease && p.isPrerelease && p.sameBase v)
  | .version v, .greater =>
    v.before p && !(!v.isPostrelease && p.isPostrelease && p.sameBase v)
  | .version _, .arbitrary => false

/-- The clause as it is printed. A narrowed `~=` clause prints like a wider one, because the
number of shared segments is not written. -/
def render (x : Specifier) : List Char := x.operator.symbol.toList ++ x.operand.render

/-- The printed clause as a string. -/
def toText (x : Specifier) : String := String.ofList x.render

end Specifier

end ProjectScope

import ProjectScope.Specifier.Parser

/-!
# Narrowing to minor versions

Targets are minor versions, so a clause about patch releases is first turned into one about
`major.minor`. A `~=` clause that was pinned to a patch release keeps the minor version pinned.
-/

namespace ProjectScope

/-- The minor version that a version belongs to; epoch and suffixes are dropped. -/
def Version.minorOf (v : Version) : Version := .ofRelease [v.major, v.segment 1]

namespace Specifier

/-- The clause about minor versions: `~=`, `==`, `===` and `>=` keep their operator, `>` with a
patch release becomes `>=`, and every other clause stays. A text after `===` has to be a
version. -/
def narrow (x : Specifier) : Except Error Specifier :=
  match x.operand, x.operator with
  | .text t, .arbitrary => do
    let v ← Version.parse t
    return { operator := .arbitrary, operand := .text v.minorOf.toText }
  | .version v, .compatible | .version v, .equal | .version v, .atLeast =>
    .ok { x with operand := .version v.minorOf, shared := min x.shared 2 }
  | .version v, .greater =>
    if v.release.length > 2 then
      .ok { operator := .atLeast, operand := .version v.minorOf }
    else .ok x
  | _, _ => .ok x

end Specifier

end ProjectScope

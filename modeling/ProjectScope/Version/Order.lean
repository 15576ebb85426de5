import ProjectScope.Version.Basic

/-!
# The order of versions

Versions are compared part by part: epoch, release (missing segments are zero), pre-release,
post-release, development release, local label. `1.dev0 < 1a1 < 1b1 < 1rc1 < 1 < 1.post0`, and a
local label makes a version later than the same version without one.
-/

namespace ProjectScope

/-- Releases are compared segment by segment; the shorter one continues with zeros. -/
def compareRelease : List UInt64 → List UInt64 → Ordering
  | [], [] => .eq
  | a :: as, [] => (compare a 0).then (compareRelease as [])
  | [], b :: bs => (compare 0 b).then (compareRelease [] bs)
  | a :: as, b :: bs => (compare a b).then (compareRelease as bs)

/-- Labels come before numbers; labels are ordered by code point, numbers by value. -/
def LocalPart.compare : LocalPart → LocalPart → Ordering
  | .text a, .text b => Ord.compare a b
  | .text _, .number _ => .lt
  | .number _, .text _ => .gt
  | .number a, .number b => Ord.compare a b

/-- Local labels are compared part by part; a label comes before its extensions. -/
def compareLabel : List LocalPart → List LocalPart → Ordering
  | [], [] => .eq
  | [], _ :: _ => .lt
  | _ :: _, [] => .gt
  | a :: as, b :: bs => (a.compare b).then (compareLabel as bs)

namespace Version

/-- Where a version stands among those of its release: a bare development release first, then the
pre-releases by phase and number, then all others. -/
def preKey (v : Version) : Nat × Nat × UInt64 :=
  match v.pre, v.post, v.dev with
  | none, none, some _ => (0, 0, 0)
  | some (phase, n), _, _ => (1, phase.rank, n)
  | _, _, _ => (2, 0, 0)

/-- No post-release comes before post-release 0. -/
def postKey (v : Version) : Nat × UInt64 :=
  match v.post with
  | none => (0, 0)
  | some n => (1, n)

/-- A development release comes before the release it leads to. -/
def devKey (v : Version) : Nat × UInt64 :=
  match v.dev with
  | some n => (0, n)
  | none => (1, 0)

/-- Pairs are compared by their first parts, and those that agree by the second. -/
def comparePair (a b : Nat × UInt64) : Ordering :=
  (Ord.compare a.1 b.1).then (Ord.compare a.2 b.2)

/-- The order of versions. -/
def compare (v w : Version) : Ordering :=
  (Ord.compare v.epoch w.epoch)
    |>.then (compareRelease v.release w.release)
    |>.then ((Ord.compare v.preKey.1 w.preKey.1).then (comparePair v.preKey.2 w.preKey.2))
    |>.then (comparePair v.postKey w.postKey)
    |>.then (comparePair v.devKey w.devKey)
    |>.then (compareLabel v.label w.label)

/-- Whether two versions are the same place in the order, as `3.8` and `3.8.0` are. -/
def same (v w : Version) : Bool := v.compare w == .eq

/-- Whether `v` is not after `w`. -/
def atMost (v w : Version) : Bool := v.compare w != .gt

/-- Whether `v` is before `w`. -/
def before (v w : Version) : Bool := v.compare w == .lt

/-- Whether epoch and release agree, whatever the suffixes. -/
def sameBase (v w : Version) : Bool :=
  v.epoch == w.epoch && compareRelease v.release w.release == .eq

end Version

end ProjectScope

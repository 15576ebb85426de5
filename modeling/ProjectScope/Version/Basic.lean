import ProjectScope.Text.Numeral

/-!
# Versions

A version number `[epoch!]release[pre][.postN][.devN][+local]` as Python packages carry it: an
epoch, the dotted release segments, and four optional suffixes. Numbers are words of 64 bits.
-/

namespace ProjectScope

/-- The phase of a pre-release, earliest first. -/
inductive Phase where
  | alpha
  | beta
  | candidate
  deriving DecidableEq, Repr

namespace Phase

/-- The letters that stand for the phase in a printed version. -/
def tag : Phase → List Char
  | alpha => ['a']
  | beta => ['b']
  | candidate => ['r', 'c']

/-- The place of the phase in the order of phases. -/
def rank : Phase → Nat
  | alpha => 0
  | beta => 1
  | candidate => 2

end Phase

/-- One part of a local label: a number, or any other run of letters and digits. -/
inductive LocalPart where
  | text (label : String)
  | number (value : UInt64)
  deriving DecidableEq, Repr

/-- A version number. -/
structure Version where
  epoch : UInt64 := 0
  /-- The release segments as written, trailing zeros included. -/
  release : List UInt64
  pre : Option (Phase × UInt64) := none
  post : Option UInt64 := none
  dev : Option UInt64 := none
  /-- The parts of the local label; empty when there is none. -/
  label : List LocalPart := []
  deriving DecidableEq, Repr

namespace Version

/-- The final release with the given segments; no segments stand for `0`. -/
def ofRelease (segments : List UInt64) : Version :=
  { release := if segments.isEmpty then [0] else segments }

/-- Release segment `i`; segments that are not written are zero. -/
def segment (v : Version) (i : Nat) : UInt64 := v.release[i]?.getD 0

/-- The first release segment. -/
def major (v : Version) : UInt64 := v.segment 0

/-- The second release segment, if it is written. -/
def minor? (v : Version) : Option UInt64 := v.release[1]?

/-- Alphas, betas, candidates and development releases come before their release. -/
def isPrerelease (v : Version) : Bool := v.pre.isSome || v.dev.isSome

/-- Post-releases come after their release. -/
def isPostrelease (v : Version) : Bool := v.post.isSome

/-- Whether the version carries a local label. -/
def isLocal (v : Version) : Bool := !v.label.isEmpty

/-- The version without its local label. -/
def withoutLocal (v : Version) : Version := { v with label := [] }

@[simp] theorem label_withoutLocal (v : Version) : v.withoutLocal.label = [] := rfl

@[simp] theorem release_withoutLocal (v : Version) : v.withoutLocal.release = v.release := rfl

@[simp] theorem epoch_withoutLocal (v : Version) : v.withoutLocal.epoch = v.epoch := rfl

theorem release_ofRelease_ne_nil (segments : List UInt64) :
    (ofRelease segments).release ≠ [] := by
  cases segments <;> simp [ofRelease]

end Version

end ProjectScope

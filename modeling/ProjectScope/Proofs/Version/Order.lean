import Mathlib.Tactic.Common
import ProjectScope.Proofs.Version.Reading
import ProjectScope.Specifier.Basic
import ProjectScope.Target.Basic

/-!
# Final releases in the order

How versions stand to final releases of epoch zero, which is all that a target is compared as.
Between final releases only the segments count.
-/

namespace ProjectScope

/-! ### Releases -/

@[simp] lemma compare_self_word (a : UInt64) : Ord.compare a a = .eq :=
  Std.ReflOrd.compare_self

lemma eq_of_compare_word {a b : UInt64} (h : Ord.compare a b = .eq) : a = b :=
  Std.LawfulEqOrd.eq_of_compare h

@[simp] lemma compareRelease_self (r : List UInt64) : compareRelease r r = .eq := by
  induction r with
  | nil => rw [compareRelease]
  | cons a r ih => rw [compareRelease, compare_self_word, ih]; rfl

/-- Releases that compare as equal agree in every segment, written or not. -/
lemma getD_eq_of_compareRelease_eq {r r' : List UInt64} (h : compareRelease r r' = .eq) (i : Nat) :
    r[i]?.getD 0 = r'[i]?.getD 0 := by
  fun_induction compareRelease r r' generalizing i with
  | case1 => rfl
  | case2 a as ih =>
    obtain ⟨ha, has⟩ := Ordering.then_eq_eq.mp h
    cases i with
    | zero => simpa using eq_of_compare_word ha
    | succ i => simpa using ih has i
  | case3 b bs ih =>
    obtain ⟨hb, hbs⟩ := Ordering.then_eq_eq.mp h
    cases i with
    | zero => simpa using eq_of_compare_word hb
    | succ i => simpa using ih hbs i
  | case4 a as b bs ih =>
    obtain ⟨ha, has⟩ := Ordering.then_eq_eq.mp h
    cases i with
    | zero => simpa using eq_of_compare_word ha
    | succ i => simpa using ih has i

/-- Against two segments a release is compared by its own first two, and then by what is left. -/
lemma compareRelease_eq_then_drop_two (r : List UInt64) (a b : UInt64) :
    compareRelease r [a, b] = (compareRelease [r[0]?.getD 0, r[1]?.getD 0] [a, b]).then
      (compareRelease (r.drop 2) []) := by
  match r with
  | [] => simp [compareRelease]
  | [x] => simp [compareRelease]
  | x :: y :: r => simp [compareRelease, Ordering.then_assoc]

namespace Version

variable {v w : Version}

/-! ### Final releases -/

/-- Between final releases only the segments count. -/
lemma compare_ofRelease {r r' : List UInt64} (hr : r ≠ []) (hr' : r' ≠ []) :
    (ofRelease r).compare (ofRelease r') = compareRelease r r' := by
  simp [ofRelease, hr, hr', compare, comparePair, preKey, postKey, devKey, compareLabel]

/-- Epochs are compared first and releases second. -/
lemma compare_eq_then (v w : Version) :
    ∃ o, v.compare w =
      (Ord.compare v.epoch w.epoch).then ((compareRelease v.release w.release).then o) :=
  ⟨_, by simp only [compare, Ordering.then_assoc]; rfl⟩

lemma compare_word_zero_ne_lt (a : UInt64) : Ord.compare a 0 ≠ .lt := by
  intro h
  rw [Std.compare_eq_lt] at h
  exact absurd h (by simp)

/-- What is not after a final release has no epoch, and its release is not after that one. -/
lemma compareRelease_ne_gt_of_atMost (h : v.atMost w = true) (hw : w.epoch = 0) :
    v.epoch = 0 ∧ compareRelease v.release w.release ≠ .gt := by
  obtain ⟨o, ho⟩ := compare_eq_then v w
  rw [atMost, bne_iff_ne, ho, hw, ne_eq, Ordering.then_eq_gt, Ordering.then_eq_gt] at h
  push Not at h
  obtain ⟨hepoch, hrelease⟩ := h
  have heq : Ord.compare v.epoch 0 = .eq := by
    cases hc : Ord.compare v.epoch 0 with
    | lt => exact absurd hc (compare_word_zero_ne_lt _)
    | eq => rfl
    | gt => exact absurd hc hepoch
  exact ⟨eq_of_compare_word heq, (hrelease heq).1⟩

/-- A version that is the same as another agrees with it in epoch and segments. -/
lemma eq_of_same (h : v.same w = true) :
    v.epoch = w.epoch ∧ ∀ i, v.segment i = w.segment i := by
  obtain ⟨o, ho⟩ := compare_eq_then v w
  rw [same, beq_iff_eq, ho, Ordering.then_eq_eq, Ordering.then_eq_eq] at h
  exact ⟨eq_of_compare_word h.1, getD_eq_of_compareRelease_eq h.2.1⟩

end Version

end ProjectScope

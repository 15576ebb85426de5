import ProjectScope.Proofs.Specifier.Parser
import ProjectScope.Proofs.Version.RoundTrip
import ProjectScope.Proofs.Version.TotalOrder
import ProjectScope.Specifier.Narrowing

/-!
# Narrowing loses no target

A clause is narrowed in one of four ways: its text or its version is cut, a lower bound is opened,
or it stays as it is. A target stands for the final release of its minor version. Every clause that
admits this release can be narrowed, and the narrowed clause admits it as well: cutting a version to
its minor version moves a lower bound down only, keeps an equality on the same segments, and shares
no more of them.
-/

namespace ProjectScope

namespace Target

@[simp] lemma epoch_version (t : Target) : t.version.epoch = 0 := rfl

@[simp] lemma withoutLocal_version (t : Target) : t.version.withoutLocal = t.version := rfl

lemma arises_version (t : Target) : t.version.Arises := .release [3, t.minor]

/-- The final releases of the targets are in the order of their minor numbers. -/
lemma compare_version (t u : Target) :
    t.version.compare u.version = Ord.compare t.minor u.minor := by
  rw [version, version, Version.compare_ofRelease (by simp) (by simp)]
  simp only [compareRelease, compare_self_word, Ordering.eq_then, Ordering.then_eq]

end Target

namespace Version

variable {v : Version} {t : Target}

/-- A version that is not after a target is not so either when it is cut to its minor version. -/
lemma minorOf_atMost (h : v.atMost t.version = true) : v.minorOf.atMost t.version = true := by
  have hrelease : compareRelease v.release [3, t.minor] ≠ .gt :=
    (compareRelease_ne_gt_of_atMost h t.epoch_version).2
  rw [compareRelease_eq_then_drop_two, ne_eq, Ordering.then_eq_gt, not_or] at hrelease
  rw [atMost, bne_iff_ne, minorOf, Target.version, compare_ofRelease (by simp) (by simp)]
  exact hrelease.1

lemma atMost_of_before {w : Version} (h : v.before w = true) : v.atMost w = true := by
  rw [before, beq_iff_eq] at h
  rw [atMost, h]
  rfl

/-- A version that is the same as a target belongs to it. -/
lemma minorOf_eq_of_same (h : t.version.same v = true) : v.minorOf = t.version := by
  have hseg := (eq_of_same h).2
  rw [minorOf, major, ← hseg 0, ← hseg 1]
  rfl

@[simp] lemma startsWith_withoutLocal (v : Version) (segments : List UInt64) :
    v.withoutLocal.startsWith segments = v.startsWith segments := rfl

lemma startsWith_iff {v : Version} {segments : List UInt64} :
    v.startsWith segments = true ↔
      ∀ (i : Nat) (hi : i < segments.length), v.segment i = segments[i] := by
  simp only [startsWith, List.all_eq_true, Prod.forall, List.mk_mem_zipIdx_iff_getElem?,
    beq_iff_eq, List.getElem?_eq_some_iff]
  constructor
  · intro h i hi
    exact h _ i ⟨hi, rfl⟩
  · rintro h s i ⟨hi, rfl⟩
    exact h i hi

end Version

namespace Specifier

variable {x y : Specifier} {t : Target}

/-! ### What narrowing makes of a clause -/

/-- What a clause can become when it is narrowed. -/
inductive IsNarrowing (x : Specifier) : Specifier → Prop
  /-- The version that is compared as a text is cut. -/
  | text (t : String) (v : Version) (hoperand : x.operand = .text t) (hop : x.operator = .arbitrary)
      (hv : Version.parse t = .ok v) : IsNarrowing x ⟨.arbitrary, .text v.minorOf.toText, 0⟩
  /-- The version is cut, and with it the segments that are shared. -/
  | cut (v : Version) (hoperand : x.operand = .version v)
      (hop : x.operator = .compatible ∨ x.operator = .equal ∨ x.operator = .atLeast) :
      IsNarrowing x ⟨x.operator, .version v.minorOf, min x.shared 2⟩
  /-- The version is cut and admitted from then on. -/
  | opened (v : Version) (hoperand : x.operand = .version v) (hop : x.operator = .greater)
      (hlen : 2 < v.release.length) : IsNarrowing x ⟨.atLeast, .version v.minorOf, 0⟩
  | kept (hop : x.operator = .compatible → x.version? = none) (h : x.narrow = .ok x) :
      IsNarrowing x x

lemma isNarrowing_of_narrow (h : x.narrow = .ok y) : IsNarrowing x y := by
  obtain ⟨op, operand, shared⟩ := x
  match operand, op with
  | .text t, .arbitrary =>
    obtain ⟨v, hv, h⟩ := bind_eq_ok.mp h
    cases h
    exact .text t v rfl rfl hv
  | .version v, .compatible | .version v, .equal | .version v, .atLeast =>
    cases h
    exact .cut v rfl (by simp)
  | .version v, .greater =>
    simp only [narrow] at h
    split_ifs at h with hlen
    · cases h
      exact .opened v rfl rfl hlen
    · cases h
      exact .kept (by simp) (by simp [narrow, hlen])
  | .version _, .notEqual | .version _, .atMost | .version _, .less | .version _, .arbitrary =>
    cases h
    exact .kept (by simp) rfl
  | .wildcard _ _, _ =>
    cases h
    exact .kept (fun _ => rfl) rfl
  | .text _, .compatible | .text _, .equal | .text _, .notEqual | .text _, .atMost
  | .text _, .atLeast | .text _, .less | .text _, .greater =>
    cases h
    exact .kept (fun _ => rfl) rfl

/-! ### Narrowed clauses and targets -/

/-- A lower bound at a target admits the targets from it on. -/
lemma contains_atLeast_version (t u : Target) (shared : Nat) :
    contains ⟨.atLeast, .version u.version, shared⟩ t.version = decide (u.minor ≤ t.minor) := by
  rw [Bool.eq_iff_iff, decide_eq_true_iff]
  simp only [contains, Target.withoutLocal_version, Version.atMost, Target.compare_version,
    bne_iff_ne, ne_eq, Std.compare_eq_gt, UInt64.not_lt]

/-- An upper bound at a target admits the targets below it. -/
lemma contains_less_version (t u : Target) (shared : Nat) :
    contains ⟨.less, .version u.version, shared⟩ t.version = decide (t.minor < u.minor) := by
  have hfinal : t.version.isPrerelease = false := rfl
  rw [Bool.eq_iff_iff, decide_eq_true_iff]
  simp only [contains, Target.withoutLocal_version, Version.before, Target.compare_version, hfinal,
    Bool.and_false, Bool.false_and, Bool.not_false, Bool.and_true, beq_iff_eq, Std.compare_eq_lt]

/-- A narrowed `~=` clause shares no segment that the written one does not. -/
lemma startsWith_minorOf {v : Version} {n : Nat} (hn : n ≤ v.release.length)
    (h : t.version.startsWith (v.release.take n) = true) :
    t.version.startsWith (v.minorOf.release.take (min n 2)) = true := by
  rw [Version.startsWith_iff] at h ⊢
  intro i hi
  have hi2 : i < min n 2 := (List.length_take ▸ hi).trans_le (Nat.min_le_left _ _)
  have hlt : i < (v.release.take n).length := by
    rw [List.length_take]
    omega
  rw [h i hlt, List.getElem_take, List.getElem_take]
  have hir : i < v.release.length := by omega
  match i with
  | 0 => simp [Version.minorOf, Version.ofRelease, Version.major, Version.segment, hir]
  | 1 => simp [Version.minorOf, Version.ofRelease, Version.segment, hir]
  | i + 2 => omega

/-- A clause that admits a target can be narrowed, and then still admits it. -/
theorem exists_narrow_contains (hx : x.SharesWritten) (h : x.contains t.version = true) :
    ∃ y, x.narrow = .ok y ∧ y.contains t.version = true := by
  obtain ⟨op, operand, shared⟩ := x
  match operand, op with
  | .text s, op =>
    have hs : Text.lower t.version.render = Text.lower s.toList := by
      simpa [contains] using h
    match op with
    | .arbitrary =>
      refine ⟨{ operator := .arbitrary, operand := .text t.version.toText }, ?_, ?_⟩
      · simp only [narrow, t.arises_version.parse_of_lower_eq hs]
        rfl
      · simp [contains, Version.toText]
    | .compatible | .equal | .notEqual | .atMost | .atLeast | .less | .greater =>
      exact ⟨_, rfl, h⟩
  | .wildcard _ _, _ => exact ⟨_, rfl, h⟩
  | .version v, .compatible =>
    refine ⟨_, rfl, ?_⟩
    simp only [contains, Bool.and_eq_true, Target.withoutLocal_version] at h ⊢
    exact ⟨Version.minorOf_atMost h.1, startsWith_minorOf (hx v rfl) h.2⟩
  | .version v, .equal =>
    refine ⟨_, rfl, ?_⟩
    have hv : t.version.same v = true := by
      simpa [contains, Version.matchesExactly] using h
    simp [contains, Version.matchesExactly, Version.minorOf_eq_of_same hv,
      Version.same_self]
  | .version v, .atLeast =>
    refine ⟨_, rfl, ?_⟩
    simp only [contains, Target.withoutLocal_version] at h ⊢
    exact Version.minorOf_atMost h
  | .version v, .greater =>
    by_cases hlen : v.release.length > 2
    · refine ⟨{ operator := .atLeast, operand := .version v.minorOf }, by simp [narrow, hlen], ?_⟩
      simp only [contains, Bool.and_eq_true, Target.withoutLocal_version] at h ⊢
      exact Version.minorOf_atMost (Version.atMost_of_before h.1)
    · exact ⟨_, by simp [narrow, hlen], h⟩
  | .version _, .notEqual | .version _, .atMost | .version _, .less | .version _, .arbitrary =>
    exact ⟨_, rfl, h⟩

end Specifier

end ProjectScope

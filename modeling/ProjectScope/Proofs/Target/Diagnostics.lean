import Mathlib.Tactic.Common
import ProjectScope.Proofs.Target.Inference

/-!
# Why no target is inferred

When a specifier set leaves no target, the log says for each target which clause rejects it: the
first one, as it is written, that the target does not satisfy once the clause is narrowed. Nothing
else that is logged on the way looks like such a rejection.
-/

namespace ProjectScope

/-! ### The clause to blame -/

/-- The first of some clauses that a target does not satisfy, each clause being narrowed. -/
def IsFirstRejecting (clauses : List Specifier) (t : Target) (x : Specifier) : Prop :=
  ∃ before after, clauses = before ++ x :: after ∧
    (∃ y, x.narrow = .ok y ∧ y.contains t.version = false) ∧
    ∀ w ∈ before, ∃ y, w.narrow = .ok y ∧ y.contains t.version = true

section Rejecting

variable {w x y : Specifier} {clauses narrowed : List Specifier} {t : Target}

lemma isFirstRejecting_self (hy : x.narrow = .ok y) (hno : y.contains t.version = false) :
    IsFirstRejecting (x :: clauses) t x :=
  ⟨[], clauses, rfl, ⟨y, hy, hno⟩, nofun⟩

lemma IsFirstRejecting.cons {z : Specifier} (h : IsFirstRejecting clauses t x)
    (hz : w.narrow = .ok z) (hyes : z.contains t.version = true) :
    IsFirstRejecting (w :: clauses) t x := by
  obtain ⟨before, after, rfl, hx, hbefore⟩ := h
  refine ⟨w :: before, after, rfl, hx, fun w' hw' => ?_⟩
  rcases List.mem_cons.mp hw' with rfl | hw'
  · exact ⟨z, hz, hyes⟩
  · exact hbefore w' hw'

lemma isFirstRejecting_cases (h : IsFirstRejecting (w :: clauses) t x) :
    (x = w ∧ ∃ y, w.narrow = .ok y ∧ y.contains t.version = false) ∨
      (∃ y, w.narrow = .ok y ∧ y.contains t.version = true) ∧ IsFirstRejecting clauses t x := by
  obtain ⟨before, after, hsplit, hno, hyes⟩ := h
  cases before with
  | nil =>
    obtain ⟨rfl, -⟩ := List.cons.inj hsplit
    exact .inl ⟨rfl, hno⟩
  | cons z before =>
    obtain ⟨rfl, hclauses⟩ := List.cons.inj hsplit
    obtain ⟨hz, hbefore⟩ := List.forall_mem_cons.mp hyes
    exact .inr ⟨hz, before, after, hclauses, hno, hbefore⟩

/-- There is one clause to blame at most. -/
lemma IsFirstRejecting.unique (hx : IsFirstRejecting clauses t x)
    (hy : IsFirstRejecting clauses t y) : x = y := by
  induction clauses with
  | nil =>
    obtain ⟨before, after, hsplit, -⟩ := hx
    cases before <;> cases hsplit
  | cons w clauses ih =>
    -- the first clause cannot both reject the target and admit it
    have hnot : ¬ ((∃ z, w.narrow = .ok z ∧ z.contains t.version = false) ∧
        ∃ z, w.narrow = .ok z ∧ z.contains t.version = true) := by
      rintro ⟨⟨z, hz, hno⟩, z', hz', hyes⟩
      cases hz.symm.trans hz'
      cases hno.symm.trans hyes
    obtain ⟨rfl, hno⟩ | ⟨hyes, hx⟩ := isFirstRejecting_cases hx <;>
      obtain ⟨rfl, hno'⟩ | ⟨hyes', hy⟩ := isFirstRejecting_cases hy
    · rfl
    · exact absurd ⟨hno, hyes'⟩ hnot
    · exact absurd ⟨hno', hyes⟩ hnot
    · exact ih hx hy

/-- Where a target does not satisfy all narrowed clauses, the first that it does not satisfy is
found, as it was written. -/
lemma exists_rejecting? (pairs : List.Forall₂ (fun x y => x.narrow = .ok y) clauses narrowed)
    (hno : narrowed.all (·.contains t.version) = false) :
    ∃ x, VersionRange.rejecting? ⟨clauses⟩ ⟨narrowed⟩ t = some x ∧
      IsFirstRejecting clauses t x := by
  induction pairs with
  | nil => cases hno
  | @cons w z clauses narrowed hz _ ih =>
    cases hcontains : z.contains t.version with
    | false =>
      refine ⟨w, ?_, isFirstRejecting_self hz hcontains⟩
      rw [VersionRange.rejecting?, List.zip_cons_cons, List.find?_cons_of_pos (by simp [hcontains])]
      rfl
    | true =>
      rw [List.all_cons, hcontains, Bool.true_and] at hno
      obtain ⟨x, hx, hfirst⟩ := ih hno
      refine ⟨x, ?_, hfirst.cons hz hcontains⟩
      rw [VersionRange.rejecting?, List.zip_cons_cons, List.find?_cons_of_neg (by simp [hcontains])]
      exact hx

end Rejecting

namespace VersionRange

variable {written narrowed : SpecifierSet}

/-- When no target satisfies a narrowed set, there is one rejection for each target; it names the
target and the clause. -/
lemma exists_rejections_eq (h : written.narrow = .ok narrowed) (hnone : admitted narrowed = []) :
    ∃ blamed : Target → Specifier, (∀ t, IsFirstRejecting written.clauses t (blamed t)) ∧
      rejections written narrowed = Target.all.map fun t =>
        ⟨.debug, t.pretty ++ " rejected by `" ++ (blamed t).toText ++ "`"⟩ := by
  have pairs := mapM_eq_ok.mp (SpecifierSet.narrow_eq_ok.mp h)
  have hrejected (t : Target) : narrowed.clauses.all (·.contains t.version) = false := by
    have hout := List.filter_eq_nil_iff.mp hnone t t.mem_all
    rwa [Bool.not_eq_true] at hout
  choose blamed hblamed hfirst using fun t => exists_rejecting? pairs (hrejected t)
  refine ⟨blamed, hfirst, ?_⟩
  have hrejecting (t : Target) : rejecting? written narrowed t = some (blamed t) := hblamed t
  simp only [rejections, hrejecting, Option.map_some]
  exact List.filterMap_eq_map_iff_forall_eq_some.mpr fun _ _ => rfl

end VersionRange

/-! ### What is logged -/

/-- Whether a record says that a target is rejected. -/
def LogRecord.IsRejection (r : LogRecord) : Prop :=
  ∃ t : Target, (t.pretty ++ " rejected by `").toList <+: r.text.toList

lemma LogRecord.isRejection_mk (severity : Severity) (t : Target) (clause : String) :
    IsRejection ⟨severity, t.pretty ++ " rejected by `" ++ clause ++ "`"⟩ := by
  refine ⟨t, (clause ++ "`").toList, ?_⟩
  simp

/-- A rejection starts with the target, and every target with the same digit. -/
lemma LogRecord.not_isRejection_of_head? {r : LogRecord} {c : Char}
    (h : r.text.toList.head? = some c) (hc : c ≠ '3') : ¬ r.IsRejection := by
  rintro ⟨t, more, hmore⟩
  rw [← hmore] at h
  simp [Target.pretty, Target.prettyChars] at h
  exact hc h.symm

section Log

variable {s : String} {written narrowed : SpecifierSet} {range : VersionRange}

/-- A text says clauses that can be narrowed and leave no target. -/
structure LeavesNoTarget (s : String) (written : SpecifierSet) : Prop where
  parse : SpecifierSet.parse s = .ok written
  nonempty : written.clauses ≠ []
  narrow : ∃ narrowed, written.narrow = .ok narrowed
  value : (inferTargets s).value = none

/-- The record that a text admits no target. -/
def noTargetRecord (s : String) : LogRecord :=
  ⟨.debug, "requires-python `" ++ s ++ "` admits no supported target"⟩

lemma not_isRejection_noTargetRecord (s : String) : ¬ (noTargetRecord s).IsRejection := by
  apply LogRecord.not_isRejection_of_head? (c := 'r')
  · simp [noTargetRecord]
  · decide

/-- Working out the targets logs nothing, unless clauses are left of which no target satisfies all.
-/
lemma VersionRange.log_targets (range : VersionRange) :
    range.targets.log = [] ∨ ∃ written narrowed, range = .specifiers written ∧
      written.narrow = .ok narrowed ∧ narrowed.clauses ≠ [] ∧ admitted narrowed = [] ∧
      range.targets = { value := .ok none, log := rejections written narrowed } := by
  cases range with
  | exact v => exact .inl rfl
  | specifiers written =>
    cases hnarrow : written.narrow with
    | error e => exact .inl (by rw [targets, hnarrow])
    | ok narrowed =>
      simp only [targets, hnarrow]
      split_ifs with hempty hnone
      · exact .inl rfl
      · refine .inr ⟨written, narrowed, rfl, hnarrow, ?_, List.isEmpty_iff.mp hnone, rfl⟩
        simpa [SpecifierSet.isEmpty] using hempty
      · exact .inl rfl

/-- What is logged last says what has come of the text, and it is no rejection. -/
lemma log_inferTargets (h : VersionRange.parse s = .ok range) :
    ∃ last, (inferTargets s).log = range.targets.log ++ [last] ∧ ¬ last.IsRejection ∧
      (range.targets.value = .ok none →
        last = noTargetRecord s ∧ (inferTargets s).value = none) := by
  simp only [inferTargets, h]
  split
  · rename_i ts hts
    refine ⟨_, rfl, LogRecord.not_isRejection_of_head? (c := 'i') ?_ (by decide), ?_⟩
    · simp [LogRecord.debug]
    · rw [hts]
      rintro ⟨⟩
  · refine ⟨noTargetRecord s, ?_, not_isRejection_noTargetRecord s, fun _ => ⟨rfl, rfl⟩⟩
    rw [noTargetRecord, LogRecord.debug, String.append_assoc]
    rfl
  · rename_i e he
    refine ⟨_, rfl, LogRecord.not_isRejection_of_head? (c := 'i') ?_ (by decide), ?_⟩
    · simp [LogRecord.debug]
    · rw [he]
      rintro ⟨⟩

/-- A text that is read as a set is one. -/
lemma parse_of_specifiers (h : VersionRange.parse s = .ok (.specifiers written)) :
    SpecifierSet.parse s = .ok written := by
  cases hv : Version.parse s with
  | ok v =>
    rw [VersionRange.parse, hv] at h
    cases h
  | error e =>
    rw [VersionRange.parse, hv] at h
    cases hset : SpecifierSet.parse s with
    | error e' =>
      rw [hset] at h
      cases h
    | ok xs =>
      rw [hset] at h
      cases h
      rfl

lemma clauses_eq_nil_iff_of_narrow (h : written.narrow = .ok narrowed) :
    written.clauses = [] ↔ narrowed.clauses = [] := by
  have hlength := (mapM_eq_ok.mp (SpecifierSet.narrow_eq_ok.mp h)).length_eq
  rw [← List.length_eq_zero_iff, hlength, List.length_eq_zero_iff]

/-- A text that leaves no target is read as its set, and no target satisfies the narrowed one. -/
lemma LeavesNoTarget.targets_eq (h : LeavesNoTarget s written)
    (hnarrow : written.narrow = .ok narrowed) :
    VersionRange.parse s = .ok (.specifiers written) ∧ VersionRange.admitted narrowed = [] ∧
      (VersionRange.specifiers written).targets =
        { value := .ok none, log := VersionRange.rejections written narrowed } := by
  have hwritten : written.isEmpty = false := by simpa [SpecifierSet.isEmpty] using h.nonempty
  have hversion := not_version_of_clauses h.parse hwritten
  have hempty : narrowed.isEmpty = false := by
    simpa [SpecifierSet.isEmpty, ← clauses_eq_nil_iff_of_narrow hnarrow] using h.nonempty
  have hnone : VersionRange.admitted narrowed = [] := by
    have hvalue := h.value
    rw [inferTargets_value, inferred_of_narrow hversion h.parse hnarrow, hempty] at hvalue
    simpa using hvalue
  refine ⟨?_, hnone, ?_⟩
  · rw [parse_of_not_version hversion, h.parse]
    rfl
  · simp [VersionRange.targets, hnarrow, hempty, hnone]

lemma leavesNoTarget_of_admitted (hparse : SpecifierSet.parse s = .ok written)
    (hne : written.clauses ≠ []) (hnarrow : written.narrow = .ok narrowed)
    (hnone : VersionRange.admitted narrowed = []) : LeavesNoTarget s written := by
  refine ⟨hparse, hne, ⟨narrowed, hnarrow⟩, ?_⟩
  have hwritten : written.isEmpty = false := by simpa [SpecifierSet.isEmpty] using hne
  rw [inferTargets_value,
    inferred_of_narrow (not_version_of_clauses hparse hwritten) hparse hnarrow, hnone, ite_self,
    if_pos rfl]

end Log

/-! ### Main statement -/

/-- When clauses leave no target, the log holds a rejection for each target, in ascending order, and
then the record that there is none. Each rejection names its target and the first clause, as it is
written, that the target does not satisfy once it is narrowed. In every other case the log holds no
rejection. -/
theorem inferTargets_log_rejections (s : String) :
    (∀ written, LeavesNoTarget s written → ∃ blamed : Target → Specifier,
      (∀ t, IsFirstRejecting written.clauses t (blamed t)) ∧
      (inferTargets s).log =
        Target.all.map (fun t =>
            ⟨.debug, t.pretty ++ " rejected by `" ++ (blamed t).toText ++ "`"⟩) ++
          [⟨.debug, "requires-python `" ++ s ++ "` admits no supported target"⟩] ∧
      (∀ t, LogRecord.IsRejection
        ⟨.debug, t.pretty ++ " rejected by `" ++ (blamed t).toText ++ "`"⟩) ∧
      ¬ LogRecord.IsRejection
        ⟨.debug, "requires-python `" ++ s ++ "` admits no supported target"⟩) ∧
    ((∀ written, ¬ LeavesNoTarget s written) → ∀ r ∈ (inferTargets s).log, ¬ r.IsRejection) := by
  constructor
  · intro written h
    obtain ⟨narrowed, hnarrow⟩ := h.narrow
    obtain ⟨hrange, hnone, htargets⟩ := h.targets_eq hnarrow
    obtain ⟨blamed, hfirst, hrejections⟩ := VersionRange.exists_rejections_eq hnarrow hnone
    obtain ⟨last, hlog, -, hlast⟩ := log_inferTargets hrange
    obtain ⟨rfl, -⟩ := hlast (by rw [htargets])
    refine ⟨blamed, hfirst, ?_, fun t => LogRecord.isRejection_mk .debug t (blamed t).toText,
      not_isRejection_noTargetRecord s⟩
    rw [hlog, htargets, hrejections, noTargetRecord]
  · intro hnot r hr
    cases hrange : VersionRange.parse s with
    | error e =>
      simp only [inferTargets, hrange, List.mem_singleton] at hr
      subst hr
      apply LogRecord.not_isRejection_of_head? (c := 'i')
      · simp [LogRecord.debug]
      · decide
    | ok range =>
      obtain ⟨last, hlog, hlast, hvalue⟩ := log_inferTargets hrange
      rcases range.log_targets with hnil | ⟨written, narrowed, rfl, hnarrow, hne, -, htargets⟩
      · rw [hlog, hnil, List.nil_append, List.mem_singleton] at hr
        subst hr
        exact hlast
      · -- the clauses leave no target after all
        refine absurd ⟨parse_of_specifiers hrange, ?_, ⟨narrowed, hnarrow⟩, ?_⟩ (hnot written)
        · rwa [Ne, clauses_eq_nil_iff_of_narrow hnarrow]
        · exact (hvalue (by rw [htargets])).2

/-- A patch release as the lower bound of an empty window: it is blamed as it was written for the
targets below it, and the upper bound for the others. A version without a target has no clause to
blame. -/
theorem inferTargets_log_rejections_window :
    (∃ written, LeavesNoTarget ">=3.9.2, <3.9" written) ∧
    (inferTargets ">=3.9.2, <3.9").log =
      ["3.3", "3.4", "3.5", "3.6", "3.7", "3.8"].map
          (fun target => ⟨.debug, target ++ " rejected by `>=3.9.2`"⟩) ++
        ["3.9", "3.10", "3.11", "3.12", "3.13"].map
          (fun target => ⟨.debug, target ++ " rejected by `<3.9`"⟩) ++
        [⟨.debug, "requires-python `>=3.9.2, <3.9` admits no supported target"⟩] ∧
    (∀ written, ¬ LeavesNoTarget "2.7" written) ∧
      ∀ r ∈ (inferTargets "2.7").log, ¬ r.IsRejection := by
  have hparse : SpecifierSet.parse ">=3.9.2, <3.9" = .ok ⟨[
      { operator := .atLeast, operand := .version { release := [3, 9, 2] } },
      { operator := .less, operand := .version { release := [3, 9] } }]⟩ := by decide +kernel
  have hnarrow : SpecifierSet.narrow ⟨[
      { operator := .atLeast, operand := .version { release := [3, 9, 2] } },
      { operator := .less, operand := .version { release := [3, 9] } }]⟩ = .ok ⟨[
      { operator := .atLeast, operand := .version { release := [3, 9] } },
      { operator := .less, operand := .version { release := [3, 9] } }]⟩ := by decide +kernel
  have hadmitted : VersionRange.admitted ⟨[
      { operator := .atLeast, operand := .version { release := [3, 9] } },
      { operator := .less, operand := .version { release := [3, 9] } }]⟩ = [] := by
    rw [VersionRange.admitted, List.filter_eq_nil_iff]
    intro t _ h
    simp only [SpecifierSet.contains, List.all_cons, List.all_nil, Bool.and_true,
      Bool.and_eq_true] at h
    have hlower : Target.py39.minor ≤ t.minor :=
      of_decide_eq_true ((Specifier.contains_atLeast_version t .py39 0).symm.trans h.1)
    have hupper : t.minor < Target.py39.minor :=
      of_decide_eq_true ((Specifier.contains_less_version t .py39 0).symm.trans h.2)
    exact UInt64.not_lt.mpr hlower hupper
  have hleaves : LeavesNoTarget ">=3.9.2, <3.9" _ :=
    leavesNoTarget_of_admitted hparse (by simp) hnarrow hadmitted
  have hversion : ∀ written, ¬ LeavesNoTarget "2.7" written := by
    intro written h
    have hset : (SpecifierSet.parse "2.7").isOk = false := by decide +kernel
    rw [h.parse] at hset
    cases hset
  obtain ⟨blamed, hfirst, hlog, -⟩ := (inferTargets_log_rejections ">=3.9.2, <3.9").1 _ hleaves
  have hblamed : blamed = fun t => if t.minor < 9
      then { operator := .atLeast, operand := .version { release := [3, 9, 2] } }
      else { operator := .less, operand := .version { release := [3, 9] } } := by
    funext t
    apply (hfirst t).unique
    cases t with
    | py33 | py34 | py35 | py36 | py37 | py38 =>
      exact isFirstRejecting_self rfl (Specifier.contains_atLeast_version _ .py39 0)
    | py39 | py310 | py311 | py312 | py313 =>
      exact (isFirstRejecting_self rfl (Specifier.contains_less_version _ .py39 0)).cons rfl
        (Specifier.contains_atLeast_version _ .py39 0)
  refine ⟨⟨_, hleaves⟩, ?_, hversion, (inferTargets_log_rejections "2.7").2 hversion⟩
  rw [hlog, hblamed]
  decide +kernel

end ProjectScope

import Mathlib.Order.Interval.Set.OrdConnected
import ProjectScope.Proofs.Target.Equality

/-!
# Inferred targets without gaps

A bound admits the targets on one side of a version, and an equality at most one target. Of the
release, a wildcard or a compatible release compares the minor number or leaves it open. So what a
narrowed clause admits is an interval in the order of the targets, and so is what all clauses of a set
admit together. Only exclusions can leave a gap.
-/

namespace ProjectScope

namespace Target

variable {t u : Target} {n : UInt64}

/-! ### The order of the targets -/

/-- Targets are ordered by their minor numbers. -/
instance : PartialOrder Target := PartialOrder.lift (·.minor.toNat) fun _ _ h =>
  minor_injective (UInt64.toNat_inj.mp h)

lemma le_iff : t ≤ u ↔ t.minor ≤ u.minor := UInt64.le_iff_toNat_le.symm

/-- The final releases of the targets are in the order of the targets. -/
lemma place_version_mono : Monotone fun t : Target => t.version.place := by
  intro t u h
  rw [← Version.atMost_iff_place_le, Version.atMost, bne_iff_ne, compare_version]
  exact (compares_word t.minor u.minor).ne_gt.mpr h

/-- No minor number between those of two targets is left out. -/
lemma exists_minor_eq (ht : t.minor ≤ n) (hu : n ≤ u.minor) : ∃ b : Target, b.minor = n := by
  have known : ∀ k : Fin 14, 3 ≤ k → ∃ b ∈ all, b.minor.toNat = k := by decide
  have hlower : 3 ≤ t.minor := by cases t <;> decide
  have hupper : u.minor ≤ 13 := by cases u <;> decide
  rw [UInt64.le_iff_toNat_le] at ht hu hlower hupper
  have hlt : n.toNat < 14 := Nat.lt_succ_of_le (hu.trans hupper)
  obtain ⟨b, -, hb⟩ := known ⟨n.toNat, hlt⟩ (hlower.trans ht)
  exact ⟨b, UInt64.toNat_inj.mp hb⟩

end Target

namespace Specifier

variable {x y : Specifier} {v : Version} {shared : ℕ}

/-! ### Clauses -/

/-- The targets that a clause admits. -/
def targets (x : Specifier) : Set Target := {t | x.contains t.version = true}

/-- An interval of places is one of targets. -/
lemma ordConnected_of_place {S : Set Version.Place} (hS : S.OrdConnected)
    (h : ∀ t : Target, x.contains t.version = true ↔ t.version.place ∈ S) :
    x.targets.OrdConnected := by
  have hpreimage : x.targets = Set.preimage (fun t : Target => t.version.place) S := Set.ext h
  rw [hpreimage]
  exact hS.preimage_mono Target.place_version_mono

/-- Against a release a target is compared by its minor number, or by what all targets share. -/
lemma ordConnected_startsWith (segments : List UInt64) :
    {t : Target | t.version.startsWith segments = true}.OrdConnected := by
  constructor
  intro a ha c hc b hb
  rw [Set.mem_ofPred_eq, Version.startsWith_iff] at ha hc ⊢
  intro i hi
  match i with
  | 0 => exact ha 0 hi
  | 1 =>
    have hac : a = c := Target.minor_injective ((ha 1 hi).trans (hc 1 hi).symm)
    obtain rfl : a = b := hb.1.antisymm (hac ▸ hb.2)
    exact ha 1 hi
  | i + 2 => exact ha (i + 2) hi

/-- A clause about a version admits an interval, unless it asks for any other version. -/
lemma ordConnected_version {op : Operator} (hop : op ≠ .notEqual) :
    (targets ⟨op, .version v, shared⟩).OrdConnected := by
  cases op with
  | notEqual => exact absurd rfl hop
  | atLeast =>
    apply ordConnected_of_place (S := Set.Ici v.place) Set.ordConnected_Ici
    intro t
    exact Version.atMost_iff_place_le
  | atMost =>
    apply ordConnected_of_place (S := Set.Iic v.place) Set.ordConnected_Iic
    intro t
    exact Version.atMost_iff_place_le
  | greater =>
    apply ordConnected_of_place (S := Set.Ioi v.place) Set.ordConnected_Ioi
    intro t
    have hplain : t.version.isPostrelease = false := rfl
    simp [contains, hplain, Version.before_iff_place_lt]
  | less =>
    apply ordConnected_of_place (S := Set.Iio v.place) Set.ordConnected_Iio
    intro t
    have hplain : t.version.isPrerelease = false := rfl
    simp [contains, hplain, Version.before_iff_place_lt]
  | equal =>
    apply ordConnected_of_place (S := {v.place}) Set.ordConnected_singleton
    intro t
    simp [contains, Version.matchesExactly, Version.same_iff_place_eq]
  | compatible =>
    have hbound := ordConnected_of_place (x := ⟨.atLeast, .version v, 0⟩) (S := Set.Ici v.place)
      Set.ordConnected_Ici fun t => Version.atMost_iff_place_le
    have hshared := ordConnected_startsWith (v.release.take shared)
    have hboth : targets ⟨.compatible, .version v, shared⟩ =
        targets ⟨.atLeast, .version v, 0⟩ ∩
          {t : Target | t.version.startsWith (v.release.take shared) = true} := by
      ext t
      simp [targets, contains]
    rw [hboth]
    exact hbound.inter hshared
  | arbitrary =>
    have hnone : targets ⟨.arbitrary, .version v, shared⟩ = ∅ := by
      ext t
      simp [targets, contains]
    rw [hnone]
    exact Set.ordConnected_empty

lemma ordConnected_wildcard (epoch : UInt64) (release : List UInt64) :
    (targets ⟨.equal, .wildcard epoch release, shared⟩).OrdConnected := by
  by_cases hepoch : epoch = 0
  · have hstarts : targets ⟨.equal, .wildcard epoch release, shared⟩ =
        {t : Target | t.version.startsWith release = true} := by
      ext t
      simp [targets, contains, hepoch]
    rw [hstarts]
    exact ordConnected_startsWith release
  · have hnone : targets ⟨.equal, .wildcard epoch release, shared⟩ = ∅ := by
      ext t
      simp [targets, contains, Ne.symm hepoch]
    rw [hnone]
    exact Set.ordConnected_empty

/-- A text is that of one target at most. -/
lemma ordConnected_text {op : Operator} (text : String) :
    (targets ⟨op, .text text, shared⟩).OrdConnected := by
  have hread {t : Target} (ht : t ∈ targets ⟨op, .text text, shared⟩) :
      Version.parse text = .ok t.version := by
    apply t.arises_version.parse_of_lower_eq
    simpa [targets, contains] using ht
  constructor
  intro a ha c hc b hb
  have hversion := (hread ha).symm.trans (hread hc)
  have hac : a = c := Target.version_injective (Except.ok.inj hversion)
  obtain rfl : a = b := hb.1.antisymm (hac ▸ hb.2)
  exact ha

/-- A clause that has been read and narrowed admits an interval, unless it is an exclusion. -/
lemma ordConnected_of_narrow {op : Operator} {s : List Char} (shape : OperandShape op s x)
    (hop : x.operator ≠ .notEqual) (hn : x.narrow = .ok y) : y.targets.OrdConnected := by
  cases isNarrowing_of_narrow hn with
  | text => exact ordConnected_text _
  | cut => exact ordConnected_version hop
  | opened => exact ordConnected_version (by decide)
  | kept =>
    cases shape with
    | text => exact ordConnected_text _
    | compatible | version => exact ordConnected_version hop
    | wildcard stem w hequality =>
      cases op with
      | equal => exact ordConnected_wildcard _ _
      | notEqual => exact absurd rfl hop
      | _ => cases hequality

lemma ordConnected_admits {piece : List Char} (hx : Specifier.parse (String.ofList piece) = .ok x)
    (hop : x.operator ≠ .notEqual) : {t | admits t piece = true}.OrdConnected := by
  obtain ⟨op, rest, -, -, -, shape⟩ := exists_operandShape_of_parse hx
  simp only [admits, narrowed_of_parse hx]
  cases hn : x.narrow with
  | error e => simp [Set.ordConnected_empty]
  | ok y => exact ordConnected_of_narrow shape hop hn

end Specifier

/-! ### Main statement -/

/-- Where no clause of a set is an exclusion, the inferred targets have no gaps. -/
theorem mem_inferTargets_of_between {s : String} {xs : SpecifierSet} {ts : Targets} {a c : Target}
    {n : UInt64} (h : SpecifierSet.parse s = .ok xs)
    (hop : ∀ x ∈ xs.clauses, x.operator ≠ .notEqual) (hts : (inferTargets s).value = some ts)
    (ha : a ∈ ts) (hc : c ∈ ts) (han : a.minor < n) (hnc : n < c.minor) :
    ∃ b ∈ ts, b.minor = n := by
  have hinferred : inferred s = ts := by
    rw [inferred, hts]
    rfl
  rw [← hinferred] at ha hc ⊢
  obtain ⟨b, rfl⟩ := Target.exists_minor_eq (UInt64.le_of_lt han) (UInt64.le_of_lt hnc)
  refine ⟨b, ?_, rfl⟩
  by_cases hversion : (Version.parse s).isOk = true
  · -- a version has one target, and nothing lies between
    obtain ⟨v, hv⟩ := exists_of_isOk hversion
    rw [Version.inferred_of_parse hv, Version.targetsOf_eq, Option.mem_toList] at ha hc
    obtain rfl : a = c := Option.mem_unique ha hc
    exact absurd (UInt64.lt_trans han hnc) (UInt64.lt_irrefl _)
  · rw [mem_inferred (by simpa using hversion)] at ha hc ⊢
    refine ⟨ha.1, fun piece hpiece => ?_⟩
    obtain ⟨x, hx, hparse⟩ := exists_of_mapM_eq_ok (SpecifierSet.parse_eq_ok.mp h) hpiece
    have hinterval := Specifier.ordConnected_admits hparse (hop x hx)
    exact hinterval.out (ha.2 piece hpiece) (hc.2 piece hpiece)
      ⟨Target.le_iff.mpr (UInt64.le_of_lt han), Target.le_iff.mpr (UInt64.le_of_lt hnc)⟩

/-- A compatible release with a suffix, a patch release as a lower bound, a pre-release as an upper one
and a wildcard admit 3.5 to 3.11, and so 3.9. -/
theorem mem_inferTargets_of_between_py39 :
    ∃ ts, (inferTargets "~=3.5.post1, >3.4.2,, <3.12rc1, ==3.*").value = some ts ∧
      ∃ b ∈ ts, b.minor = 9 := by
  have written : SpecifierSet.parse "~=3.5.post1, >3.4.2,, <3.12rc1, ==3.*" = .ok ⟨[
      ⟨.compatible, .version { release := [3, 5], post := some 1 }, 1⟩,
      ⟨.greater, .version { release := [3, 4, 2] }, 0⟩,
      ⟨.less, .version { release := [3, 12], pre := some (.candidate, 1) }, 0⟩,
      ⟨.equal, .wildcard 0 [3], 0⟩]⟩ := by decide +kernel
  have narrowed : SpecifierSet.narrow ⟨[
      ⟨.compatible, .version { release := [3, 5], post := some 1 }, 1⟩,
      ⟨.greater, .version { release := [3, 4, 2] }, 0⟩,
      ⟨.less, .version { release := [3, 12], pre := some (.candidate, 1) }, 0⟩,
      ⟨.equal, .wildcard 0 [3], 0⟩]⟩ = .ok ⟨[
      ⟨.compatible, .version { release := [3, 5] }, 1⟩,
      ⟨.atLeast, .version { release := [3, 4] }, 0⟩,
      ⟨.less, .version { release := [3, 12], pre := some (.candidate, 1) }, 0⟩,
      ⟨.equal, .wildcard 0 [3], 0⟩]⟩ := by decide +kernel
  have admits : ∀ t ∈ [Target.py35, Target.py311], SpecifierSet.contains ⟨[
      ⟨.compatible, .version { release := [3, 5] }, 1⟩,
      ⟨.atLeast, .version { release := [3, 4] }, 0⟩,
      ⟨.less, .version { release := [3, 12], pre := some (.candidate, 1) }, 0⟩,
      ⟨.equal, .wildcard 0 [3], 0⟩]⟩ t.version = true := by
    simp only [List.forall_mem_cons, SpecifierSet.contains, List.all_cons, Specifier.contains,
      Version.atMost, Version.before, Version.compare, Version.sameBase, Version.withoutLocal,
      Target.version, Version.ofRelease, List.isEmpty_cons, Bool.false_eq_true, if_false,
      compareRelease]
    decide
  obtain ⟨ts, value, low⟩ :=
    exists_value_of_narrow written rfl narrowed rfl (admits .py35 (by simp))
  obtain ⟨us, value', high⟩ :=
    exists_value_of_narrow written rfl narrowed rfl (admits .py311 (by simp))
  obtain rfl : ts = us := Option.some.inj (value.symm.trans value')
  exact ⟨ts, value, mem_inferTargets_of_between written (by decide) value low high (by decide)
    (by decide)⟩

/-- An exclusion leaves a gap. -/
example : (inferTargets "!=3.9.*").value =
    some [.py33, .py34, .py35, .py36, .py37, .py38, .py310, .py311, .py312, .py313] := by
  decide +kernel

end ProjectScope

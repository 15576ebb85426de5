import Mathlib.Tactic.Common
import ProjectScope.Proofs.Target.Inference
import ProjectScope.Proofs.Version.RoundTrip
import ProjectScope.Proofs.Version.TotalOrder

/-!
# Clauses and the minor versions they admit

Narrowing forgets patch releases only: where a narrowed clause admits a target, the clause as it is
written admits some version of that minor version. The exception is a text after `===`, which is
read as a version to be narrowed but is compared as a text, so that it admits nothing when it is
spelled otherwise than a version is printed.
-/

namespace ProjectScope

/-! ### Later releases -/

lemma compareRelease_append_one (r : List UInt64) : compareRelease r (r ++ [1]) = .lt := by
  induction r with
  | nil => simp [compareRelease]; rfl
  | cons a r ih => rw [List.cons_append, compareRelease, compare_self_word, ih]; rfl

namespace Version

variable {v w : Version} {t : Target}

/-- Of two versions of one epoch, the one with the earlier release comes first. -/
lemma before_of_release (hepoch : v.epoch = w.epoch)
    (h : compareRelease v.release w.release = .lt) : v.before w = true := by
  obtain ⟨o, ho⟩ := compare_eq_then v w
  rw [before, ho, hepoch, compare_self_word, h]
  rfl

/-! ### Versions of a minor version -/

/-- The final release of an epoch with the given segments. -/
def final (epoch : UInt64) (release : List UInt64) : Version := { epoch, release }

lemma arises_final {epoch : UInt64} {release : List UInt64} (h : release ≠ []) :
    (final epoch release).Arises :=
  IsPrintable.arises ⟨h, by simp [final]⟩

lemma prefix_of_segments (hmajor : v.major = 3) (hminor : v.segment 1 = t.minor) :
    [3, t.minor] <+: v.release := by
  have positive : t.minor ≠ 0 := by cases t <;> decide
  rw [major, segment] at hmajor
  rw [segment] at hminor
  rcases hr : v.release with _ | ⟨a, _ | ⟨b, r⟩⟩ <;> rw [hr] at hmajor hminor
  · cases hmajor
  · exact absurd hminor.symm positive
  · obtain rfl : a = 3 := hmajor
    obtain rfl : b = t.minor := hminor
    exact ⟨r, rfl⟩

/-- The minor version of a version is that of a target when the first two segments are. -/
lemma minorOf_eq_version_iff : v.minorOf = t.version ↔ v.major = 3 ∧ v.segment 1 = t.minor := by
  simp [minorOf, Target.version, ofRelease]

lemma prefix_of_minorOf_eq (h : v.minorOf = t.version) : [3, t.minor] <+: v.release := by
  obtain ⟨hmajor, hminor⟩ := minorOf_eq_version_iff.mp h
  exact prefix_of_segments hmajor hminor

/-- A version whose minor version is not after a target belongs to the target, or is before its
final release in every epoch. -/
lemma prefix_or_before_of_minorOf (h : v.minorOf.atMost t.version = true) :
    [3, t.minor] <+: v.release ∨ v.before (final v.epoch [3, t.minor]) = true := by
  rw [atMost, bne_iff_ne, minorOf, Target.version, compare_ofRelease (by simp) (by simp)] at h
  cases hc : compareRelease [v.major, v.segment 1] [3, t.minor] with
  | lt =>
    refine .inr (before_of_release rfl ?_)
    have hfirst : compareRelease [v.release[0]?.getD 0, v.release[1]?.getD 0] [3, t.minor] = .lt := hc
    rw [final, compareRelease_eq_then_drop_two, hfirst]
    rfl
  | eq => exact .inl (prefix_of_segments (getD_eq_of_compareRelease_eq hc 0)
      (getD_eq_of_compareRelease_eq hc 1))
  | gt => exact absurd hc h

lemma arises_of_readVersion {s : List Char} (h : Specifier.readVersion s = .ok v) : v.Arises := by
  rw [Specifier.readVersion, mapError_eq_ok] at h
  exact .of_ofText h

lemma withoutLocal_eq_self (h : v.isLocal = false) : v.withoutLocal = v := by
  obtain ⟨epoch, release, pre, post, dev, label⟩ := v
  have hlabel : label = [] := by simpa [isLocal] using h
  subst hlabel
  rfl

lemma matchesExactly_self (v : Version) : v.matchesExactly v = true := by
  rw [matchesExactly]
  split_ifs with h
  · exact same_self v
  · rw [withoutLocal_eq_self (by simpa using h)]
    exact same_self v

lemma startsWith_take (v : Version) (n : ℕ) : v.startsWith (v.release.take n) = true := by
  rw [startsWith_iff]
  intro i hi
  have hlt : i < v.release.length := by
    rw [List.length_take] at hi
    omega
  rw [segment, List.getElem?_eq_getElem hlt, List.getElem_take]
  rfl

end Version

namespace Specifier

variable {x y : Specifier} {t : Target} {v : Version}

/-- Whether a clause, as it is written, admits a version of the minor version of a target. -/
def AdmitsMinor (x : Specifier) (t : Target) : Prop :=
  ∃ c : Version, c.Arises ∧ [3, t.minor] <+: c.release ∧ x.contains c = true

/-! ### Clauses about versions -/

lemma admitsMinor_of_contains (h : x.contains t.version = true) : x.AdmitsMinor t :=
  ⟨t.version, .release [3, t.minor], ⟨[], rfl⟩, h⟩

lemma admitsMinor_atLeast {shared : ℕ} (hv : v.Arises) (hlocal : v.isLocal = false)
    (h : v.minorOf.atMost t.version = true) :
    AdmitsMinor ⟨.atLeast, .version v, shared⟩ t := by
  rcases Version.prefix_or_before_of_minorOf h with hprefix | hbefore
  · refine ⟨v, hv, hprefix, ?_⟩
    simp only [contains, Version.withoutLocal_eq_self hlocal]
    exact v.atMost_self
  · exact ⟨_, Version.arises_final (by simp), ⟨[], rfl⟩, Version.atMost_of_before hbefore⟩

/-- A later patch release, or the final release of the minor version, is after the version that a
clause names. -/
lemma admitsMinor_greater {shared : ℕ} (h : v.minorOf.atMost t.version = true) :
    AdmitsMinor ⟨.greater, .version v, shared⟩ t := by
  -- a final release that is after the version satisfies the clause
  have satisfied {release : List UInt64}
      (hbefore : v.before (Version.final v.epoch release) = true) :
      contains ⟨.greater, .version v, shared⟩
        (Version.final v.epoch release) = true := by
    have hplain : (Version.final v.epoch release).isPostrelease = false := rfl
    have hpublic : (Version.final v.epoch release).withoutLocal = Version.final v.epoch release :=
      rfl
    simp [contains, hpublic, hbefore, hplain]
  rcases Version.prefix_or_before_of_minorOf h with hprefix | hbefore
  · refine ⟨.final v.epoch (v.release ++ [1]), Version.arises_final (by simp),
      hprefix.trans (List.prefix_append _ _), satisfied ?_⟩
    exact Version.before_of_release rfl (compareRelease_append_one v.release)
  · exact ⟨_, Version.arises_final (by simp), ⟨[], rfl⟩, satisfied hbefore⟩

/-- A narrowed equality asks for the minor version. -/
lemma contains_equal_minorOf {shared : ℕ} :
    contains ⟨.equal, .version v.minorOf, shared⟩ t.version = true ↔ v.minorOf = t.version := by
  have hlocal : v.minorOf.isLocal = false := rfl
  simp only [contains, Version.matchesExactly, hlocal, Bool.false_eq_true, if_false,
    Target.withoutLocal_version]
  constructor
  · intro h
    show v.minorOf.minorOf = t.version
    exact Version.minorOf_eq_of_same h
  · intro h
    rw [h]
    exact t.version.same_self

lemma admitsMinor_equal {shared shared' : ℕ} (hv : v.Arises)
    (h : contains ⟨.equal, .version v.minorOf, shared'⟩ t.version = true) :
    AdmitsMinor ⟨.equal, .version v, shared⟩ t := by
  have hminor : v.minorOf = t.version := contains_equal_minorOf.mp h
  exact ⟨v, hv, Version.prefix_of_minorOf_eq hminor, v.matchesExactly_self⟩

/-- A clause with three segments and more pins the minor version; one with two leaves it open
upwards. -/
lemma admitsMinor_compatible (hv : v.Arises) (hlocal : v.isLocal = false)
    (hlen : 2 ≤ v.release.length)
    (h : contains ⟨.compatible, .version v.minorOf, min (v.release.length - 1) 2⟩ t.version = true) :
    AdmitsMinor ⟨.compatible, .version v, v.release.length - 1⟩ t := by
  simp only [contains, Bool.and_eq_true, Target.withoutLocal_version] at h
  obtain ⟨hatMost, hstarts⟩ := h
  rw [Version.startsWith_iff] at hstarts
  have hself : contains ⟨.compatible, .version v, v.release.length - 1⟩ v = true := by
    simp only [contains, Version.withoutLocal_eq_self hlocal, v.atMost_self, v.startsWith_take,
      Bool.and_self]
  have hshared : (v.minorOf.release.take (min (v.release.length - 1) 2)).length =
      min (v.release.length - 1) 2 := by
    rw [List.length_take]
    exact Nat.min_eq_left (Nat.min_le_right _ _)
  have hmajor : v.major = 3 := by
    have hzero := hstarts 0 (by omega)
    rw [List.getElem_take] at hzero
    exact hzero.symm
  by_cases htwo : v.release.length = 2
  · rcases Version.prefix_or_before_of_minorOf hatMost with hprefix | hbefore
    · exact ⟨v, hv, hprefix, hself⟩
    · refine ⟨.final v.epoch [3, t.minor], Version.arises_final (by simp), ⟨[], rfl⟩, ?_⟩
      simp only [contains, Bool.and_eq_true]
      refine ⟨Version.atMost_of_before hbefore, Version.startsWith_iff.mpr fun i hi => ?_⟩
      rw [List.length_take] at hi
      obtain rfl : i = 0 := by omega
      rw [Version.major, Version.segment, List.getElem?_eq_getElem (by omega)] at hmajor
      rw [List.getElem_take]
      exact hmajor.symm
  · have hone := hstarts 1 (by omega)
    rw [List.getElem_take] at hone
    exact ⟨v, hv, Version.prefix_of_segments hmajor hone.symm, hself⟩

/-- A clause that is read and narrowed to one that admits a target admits a version of its minor
version, unless it is a text. -/
lemma admitsMinor_of_narrow {op : Operator} {s : List Char} (shape : OperandShape op s x)
    (hop : x.operator ≠ .arbitrary) (hn : x.narrow = .ok y) (hy : y.contains t.version = true) :
    x.AdmitsMinor t := by
  cases shape with
  | text h => exact absurd h hop
  | wildcard stem v =>
    cases hn
    exact admitsMinor_of_contains hy
  | compatible v h hs hv hlocal hlen =>
    subst h
    cases hn
    exact admitsMinor_compatible (Version.arises_of_readVersion hv) hlocal hlen hy
  | version v h h' hs hv hlocal =>
    have arises := Version.arises_of_readVersion hv
    cases op with
    | arbitrary => exact absurd rfl h
    | compatible => exact absurd rfl h'
    | equal =>
      cases hn
      exact admitsMinor_equal arises hy
    | atLeast =>
      cases hn
      have plain : v.isLocal = false := by simpa [Operator.isEquality] using hlocal
      exact admitsMinor_atLeast arises plain (by simpa [contains] using hy)
    | greater =>
      by_cases hlen : v.release.length > 2
      · simp only [narrow, hlen, if_true] at hn
        cases hn
        exact admitsMinor_greater (by simpa [contains] using hy)
      · simp only [narrow, hlen, if_false] at hn
        cases hn
        exact admitsMinor_of_contains hy
    | notEqual | atMost | less =>
      cases hn
      exact admitsMinor_of_contains hy

/-! ### Texts -/

section Text

variable {text : String} {shared : ℕ} {c : Version}

/-- As it is written, a text admits the version that it is read as, and this only when it is spelled
as the version is printed. -/
lemma contains_text_iff (hv : Version.parse text = .ok v) (hc : c.Arises) :
    contains ⟨.arbitrary, .text text, shared⟩ c = true ↔
      c = v ∧ Text.lower v.render = Text.lower text.toList := by
  rw [contains, beq_iff_eq]
  constructor
  · intro h
    have hread := hc.parse_of_lower_eq h
    rw [hv] at hread
    obtain rfl : v = c := Except.ok.inj hread
    exact ⟨rfl, h⟩
  · rintro ⟨rfl, h⟩
    exact h

/-- A narrowed text asks for the minor version. -/
lemma contains_text_minorOf :
    contains ⟨.arbitrary, .text v.minorOf.toText, shared⟩ t.version = true ↔
      v.minorOf = t.version := by
  have arises : v.minorOf.Arises := .release _
  rw [contains_text_iff arises.parse_toText t.arises_version, eq_comm, Version.toText,
    String.toList_ofList, and_iff_left rfl]

/-- A text that can be narrowed is read as a version, and to one of the target that the narrowed
text admits. -/
lemma exists_parse_of_narrow (hn : narrow ⟨.arbitrary, .text text, shared⟩ = .ok y)
    (hy : y.contains t.version = true) :
    ∃ v, Version.parse text = .ok v ∧ [3, t.minor] <+: v.release := by
  obtain ⟨v, hv, hn⟩ := bind_eq_ok.mp hn
  cases hn
  exact ⟨v, hv, Version.prefix_of_minorOf_eq (contains_text_minorOf.mp hy)⟩

end Text

end Specifier

/-! ### Main statement -/

/-- A target is inferred only where every clause of the set admits it once it is narrowed. -/
lemma exists_narrow_of_mem_inferTargets {s : String} {xs : SpecifierSet} {ts : Targets}
    {t : Target} {x : Specifier} (h : SpecifierSet.parse s = .ok xs)
    (hts : (inferTargets s).value = some ts) (ht : t ∈ ts) (hx : x ∈ xs.clauses) :
    ∃ op rest y, Specifier.OperandShape op rest x ∧ x.narrow = .ok y ∧
      y.contains t.version = true := by
  have hxs : xs.isEmpty = false := by
    rw [SpecifierSet.isEmpty, List.isEmpty_eq_false_iff]
    exact List.ne_nil_of_mem hx
  have hmem : t ∈ inferred s := by
    rw [inferred, hts]
    exact ht
  obtain ⟨piece, hpiece, hparse⟩ := exists_of_mem_mapM (SpecifierSet.parse_eq_ok.mp h) hx
  have hadmits := ((mem_inferred (not_version_of_clauses h hxs)).mp hmem).2 piece hpiece
  obtain ⟨op, rest, -, -, -, shape⟩ := Specifier.exists_operandShape_of_parse hparse
  rw [Specifier.admits, Specifier.narrowed_of_parse hparse] at hadmits
  cases hn : x.narrow with
  | error e =>
    rw [hn] at hadmits
    cases hadmits
  | ok y =>
    rw [hn] at hadmits
    exact ⟨op, _, y, shape, rfl, hadmits⟩

/-- Inference adds no target that a clause rules out: whatever the operator, the clause as it is
written admits a version of the minor version. A text after `===` is read as a version of the minor
version; the clause admits no other version, and this one exactly when the text is, up to the case
of letters, what is printed of it. -/
theorem admitsMinor_of_mem_inferTargets {s : String} {xs : SpecifierSet} {ts : Targets}
    {t : Target} {x : Specifier} (h : SpecifierSet.parse s = .ok xs)
    (hts : (inferTargets s).value = some ts) (ht : t ∈ ts) (hx : x ∈ xs.clauses) :
    (x.operator ≠ .arbitrary → x.AdmitsMinor t) ∧
      (x.operator = .arbitrary →
        ∃ text v, x.operand = .text text ∧ Version.parse text = .ok v ∧
          [3, t.minor] <+: v.release ∧
          (∀ c : Version, c.Arises → x.contains c = true → c = v) ∧
          (x.AdmitsMinor t ↔ Text.lower v.render = Text.lower text.toList)) := by
  obtain ⟨op, rest, y, shape, hn, hy⟩ := exists_narrow_of_mem_inferTargets h hts ht hx
  refine ⟨fun hop => Specifier.admitsMinor_of_narrow shape hop hn hy, fun hop => ?_⟩
  cases shape with
  | text hop =>
    subst hop
    obtain ⟨v, hv, hprefix⟩ := Specifier.exists_parse_of_narrow hn hy
    refine ⟨_, v, rfl, hv, hprefix, fun c hc hcontains => ?_, ?_, fun hspelled => ?_⟩
    · exact ((Specifier.contains_text_iff hv hc).mp hcontains).1
    · rintro ⟨c, hc, -, hcontains⟩
      exact ((Specifier.contains_text_iff hv hc).mp hcontains).2
    · exact ⟨v, .read hv, hprefix, (Specifier.contains_text_iff hv (.read hv)).mpr ⟨rfl, hspelled⟩⟩
  | wildcard stem v hequality =>
    subst hop
    cases hequality
  | compatible v hcompatible =>
    subst hop
    cases hcompatible
  | version v harbitrary => exact absurd hop harbitrary

lemma exists_value_of_narrow {s : String} {xs ys : SpecifierSet} {t : Target}
    (hxs : SpecifierSet.parse s = .ok xs) (hne : xs.isEmpty = false) (hys : xs.narrow = .ok ys)
    (hys' : ys.isEmpty = false) (ht : ys.contains t.version = true) :
    ∃ ts, (inferTargets s).value = some ts ∧ t ∈ ts := by
  apply exists_value_of_mem
  rw [inferred_of_narrow (not_version_of_clauses hxs hne) hxs hys, hys']
  exact List.mem_filter.mpr ⟨t.mem_all, ht⟩

/-- The greatest patch release as a bound, a pre-release in an epoch and a text in capitals are all
narrowed to the minor version 3.8, and they all admit a version of it. -/
theorem admitsMinor_of_mem_inferTargets_py38 :
    Specifier.AdmitsMinor ⟨.greater, .version { release := [3, 8, 18446744073709551615] }, 0⟩
        .py38 ∧
      Specifier.AdmitsMinor ⟨.compatible,
        .version { epoch := 1, release := [3, 8, 1], pre := some (.alpha, 1) }, 2⟩ .py38 ∧
      Specifier.AdmitsMinor ⟨.arbitrary, .text "3.8.1RC2", 0⟩ .py38 := by
  have written : SpecifierSet.parse ">3.8.18446744073709551615, ~=1!3.8.1a1, ===3.8.1RC2" = .ok ⟨[
      ⟨.greater, .version { release := [3, 8, 18446744073709551615] }, 0⟩,
      ⟨.compatible, .version { epoch := 1, release := [3, 8, 1], pre := some (.alpha, 1) }, 2⟩,
      ⟨.arbitrary, .text "3.8.1RC2", 0⟩]⟩ := by decide +kernel
  have narrowed : SpecifierSet.narrow ⟨[
      ⟨.greater, .version { release := [3, 8, 18446744073709551615] }, 0⟩,
      ⟨.compatible, .version { epoch := 1, release := [3, 8, 1], pre := some (.alpha, 1) }, 2⟩,
      ⟨.arbitrary, .text "3.8.1RC2", 0⟩]⟩ = .ok ⟨[
      ⟨.atLeast, .version Target.py38.version, 0⟩,
      ⟨.compatible, .version Target.py38.version, 2⟩,
      ⟨.arbitrary, .text "3.8", 0⟩]⟩ := by decide +kernel
  obtain ⟨ts, value, mem⟩ : ∃ ts,
      (inferTargets ">3.8.18446744073709551615, ~=1!3.8.1a1, ===3.8.1RC2").value = some ts ∧
        Target.py38 ∈ ts := by
    refine exists_value_of_narrow written rfl narrowed rfl ?_
    simp only [SpecifierSet.contains, Specifier.contains, Target.withoutLocal_version,
      Version.atMost_self, List.all_cons, Bool.true_and]
    decide +kernel
  obtain ⟨hgreater, -⟩ := admitsMinor_of_mem_inferTargets written value mem List.mem_cons_self
  obtain ⟨hcompatible, -⟩ := admitsMinor_of_mem_inferTargets written value mem
    (List.mem_cons_of_mem _ List.mem_cons_self)
  obtain ⟨-, htext⟩ := admitsMinor_of_mem_inferTargets written value mem
    (List.mem_cons_of_mem _ (List.mem_cons_of_mem _ List.mem_cons_self))
  refine ⟨hgreater (by decide), hcompatible (by decide), ?_⟩
  obtain ⟨text, v, htext, hv, -, -, hiff⟩ := htext rfl
  cases htext
  have hread : Version.parse "3.8.1RC2" =
      .ok { release := [3, 8, 1], pre := some (.candidate, 2) } := by decide +kernel
  rw [hread] at hv
  cases hv
  exact hiff.mpr (by decide +kernel)

/-- A text with a mark in front is narrowed as the version 3.8, though no version is printed so and
the clause admits none. -/
theorem not_admitsMinor_marked :
    SpecifierSet.parse "===v3.8" = .ok ⟨[⟨.arbitrary, .text "v3.8", 0⟩]⟩ ∧
      (inferTargets "===v3.8").value = some [.py38] ∧
      ¬ Specifier.AdmitsMinor ⟨.arbitrary, .text "v3.8", 0⟩ .py38 := by
  have hread : Version.parse "v3.8" = .ok { release := [3, 8] } := by decide +kernel
  refine ⟨by decide +kernel, by decide +kernel, ?_⟩
  rintro ⟨c, hc, -, hcontains⟩
  have hspelled := ((Specifier.contains_text_iff hread hc).mp hcontains).2
  exact absurd hspelled (by decide +kernel)

end ProjectScope

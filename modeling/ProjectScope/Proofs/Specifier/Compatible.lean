import ProjectScope.Proofs.Specifier.Wildcard

/-!
# Compatible releases

A clause `~=3.8.1` stands for the two clauses `>=3.8.1` and `==3.8.*`: a lower bound, and a wildcard
for the release without its last segment. It looks at the release of a candidate only, where the
wildcard looks at the epoch as well. So it admits what the two clauses admit in the epochs up to its
own, and in every later epoch it admits the releases that start alike, which the wildcard rules out.
-/

namespace ProjectScope

namespace Version

variable {v w : Version}

/-- A version of an earlier epoch is not after one of a later epoch. -/
lemma atMost_of_epoch_lt (h : v.epoch < w.epoch) : v.atMost w = true := by
  obtain ⟨o, ho⟩ := compare_eq_then v w
  rw [atMost, ho, Std.compare_eq_lt.mpr h]
  rfl

/-- A version is not after another one only where its epoch is not. -/
lemma epoch_le_of_atMost (h : v.atMost w = true) : v.epoch ≤ w.epoch := by
  obtain ⟨o, ho⟩ := compare_eq_then v w
  rw [← UInt64.not_lt]
  intro hlt
  rw [atMost, ho, Std.compare_eq_gt.mpr hlt] at h
  cases h

end Version

namespace Specifier

variable {v c : Version}

/-! ### The two clauses that a compatible release stands for -/

/-- The lower bound of a compatible release. -/
def lowerBound (v : Version) : Specifier := { operator := .atLeast, operand := .version v }

/-- The wildcard for the release without its last segment. -/
def siblings (v : Version) : Specifier :=
  { operator := .equal, operand := .wildcard v.epoch v.release.dropLast }

lemma parse_lowerBound (hv : v.IsPrintable) (hlocal : v.isLocal = false) :
    Specifier.parse (">=" ++ v.toText) = .ok (lowerBound v) := by
  have htext : (lowerBound v).toText = ">=" ++ v.toText := toText_eq _
  rw [← htext]
  exact parse_toText_version .atLeast hv (by decide) (by decide) (by simp [hlocal])

lemma parse_siblings (hlen : 2 ≤ v.release.length) :
    Specifier.parse ("==" ++ Version.toText { epoch := v.epoch, release := v.release.dropLast } ++
      ".*") = .ok (siblings v) := by
  have hne : v.release.dropLast ≠ [] := by
    rw [← List.length_pos_iff, List.length_dropLast]
    omega
  have hv : Version.IsPrintable { epoch := v.epoch, release := v.release.dropLast } :=
    ⟨hne, by simp⟩
  exact parse_wildcard .equal rfl hv.inGrammar_render (readVersion_render hv)

/-! ### What they admit -/

lemma contains_siblings (v c : Version) : (siblings v).contains c = true ↔
    c.epoch = v.epoch ∧ c.startsWith v.release.dropLast = true :=
  contains_equal_wildcard c

/-- A compatible release is a lower bound, and compares all segments but the last one. -/
lemma contains_compatible (v c : Version) :
    contains ⟨.compatible, .version v, v.release.length - 1⟩ c = true ↔
      (lowerBound v).contains c = true ∧ c.startsWith v.release.dropLast = true := by
  simp [contains, lowerBound, List.dropLast_eq_take]

/-! ### Main statement -/

/-- A clause `~=V` admits what `>=V` and `==P.*` admit together, where `P` is the epoch and the release
of `V` without its last segment, in the epochs up to that of `V`. In a later epoch it admits every
version whose release starts as `P` does, and the wildcard admits none. -/
theorem contains_compatible_iff {t : String} {x : Specifier} (h : Specifier.parse t = .ok x)
    (hop : x.operator = .compatible) :
    ∃ v y z, x.operand = .version v ∧ Specifier.parse (">=" ++ v.toText) = .ok y ∧
      Specifier.parse ("==" ++ Version.toText { epoch := v.epoch, release := v.release.dropLast } ++
        ".*") = .ok z ∧
      ∀ c : Version,
        (c.epoch ≤ v.epoch →
          (x.contains c = true ↔ y.contains c = true ∧ z.contains c = true)) ∧
        (v.epoch < c.epoch → y.contains c = true ∧ z.contains c = false ∧
          (x.contains c = true ↔ c.startsWith v.release.dropLast = true)) := by
  obtain ⟨op, rest, -, -, -, shape⟩ := exists_operandShape_of_parse h
  obtain ⟨v, rfl, hv, hlocal, hlen⟩ := exists_version_of_compatible shape hop
  refine ⟨v, lowerBound v, siblings v, rfl,
    parse_lowerBound (isPrintable_of_readVersion hv) hlocal, parse_siblings hlen, fun c => ?_⟩
  rw [contains_compatible]
  constructor
  · intro hepoch
    rw [contains_siblings]
    constructor
    · rintro ⟨hbound, hstarts⟩
      have hlow : v.epoch ≤ c.withoutLocal.epoch := Version.epoch_le_of_atMost hbound
      exact ⟨hbound, UInt64.le_antisymm hepoch hlow, hstarts⟩
    · rintro ⟨hbound, -, hstarts⟩
      exact ⟨hbound, hstarts⟩
  · intro hepoch
    have hbound : (lowerBound v).contains c = true := Version.atMost_of_epoch_lt hepoch
    refine ⟨hbound, ?_, and_iff_right hbound⟩
    rw [← Bool.not_eq_true, contains_siblings]
    rintro ⟨hsame, -⟩
    rw [hsame] at hepoch
    exact UInt64.lt_irrefl _ hepoch

/-- A pre-release in an epoch, with zeros at the end of its release, against candidates of the
epoch and of a later one. -/
theorem contains_compatible_iff_zeros :
    ∃ x y z, Specifier.parse " ~= 1!3.8.0rc1" = .ok x ∧ Specifier.parse ">=1!3.8.0rc1" = .ok y ∧
      Specifier.parse "==1!3.8.*" = .ok z ∧ x.operator = .compatible ∧
      (∀ c : Version, c.epoch ≤ 1 →
        (x.contains c = true ↔ y.contains c = true ∧ z.contains c = true)) ∧
      ∀ c : Version, 1 < c.epoch → z.contains c = false ∧
        (x.contains c = true ↔ c.startsWith [3, 8] = true) := by
  have written : Specifier.parse " ~= 1!3.8.0rc1" = .ok ⟨.compatible,
      .version { epoch := 1, release := [3, 8, 0], pre := some (.candidate, 1) }, 2⟩ := by
    decide +kernel
  obtain ⟨v, y, z, hv, hy, hz, hadmits⟩ := contains_compatible_iff written rfl
  cases hv
  refine ⟨_, y, z, written, ?_, ?_, rfl, fun c => (hadmits c).1, fun c hc => ((hadmits c).2 hc).2⟩
  · rw [← hy]
    exact congrArg Specifier.parse (by decide +kernel)
  · rw [← hz]
    exact congrArg Specifier.parse (by decide +kernel)

/-- A release of a later epoch is admitted, though the wildcard rules it out. -/
theorem contains_compatible_later_epoch :
    ∃ x y z c, Specifier.parse "~=3.8" = .ok x ∧ Specifier.parse ">=3.8" = .ok y ∧
      Specifier.parse "==3.*" = .ok z ∧ Version.parse "1!3.9" = .ok c ∧
      x.contains c = true ∧ ¬(y.contains c = true ∧ z.contains c = true) := by
  refine ⟨⟨.compatible, .version { release := [3, 8] }, 1⟩,
    ⟨.atLeast, .version { release := [3, 8] }, 0⟩, ⟨.equal, .wildcard 0 [3], 0⟩,
    { epoch := 1, release := [3, 9] }, ?_⟩
  decide +kernel

end Specifier

end ProjectScope

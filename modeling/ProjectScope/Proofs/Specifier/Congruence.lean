import ProjectScope.Proofs.Specifier.Idempotence

/-!
# Equal clauses admit equal versions

A clause looks at a candidate, and at the version that it names, through the order of versions and
through what equal versions have in common: epoch, segments, suffixes and local label. The segments
that a `~=` clause shares are counted on its release as it is written, but it writes all of them. So
`3.8` and `3.8.0` are interchangeable, as bounds and as candidates.
-/

namespace ProjectScope

namespace Version

variable {v v' w w' : Version}

/-! ### What equal versions have in common -/

lemma same_iff : v.same w = true ↔
    v.epoch = w.epoch ∧ significant v.release = significant w.release ∧ v.pre = w.pre ∧
      v.post = w.post ∧ v.dev = w.dev ∧ v.label = w.label :=
  same_iff_place_eq.trans place_inj

lemma same_withoutLocal (h : v.same w = true) : v.withoutLocal.same w.withoutLocal = true := by
  obtain ⟨hepoch, hrelease, hpre, hpost, hdev, -⟩ := same_iff.mp h
  exact same_iff.mpr ⟨hepoch, hrelease, hpre, hpost, hdev, rfl⟩

lemma isPrerelease_eq_of_same (h : v.same w = true) : v.isPrerelease = w.isPrerelease := by
  obtain ⟨-, -, hpre, -, hdev, -⟩ := same_iff.mp h
  rw [isPrerelease, isPrerelease, hpre, hdev]

lemma isPostrelease_eq_of_same (h : v.same w = true) : v.isPostrelease = w.isPostrelease := by
  obtain ⟨-, -, -, hpost, -⟩ := same_iff.mp h
  rw [isPostrelease, isPostrelease, hpost]

lemma isLocal_eq_of_same (h : v.same w = true) : v.isLocal = w.isLocal := by
  obtain ⟨-, -, -, -, -, hlabel⟩ := same_iff.mp h
  rw [isLocal, isLocal, hlabel]

lemma startsWith_eq_of_same (h : v.same w = true) (segments : List UInt64) :
    v.startsWith segments = w.startsWith segments := by
  have hsegment : v.segment = w.segment := funext (eq_of_same h).2
  rw [startsWith, startsWith, hsegment]

/-- The segments that both write are the same. -/
lemma take_release_eq_of_same {n : ℕ} (h : v.same w = true) (hv : n ≤ v.release.length)
    (hw : n ≤ w.release.length) : v.release.take n = w.release.take n := by
  apply List.ext_getElem
  · rw [List.length_take, List.length_take, Nat.min_eq_left hv, Nat.min_eq_left hw]
  · intro i hiv hiw
    have hi : i < n := (List.length_take ▸ hiv).trans_le (Nat.min_le_left _ _)
    have hsegment := (eq_of_same h).2 i
    rw [segment, segment, List.getElem?_eq_getElem (hi.trans_le hv),
      List.getElem?_eq_getElem (hi.trans_le hw)] at hsegment
    rw [List.getElem_take, List.getElem_take]
    exact hsegment

/-! ### Comparisons -/

lemma atMost_congr (h : v.same v' = true) (h' : w.same w' = true) : v.atMost w = v'.atMost w' := by
  rw [Bool.eq_iff_iff, atMost_iff_place_le, atMost_iff_place_le, same_iff_place_eq.mp h,
    same_iff_place_eq.mp h']

lemma before_congr (h : v.same v' = true) (h' : w.same w' = true) : v.before w = v'.before w' := by
  rw [Bool.eq_iff_iff, before_iff_place_lt, before_iff_place_lt, same_iff_place_eq.mp h,
    same_iff_place_eq.mp h']

lemma same_congr (h : v.same v' = true) (h' : w.same w' = true) : v.same w = v'.same w' := by
  rw [Bool.eq_iff_iff, same_iff_place_eq, same_iff_place_eq, same_iff_place_eq.mp h,
    same_iff_place_eq.mp h']

lemma sameBase_iff :
    v.sameBase w = true ↔ v.epoch = w.epoch ∧ significant v.release = significant w.release := by
  rw [sameBase, Bool.and_eq_true, beq_iff_eq, beq_iff_eq, (compares_significant _ _).eq_eq]

lemma sameBase_congr (h : v.same v' = true) (h' : w.same w' = true) :
    v.sameBase w = v'.sameBase w' := by
  obtain ⟨hepoch, hrelease, -⟩ := same_iff.mp h
  obtain ⟨hepoch', hrelease', -⟩ := same_iff.mp h'
  rw [Bool.eq_iff_iff, sameBase_iff, sameBase_iff, hepoch, hrelease, hepoch', hrelease']

lemma matchesExactly_congr (h : v.same v' = true) (h' : w.same w' = true) :
    v.matchesExactly w = v'.matchesExactly w' := by
  rw [matchesExactly, matchesExactly, isLocal_eq_of_same h', same_congr h h',
    same_congr (same_withoutLocal h) h']

/-- Where the version that is asked for has no local label, that of a candidate does not count. -/
lemma matchesExactly_withoutLocal (h : w.isLocal = false) :
    v.withoutLocal.matchesExactly w = v.matchesExactly w := by
  rw [matchesExactly, matchesExactly, h]
  rfl

end Version

namespace Specifier

variable {x y : Specifier} {c d : Version}

/-! ### Clauses that come about -/

/-- The clauses that come about: those that are read, and what narrowing makes of others. -/
inductive Arises : Specifier → Prop
  | read {s : String} {x : Specifier} (h : Specifier.parse s = .ok x) : Arises x
  | narrow {x y : Specifier} (hx : Arises x) (h : x.narrow = .ok y) : Arises y

/-- No clause that comes about shares more segments than it writes. -/
lemma Arises.sharesWritten (h : x.Arises) : x.SharesWritten := by
  induction h with
  | read h => exact sharesWritten_of_parse h
  | narrow _ h ih =>
    intro w hw
    cases isNarrowing_of_narrow h with
    | text => cases hw
    | cut v =>
      cases hw
      exact Nat.min_le_right _ _
    | opened v =>
      cases hw
      exact Nat.zero_le _
    | kept => exact ih w hw

/-- Only `===` is followed by a text. -/
lemma Arises.operator_eq_arbitrary {t : String} (h : x.Arises) (ht : x.operand = .text t) :
    x.operator = .arbitrary := by
  induction h with
  | read h =>
    obtain ⟨op, rest, -, -, -, shape⟩ := exists_operandShape_of_parse h
    cases shape with
    | text hop => exact hop
    | wildcard | compatible | version => cases ht
  | narrow _ h ih =>
    cases isNarrowing_of_narrow h with
    | text => rfl
    | cut | opened => cases ht
    | kept => exact ih ht

/-! ### Equal clauses -/

lemma same_iff : x.same y = true ↔
    x.operator = y.operator ∧ x.operand.same y.operand = true ∧ x.shared = y.shared := by
  simp [same, and_assoc]

/-- A clause about a version depends on nothing but what equal versions have in common. -/
lemma contains_version_congr {op : Operator} {v w : Version} {n : ℕ} (h : v.same w = true)
    (hv : n ≤ v.release.length) (hw : n ≤ w.release.length) (hc : c.same d = true) :
    contains ⟨op, .version v, n⟩ c = contains ⟨op, .version w, n⟩ d := by
  have hp := Version.same_withoutLocal hc
  cases op with
  | compatible =>
    simp only [contains]
    rw [Version.atMost_congr h hp, Version.take_release_eq_of_same h hv hw,
      Version.startsWith_eq_of_same hp]
  | equal => exact Version.matchesExactly_congr hc h
  | notEqual => exact congrArg Bool.not (Version.matchesExactly_congr hc h)
  | atMost => exact Version.atMost_congr hp h
  | atLeast => exact Version.atMost_congr h hp
  | less =>
    simp only [contains]
    rw [Version.before_congr hp h, Version.isPrerelease_eq_of_same h,
      Version.isPrerelease_eq_of_same hp, Version.sameBase_congr hp h]
  | greater =>
    simp only [contains]
    rw [Version.before_congr h hp, Version.isPostrelease_eq_of_same h,
      Version.isPostrelease_eq_of_same hp, Version.sameBase_congr hp h]
  | arbitrary => rfl

lemma contains_wildcard_congr {op : Operator} {epoch : UInt64} {release : List UInt64} {n : ℕ}
    (hc : c.same d = true) :
    contains ⟨op, .wildcard epoch release, n⟩ c = contains ⟨op, .wildcard epoch release, n⟩ d := by
  have hp := Version.same_withoutLocal hc
  simp only [contains]
  rw [(Version.eq_of_same hp).1, Version.startsWith_eq_of_same hp]

lemma contains_eq_of_same (hx : x.Arises) (hy : y.Arises) (hop : x.operator ≠ .arbitrary)
    (h : x.same y = true) (hc : c.same d = true) : x.contains c = y.contains d := by
  obtain ⟨op, operand, n⟩ := x
  obtain ⟨op', operand', n'⟩ := y
  obtain ⟨rfl, hoperand, rfl⟩ := same_iff.mp h
  match operand, operand' with
  | .version v, .version w =>
    exact contains_version_congr hoperand (hx.sharesWritten v rfl) (hy.sharesWritten w rfl) hc
  | .wildcard epoch release, .wildcard epoch' release' =>
    simp only [Operand.same, Bool.and_eq_true, beq_iff_eq] at hoperand
    obtain ⟨rfl, rfl⟩ := hoperand
    exact contains_wildcard_congr hc
  | .text t, _ => exact absurd (hx.operator_eq_arbitrary rfl) hop
  | .version _, .wildcard _ _ | .version _, .text _ | .wildcard _ _, .version _
  | .wildcard _ _, .text _ => cases hoperand

/-! ### Local labels -/

lemma contains_withoutLocal (hx : x.Arises) (hop : x.operator ≠ .arbitrary)
    (h : ¬(x.operator.isEquality = true ∧ ∃ v, x.operand = .version v ∧ v.isLocal = true))
    (c : Version) : x.contains c.withoutLocal = x.contains c := by
  obtain ⟨op, operand, n⟩ := x
  match operand, op with
  | .text t, op => exact absurd (hx.operator_eq_arbitrary rfl) hop
  | .wildcard _ _, op => rfl
  | .version v, .compatible | .version v, .atMost | .version v, .atLeast | .version v, .less
  | .version v, .greater | .version v, .arbitrary => rfl
  | .version v, .equal =>
    have hlocal : v.isLocal = false := by simpa [Operator.isEquality] using h
    exact Version.matchesExactly_withoutLocal hlocal
  | .version v, .notEqual =>
    have hlocal : v.isLocal = false := by simpa [Operator.isEquality] using h
    exact congrArg Bool.not (Version.matchesExactly_withoutLocal hlocal)

/-! ### Main statement -/

/-- Equal clauses that are read, or come of narrowing such, admit equal versions, except after
`===`. And the local label of a candidate does not count, unless the clause is an equality with a
local label. -/
theorem contains_congr_and_withoutLocal (hx : x.Arises) (hy : y.Arises) (h : x.same y = true)
    (hop : x.operator ≠ .arbitrary) :
    (∀ c d : Version, c.same d = true → x.contains c = y.contains d) ∧
      (¬(x.operator.isEquality = true ∧ ∃ v, x.operand = .version v ∧ v.isLocal = true) →
        ∀ c : Version, x.contains c = x.contains c.withoutLocal) :=
  ⟨fun _ _ hc => contains_eq_of_same hx hy hop h hc,
    fun hlocal c => (contains_withoutLocal hx hop hlocal c).symm⟩

/-- A narrowed clause and one that is written with a zero in place of the patch release. -/
theorem contains_congr_and_withoutLocal_zeros :
    ∃ w x y, Specifier.parse "~=1!3.8.5.post1" = .ok w ∧ w.narrow = .ok x ∧
      Specifier.parse "~=3.8.0" = .ok y ∧ x.same y = true ∧ x.operator ≠ .arbitrary ∧
      (∀ c d : Version, c.same d = true → x.contains c = y.contains d) ∧
      ∀ c : Version, x.contains c = x.contains c.withoutLocal := by
  have written : Specifier.parse "~=1!3.8.5.post1" = .ok ⟨.compatible,
      .version { epoch := 1, release := [3, 8, 5], post := some 1 }, 2⟩ := by decide +kernel
  have padded : Specifier.parse "~=3.8.0" =
      .ok ⟨.compatible, .version { release := [3, 8, 0] }, 2⟩ := by decide +kernel
  have narrowed : narrow ⟨.compatible,
      .version { epoch := 1, release := [3, 8, 5], post := some 1 }, 2⟩ =
        .ok ⟨.compatible, .version { release := [3, 8] }, 2⟩ := rfl
  have hsame : same ⟨.compatible, .version { release := [3, 8] }, 2⟩
      ⟨.compatible, .version { release := [3, 8, 0] }, 2⟩ = true :=
    same_iff.mpr ⟨rfl, Version.same_iff.mpr ⟨rfl, by decide, rfl, rfl, rfl, rfl⟩, rfl⟩
  obtain ⟨hcongr, hlocal⟩ := contains_congr_and_withoutLocal (.narrow (.read written) narrowed)
    (.read padded) hsame (by decide)
  exact ⟨_, _, _, written, narrowed, padded, hsame, by decide, hcongr,
    hlocal (by simp [Operator.isEquality])⟩

end Specifier

end ProjectScope

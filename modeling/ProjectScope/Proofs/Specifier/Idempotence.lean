import ProjectScope.Proofs.Specifier.Narrowing
import ProjectScope.Proofs.Specifier.RoundTrip

/-!
# Narrowed clauses and what is printed of them

To narrow a clause once more changes nothing, because the minor version of a minor version is
itself. What is printed of a narrowed clause is read as the clause again, except for the shared
segments of a `~=` clause: the printed version has two segments, so the clause that is read shares
only the first, even where the narrowed one still shares both.
-/

namespace ProjectScope

namespace Version

@[simp] lemma minorOf_minorOf (v : Version) : v.minorOf.minorOf = v.minorOf := rfl

@[simp] lemma isLocal_minorOf (v : Version) : v.minorOf.isLocal = false := rfl

lemma arises_minorOf (v : Version) : v.minorOf.Arises := .release _

end Version

namespace Specifier

variable {x y : Specifier}

/-! ### Narrowing once more -/

/-- A narrowed clause is narrowed to itself. -/
lemma narrow_of_narrow (h : x.narrow = .ok y) : y.narrow = .ok y := by
  cases isNarrowing_of_narrow h with
  | text t v =>
    simp only [narrow, v.arises_minorOf.parse_toText]
    rfl
  | cut v hoperand hop =>
    rcases hop with hop | hop | hop <;> simp [narrow, hop]
  | opened v => rfl
  | kept => exact h

/-! ### What is printed of a narrowed clause -/

/-- The clause that is read from the print of a narrowed one: it shares at most one segment. -/
def asPrinted (x : Specifier) : Specifier := { x with shared := min x.shared 1 }

lemma shared_eq_zero_of_parse {t : String} (h : Specifier.parse t = .ok x)
    (hop : x.operator ≠ .compatible) : x.shared = 0 := by
  obtain ⟨op, rest, -, -, -, shape⟩ := exists_operandShape_of_parse h
  cases shape with
  | text | wildcard | version => rfl
  | compatible v hcompatible => exact absurd hcompatible hop

lemma exists_version_of_parse {t : String} (h : Specifier.parse t = .ok x)
    (hop : x.operator = .compatible) :
    ∃ v, x = ⟨.compatible, .version v, v.release.length - 1⟩ ∧ 2 ≤ v.release.length := by
  obtain ⟨op, rest, -, -, -, shape⟩ := exists_operandShape_of_parse h
  obtain ⟨v, hx, -, -, hlen⟩ := exists_version_of_compatible shape hop
  exact ⟨v, hx, hlen⟩

lemma parse_toText_of_narrow {t : String} (hx : Specifier.parse t = .ok x) (h : x.narrow = .ok y) :
    Specifier.parse y.toText = .ok y.asPrinted := by
  cases isNarrowing_of_narrow h with
  | text t v =>
    have hv := v.arises_minorOf.isPrintable
    exact parse_toText_of_shape (s := v.minorOf.render) (.text rfl) (Version.render_ne_nil hv)
      (any_isBlank_render hv)
  | cut v hoperand hop =>
    have hv := v.arises_minorOf.isPrintable
    by_cases hcompatible : x.operator = .compatible
    · obtain ⟨w, rfl, hlen⟩ := exists_version_of_parse hx hcompatible
      have hone : min (min (w.release.length - 1) 2) 1 = 1 := by omega
      rw [asPrinted, hone]
      exact parse_toText_of_shape (.compatible v.minorOf rfl (stripSuffix?_render hv)
        (readVersion_render hv) rfl le_rfl) (Version.render_ne_nil hv) (any_isBlank_render hv)
    · have hop' : x.operator ≠ .arbitrary := by
        rcases hop with hop | hop | hop <;> simp [hop]
      rw [asPrinted, shared_eq_zero_of_parse hx hcompatible]
      exact parse_toText_version x.operator hv hop' hcompatible (by simp)
  | opened v =>
    exact parse_toText_version .atLeast v.arises_minorOf.isPrintable (by simp) (by simp) (by simp)
  | kept hop =>
    have hcompatible : x.operator ≠ .compatible := by
      intro hcompatible
      obtain ⟨w, rfl, -⟩ := exists_version_of_parse hx hcompatible
      cases hop rfl
    have hzero : x.shared = 0 := shared_eq_zero_of_parse hx hcompatible
    have hself : x.asPrinted = x := by
      rw [asPrinted, hzero, Nat.zero_min, ← hzero]
    rw [hself]
    exact parse_toText hx

lemma comma_not_mem_render_of_narrow {t : String} (hx : Specifier.parse t = .ok x)
    (ht : ',' ∉ t.toList) (h : x.narrow = .ok y) : ',' ∉ y.render := by
  have printed (op : Operator) (v : Version) : ',' ∉ op.symbol.toList ++ v.minorOf.render := by
    rw [List.mem_append, not_or]
    refine ⟨by cases op <;> decide, fun hc => ?_⟩
    have hgrammar := v.arises_minorOf.isPrintable.inGrammar_render _ hc
    revert hgrammar
    decide
  cases isNarrowing_of_narrow h with
  | text t v =>
    rw [render, Operand.render, Version.toText, String.toList_ofList]
    exact printed _ v
  | cut v | opened v => exact printed _ v
  | kept => exact comma_not_mem_render hx ht

lemma startsWith_take_of_le {c : Version} {r : List UInt64} {m n : ℕ} (hmn : m ≤ n)
    (h : c.startsWith (r.take n) = true) : c.startsWith (r.take m) = true := by
  rw [Version.startsWith_iff] at h ⊢
  intro i hi
  have hin : i < (r.take n).length := by
    rw [List.length_take] at hi ⊢
    omega
  rw [h i hin, List.getElem_take, List.getElem_take]

/-- To share fewer segments admits more. -/
lemma contains_asPrinted {c : Version} (h : x.contains c = true) :
    x.asPrinted.contains c = true := by
  obtain ⟨op, operand, shared⟩ := x
  match operand, op with
  | .version v, .compatible =>
    simp only [contains, asPrinted, Bool.and_eq_true] at h ⊢
    exact ⟨h.1, startsWith_take_of_le (Nat.min_le_left _ _) h.2⟩
  | .version v, .equal | .version v, .notEqual | .version v, .atMost | .version v, .atLeast
  | .version v, .less | .version v, .greater | .version v, .arbitrary => exact h
  | .text _, _ | .wildcard _ _, _ => exact h

lemma same_asPrinted_iff : x.asPrinted.same x = true ↔ x.shared ≤ 1 := by
  simp [same, asPrinted, x.operand.same_self]

/-- Whether a clause is a `~=` clause with three or more release segments. -/
def IsPatchCompatible (x : Specifier) : Prop :=
  x.operator = .compatible ∧ ∃ v, x.operand = .version v ∧ 3 ≤ v.release.length

lemma shared_le_one_iff {t : String} (hx : Specifier.parse t = .ok x) (h : x.narrow = .ok y) :
    y.shared ≤ 1 ↔ ¬ x.IsPatchCompatible := by
  by_cases hop : x.operator = .compatible
  · obtain ⟨v, rfl, hlen⟩ := exists_version_of_parse hx hop
    cases h
    simp [IsPatchCompatible]
    omega
  · have hzero := shared_eq_zero_of_parse hx hop
    simp only [IsPatchCompatible, hop, false_and, not_false_eq_true, iff_true]
    cases isNarrowing_of_narrow h with
    | text | opened => simp
    | cut | kept => simp [hzero]

end Specifier

namespace SpecifierSet

variable {s : String} {xs ys : SpecifierSet}

/-! ### Sets -/

/-- Every clause of a narrowed set comes of one that has been read from a text without commas. -/
lemma exists_parse_of_mem_narrow (h : SpecifierSet.parse s = .ok xs) (hn : xs.narrow = .ok ys)
    {y : Specifier} (hy : y ∈ ys.clauses) :
    ∃ t x, Specifier.parse t = .ok x ∧ ',' ∉ t.toList ∧ x.narrow = .ok y := by
  obtain ⟨x, hx, hxy⟩ := exists_of_mem_mapM (narrow_eq_ok.mp hn) hy
  obtain ⟨t, hparse, hcomma⟩ := exists_parse_of_mem_clauses h hx
  exact ⟨t, x, hparse, hcomma, hxy⟩

lemma narrow_of_narrow (hn : xs.narrow = .ok ys) : ys.narrow = .ok ys := by
  rw [narrow_eq_ok, mapM_eq_ok, List.forall₂_same]
  intro y hy
  obtain ⟨x, -, hxy⟩ := exists_of_mem_mapM (narrow_eq_ok.mp hn) hy
  exact Specifier.narrow_of_narrow hxy

/-- The set that is read from what is printed of a narrowed one. -/
def asPrinted (xs : SpecifierSet) : SpecifierSet := ⟨xs.clauses.map Specifier.asPrinted⟩

lemma parse_toText_of_narrow (h : SpecifierSet.parse s = .ok xs) (hn : xs.narrow = .ok ys) :
    SpecifierSet.parse ys.toText = .ok ys.asPrinted := by
  have hpieces : pieces ys.toText = ys.clauses.map Specifier.render := by
    apply pieces_intercalate
    all_goals
      intro piece hp
      obtain ⟨y, hy, rfl⟩ := List.mem_map.mp hp
      obtain ⟨t, x, hx, hcomma, hxy⟩ := exists_parse_of_mem_narrow h hn hy
    · exact y.render_ne_nil
    · show Text.trim y.asPrinted.render = y.asPrinted.render
      exact Specifier.trim_render (Specifier.parse_toText_of_narrow hx hxy)
    · exact Specifier.comma_not_mem_render_of_narrow hx hcomma hxy
  rw [parse_eq_ok, hpieces, asPrinted, mapM_eq_ok, List.forall₂_map_left_iff,
    List.forall₂_map_right_iff, List.forall₂_same]
  intro y hy
  obtain ⟨t, x, hx, -, hxy⟩ := exists_parse_of_mem_narrow h hn hy
  exact Specifier.parse_toText_of_narrow hx hxy

lemma contains_asPrinted {c : Version} (h : xs.contains c = true) :
    xs.asPrinted.contains c = true := by
  rw [contains, List.all_eq_true] at h
  rw [contains, asPrinted, List.all_map, List.all_eq_true]
  exact fun x hx => Specifier.contains_asPrinted (h x hx)

lemma same_asPrinted_iff : xs.asPrinted.same xs = true ↔ ∀ x ∈ xs.clauses, x.shared ≤ 1 := by
  rw [same, asPrinted, ← List.map_prod_right_eq_zip]
  simp [Specifier.same_asPrinted_iff]

/-! ### Main statement -/

/-- A narrowed set has a clause for each clause of the set, in their order, and is narrowed to
itself. What is printed of it is read as a set that admits no less, and that is the narrowed set
itself exactly when no clause was a `~=` clause with three or more release segments. -/
theorem narrow_narrow_and_parse_toText (h : SpecifierSet.parse s = .ok xs)
    (hn : xs.narrow = .ok ys) :
    (ys.clauses.length = xs.clauses.length ∧
        List.Forall₂ (fun x y => x.narrow = .ok y) xs.clauses ys.clauses) ∧
      (∃ zs, ys.narrow = .ok zs ∧ zs = ys ∧ zs.same ys = true) ∧
      ∃ rs, SpecifierSet.parse ys.toText = .ok rs ∧
        (∀ c : Version, ys.contains c = true → rs.contains c = true) ∧
        (rs.same ys = true ↔ ∀ x ∈ xs.clauses, ¬ x.IsPatchCompatible) := by
  have hpairs := mapM_eq_ok.mp (narrow_eq_ok.mp hn)
  refine ⟨⟨hpairs.length_eq.symm, hpairs⟩, ⟨ys, narrow_of_narrow hn, rfl, ys.same_self⟩,
    ys.asPrinted, parse_toText_of_narrow h hn, fun c => contains_asPrinted, ?_⟩
  rw [same_asPrinted_iff]
  constructor
  · intro hshared x hx
    obtain ⟨t, hparse, -⟩ := exists_parse_of_mem_clauses h hx
    obtain ⟨y, hy, hxy⟩ := exists_of_mapM_eq_ok (narrow_eq_ok.mp hn) hx
    exact (Specifier.shared_le_one_iff hparse hxy).mp (hshared y hy)
  · intro hpins y hy
    obtain ⟨x, hx, hxy⟩ := exists_of_mem_mapM (narrow_eq_ok.mp hn) hy
    obtain ⟨t, hparse, -⟩ := exists_parse_of_mem_clauses h hx
    exact (Specifier.shared_le_one_iff hparse hxy).mpr (hpins x hx)

/-- A patch release after `~=` beside a minor one, a lower bound that is opened, a text that is
spelled anew and a wildcard that is kept: the printed set no longer pins 3.8. -/
theorem narrow_narrow_and_parse_toText_patch :
    ∃ xs ys rs,
      SpecifierSet.parse "~=3.8.5, ~=1!3.7rc1,, >3.7.4, === v3.9.1,!=3.8.*" = .ok xs ∧
      xs.narrow = .ok ys ∧ ys.clauses.length = 5 ∧ ys.narrow = .ok ys ∧
      SpecifierSet.parse "~=3.8,~=3.7,>=3.7,===3.9,!=3.8.*" = .ok rs ∧
      (∀ c : Version, ys.contains c = true → rs.contains c = true) ∧ ¬ rs.same ys = true := by
  have written : SpecifierSet.parse "~=3.8.5, ~=1!3.7rc1,, >3.7.4, === v3.9.1,!=3.8.*" = .ok ⟨[
      ⟨.compatible, .version { release := [3, 8, 5] }, 2⟩,
      ⟨.compatible, .version { epoch := 1, release := [3, 7], pre := some (.candidate, 1) }, 1⟩,
      ⟨.greater, .version { release := [3, 7, 4] }, 0⟩, ⟨.arbitrary, .text "v3.9.1", 0⟩,
      ⟨.notEqual, .wildcard 0 [3, 8], 0⟩]⟩ := by decide +kernel
  have narrowed : SpecifierSet.narrow ⟨[
      ⟨.compatible, .version { release := [3, 8, 5] }, 2⟩,
      ⟨.compatible, .version { epoch := 1, release := [3, 7], pre := some (.candidate, 1) }, 1⟩,
      ⟨.greater, .version { release := [3, 7, 4] }, 0⟩, ⟨.arbitrary, .text "v3.9.1", 0⟩,
      ⟨.notEqual, .wildcard 0 [3, 8], 0⟩]⟩ = .ok ⟨[
      ⟨.compatible, .version { release := [3, 8] }, 2⟩,
      ⟨.compatible, .version { release := [3, 7] }, 1⟩,
      ⟨.atLeast, .version { release := [3, 7] }, 0⟩, ⟨.arbitrary, .text "3.9", 0⟩,
      ⟨.notEqual, .wildcard 0 [3, 8], 0⟩]⟩ := by decide +kernel
  obtain ⟨⟨hlength, -⟩, ⟨zs, hzs, rfl, -⟩, rs, hrs, hwider, hsame⟩ :=
    narrow_narrow_and_parse_toText written narrowed
  refine ⟨_, _, rs, written, narrowed, hlength, hzs, hrs, hwider, ?_⟩
  rw [hsame]
  intro hnone
  exact hnone _ List.mem_cons_self ⟨rfl, _, rfl, le_rfl⟩

end SpecifierSet

end ProjectScope

import ProjectScope.Proofs.Specifier.Narrowing
import ProjectScope.Proofs.Specifier.Set
import ProjectScope.Target.Inference

/-!
# What is inferred from a specifier set

A target is inferred from a text that is no version when every clause of the text admits it, each
clause being read and narrowed for itself. So the clauses may stand in any order and any number of
times, joining two texts by a comma intersects what they admit, and no target is lost that the set
contains as it is written.
-/

namespace ProjectScope

/-! ### Clauses on their own -/

/-- The clause that a text says, narrowed. -/
def Specifier.narrowed (piece : List Char) : Except Error Specifier :=
  Specifier.parse (String.ofList piece) >>= Specifier.narrow

/-- Whether the clause that a text says admits a target once it is narrowed; a text that says no
such clause admits nothing. -/
def Specifier.admits (t : Target) (piece : List Char) : Bool :=
  match Specifier.narrowed piece with
  | .ok y => y.contains t.version
  | .error _ => false

lemma Specifier.narrowed_of_parse {piece : List Char} {x : Specifier}
    (h : Specifier.parse (String.ofList piece) = .ok x) : Specifier.narrowed piece = x.narrow := by
  rw [narrowed, h]
  rfl

/-- The targets inferred from a text, none of them being the empty list. -/
def inferred (s : String) : Targets := (inferTargets s).value.getD []

namespace SpecifierSet

variable {s : String}

/-- A set is read and narrowed clause by clause. -/
lemma exists_parse_narrow_eq_ok {ys : SpecifierSet} :
    (∃ xs, SpecifierSet.parse s = .ok xs ∧ xs.narrow = .ok ys) ↔
      (pieces s).mapM Specifier.narrowed = .ok ys.clauses := by
  have twice := mapM_bind_eq_ok (f := fun piece => Specifier.parse (String.ofList piece))
    (g := Specifier.narrow) (l := pieces s) (r := ys.clauses)
  rw [bind_eq_ok] at twice
  refine Iff.trans ?_ twice
  constructor
  · rintro ⟨xs, hxs, hys⟩
    exact ⟨xs.clauses, parse_eq_ok.mp hxs, narrow_eq_ok.mp hys⟩
  · rintro ⟨clauses, hxs, hys⟩
    exact ⟨⟨clauses⟩, parse_eq_ok.mpr hxs, narrow_eq_ok.mpr hys⟩

end SpecifierSet

/-! ### The inferred targets -/

section Inferred

variable {s : String} {t : Target}

open SpecifierSet (pieces mem_of_mem_pieces)

lemma parse_of_not_version (h : (Version.parse s).isOk = false) :
    VersionRange.parse s = (SpecifierSet.parse s).map .specifiers := by
  cases hv : Version.parse s with
  | error e => rw [VersionRange.parse, hv]
  | ok v =>
    rw [hv] at h
    cases h

lemma inferred_of_narrow {xs ys : SpecifierSet} (h : (Version.parse s).isOk = false)
    (hxs : SpecifierSet.parse s = .ok xs) (hys : xs.narrow = .ok ys) :
    inferred s = if ys.isEmpty then [] else VersionRange.admitted ys := by
  simp only [inferred, inferTargets, parse_of_not_version h, hxs, Except.map, VersionRange.targets,
    hys]
  split_ifs with hempty hnone
  · rfl
  · rw [List.isEmpty_iff.mp hnone]
    rfl
  · rfl

lemma inferred_of_forall_narrow_ne (h : (Version.parse s).isOk = false)
    (hno : ∀ xs ys, SpecifierSet.parse s = .ok xs → xs.narrow ≠ .ok ys) : inferred s = [] := by
  simp only [inferred, inferTargets, parse_of_not_version h]
  cases hxs : SpecifierSet.parse s with
  | error e => rfl
  | ok xs =>
    cases hys : xs.narrow with
    | error e => simp only [Except.map, VersionRange.targets, hys, Option.getD_none]
    | ok ys => exact absurd hys (hno xs ys hxs)

lemma all_admits_eq {clauses : List (List Char)} {ys : List Specifier}
    (h : List.Forall₂ (fun piece y => Specifier.narrowed piece = .ok y) clauses ys) :
    clauses.all (Specifier.admits t) = ys.all (·.contains t.version) := by
  induction h with
  | nil => rfl
  | cons hy _ ih => rw [List.all_cons, List.all_cons, ih, Specifier.admits, hy]

/-- The inferred targets are those that each clause admits for itself. -/
theorem inferred_eq (h : (Version.parse s).isOk = false) :
    inferred s =
      if pieces s = [] then []
      else Target.all.filter fun t => (pieces s).all (Specifier.admits t) := by
  cases hm : (pieces s).mapM Specifier.narrowed with
  | error e =>
    -- some clause comes to nothing, and no target can satisfy it
    obtain ⟨piece, hmem, hpiece⟩ :
        ∃ piece ∈ pieces s, ∀ y, Specifier.narrowed piece ≠ .ok y := by
      by_contra hall
      push Not at hall
      obtain ⟨ys, hys⟩ := exists_mapM_eq_ok hall
      rw [hys] at hm
      cases hm
    have none_admitted : ∀ t, (pieces s).all (Specifier.admits t) = false := by
      intro t
      rw [List.all_eq_false]
      refine ⟨piece, hmem, ?_⟩
      cases hn : Specifier.narrowed piece with
      | error e => simp [Specifier.admits, hn]
      | ok y => exact absurd hn (hpiece y)
    rw [inferred_of_forall_narrow_ne h]
    · simp [none_admitted]
    · intro xs ys hxs hys
      rw [SpecifierSet.exists_parse_narrow_eq_ok.mp ⟨xs, hxs, hys⟩] at hm
      cases hm
  | ok ys =>
    obtain ⟨xs, hxs, hys⟩ : ∃ xs, SpecifierSet.parse s = .ok xs ∧ xs.narrow = .ok ⟨ys⟩ :=
      SpecifierSet.exists_parse_narrow_eq_ok.mpr hm
    have pairs := mapM_eq_ok.mp hm
    have hempty : pieces s = [] ↔ ys = [] := by
      rw [← List.length_eq_zero_iff, pairs.length_eq, List.length_eq_zero_iff]
    rw [inferred_of_narrow h hxs hys]
    simp only [SpecifierSet.isEmpty, List.isEmpty_iff, hempty, VersionRange.admitted,
      SpecifierSet.contains, all_admits_eq pairs]

lemma mem_inferred (h : (Version.parse s).isOk = false) :
    t ∈ inferred s ↔ pieces s ≠ [] ∧ ∀ piece ∈ pieces s, Specifier.admits t piece = true := by
  rw [inferred_eq h]
  split_ifs with hempty
  · simp [hempty]
  · simp [hempty, Target.mem_all]

lemma targets_value_ne (range : VersionRange) : range.targets.value ≠ .ok (some []) := by
  cases range with
  | exact v => cases h : VersionRange.exactTarget? v <;> simp [VersionRange.targets, h]
  | specifiers xs =>
    simp only [VersionRange.targets]
    split
    · simp
    · split_ifs with hempty hnone
      · simp
      · simp
      · simpa [List.isEmpty_iff] using hnone

/-- Nothing is inferred exactly when no target is. -/
lemma inferTargets_value (s : String) :
    (inferTargets s).value = if inferred s = [] then none else some (inferred s) := by
  have nonempty : (inferTargets s).value ≠ some [] := by
    intro h
    simp only [inferTargets] at h
    split at h
    · cases h
    · rename_i range _
      split at h
      · rename_i ts hts
        cases h
        exact targets_value_ne range hts
      · cases h
      · cases h
  cases hv : (inferTargets s).value with
  | none => simp [inferred, hv]
  | some ts =>
    rw [hv] at nonempty
    have : ts ≠ [] := fun e => nonempty (e ▸ rfl)
    simp [inferred, hv, this]

/-- A target in the inferred list is inferred. -/
lemma exists_value_of_mem (h : t ∈ inferred s) : ∃ ts, (inferTargets s).value = some ts ∧ t ∈ ts :=
  ⟨inferred s, by rw [inferTargets_value, if_neg (List.ne_nil_of_mem h)], h⟩

/-! ### Texts and their clauses -/

/-- A comma between two texts puts their clauses together. -/
lemma pieces_join (a b : String) : pieces (a ++ "," ++ b) = pieces a ++ pieces b := by
  have hsplit : (a ++ "," ++ b).toList.splitOn ',' = a.toList.splitOn ',' ++ b.toList.splitOn ',' := by
    rw [← List.splitOn_append_cons_self]
    simp
  rw [pieces, hsplit, List.map_append, List.filter_append]
  rfl

lemma not_version_of_mem {c : Char} (hc : c ∈ s.toList) (hblank : Text.isBlank c = false)
    (hgrammar : Version.isGrammarChar c.toLower = false) : (Version.parse s).isOk = false := by
  cases hv : Version.parse s with
  | error e => rfl
  | ok v =>
    rw [Version.isGrammarChar_of_parse hv hc hblank] at hgrammar
    cases hgrammar

lemma join_not_version (a b : String) : (Version.parse (a ++ "," ++ b)).isOk = false :=
  not_version_of_mem (c := ',') (by simp) (by decide) (by decide)

lemma pieces_eq_nil_iff {xs : SpecifierSet} (h : SpecifierSet.parse s = .ok xs) :
    pieces s = [] ↔ xs.isEmpty = true := by
  have hlen := (mapM_eq_ok.mp (SpecifierSet.parse_eq_ok.mp h)).length_eq
  rw [SpecifierSet.isEmpty, List.isEmpty_iff, ← List.length_eq_zero_iff, hlen,
    List.length_eq_zero_iff]

/-- A text that says clauses is no version. -/
lemma not_version_of_clauses {xs : SpecifierSet} (h : SpecifierSet.parse s = .ok xs)
    (hxs : xs.isEmpty = false) : (Version.parse s).isOk = false := by
  have hne : pieces s ≠ [] := by simp [pieces_eq_nil_iff h, hxs]
  obtain ⟨piece, hpiece⟩ := List.exists_mem_of_ne_nil _ hne
  obtain ⟨x, -, hx⟩ := exists_of_mapM_eq_ok (SpecifierSet.parse_eq_ok.mp h) hpiece
  obtain ⟨c, hc, hgrammar, hblank⟩ := Specifier.exists_mem_of_parse hx
  rw [String.toList_ofList] at hc
  exact not_version_of_mem (mem_of_mem_pieces hpiece hc hblank) hblank hgrammar

end Inferred

/-! ### Main statements -/

/-- Inference loses no target: what the set contains as it is written is inferred. -/
theorem mem_inferTargets_of_contains {s : String} {xs : SpecifierSet} {t : Target}
    (h : SpecifierSet.parse s = .ok xs) (hxs : xs.isEmpty = false)
    (ht : xs.contains t.version = true) : ∃ ts, (inferTargets s).value = some ts ∧ t ∈ ts := by
  apply exists_value_of_mem
  rw [mem_inferred (not_version_of_clauses h hxs)]
  refine ⟨by simp [pieces_eq_nil_iff h, hxs], fun piece hpiece => ?_⟩
  obtain ⟨x, hx, hparse⟩ := exists_of_mapM_eq_ok (SpecifierSet.parse_eq_ok.mp h) hpiece
  obtain ⟨y, hy, hcontains⟩ := Specifier.exists_narrow_contains
    (Specifier.sharesWritten_of_parse hparse) (List.all_eq_true.mp ht x hx)
  have hnarrowed : Specifier.narrowed piece = .ok y := bind_eq_ok.mpr ⟨x, hparse, hy⟩
  rw [Specifier.admits, hnarrowed]
  exact hcontains

/-- A patch release as a lower bound, a pinned pre-release and a spelled-out version, all of which
are narrowed, keep the target that they contain. -/
theorem mem_inferTargets_of_contains_py38 :
    ∃ ts, (inferTargets ">3.7.4.post1, ~=3.8.0rc1,, ===3.8").value = some ts ∧ Target.py38 ∈ ts := by
  have written : SpecifierSet.parse ">3.7.4.post1, ~=3.8.0rc1,, ===3.8" = .ok ⟨[
      { operator := .greater, operand := .version { release := [3, 7, 4], post := some 1 } },
      { operator := .compatible, shared := 2
        operand := .version { release := [3, 8, 0], pre := some (.candidate, 1) } },
      { operator := .arbitrary, operand := .text "3.8" }]⟩ := by decide +kernel
  refine mem_inferTargets_of_contains written rfl ?_
  simp [SpecifierSet.contains, Specifier.contains, Version.before, Version.atMost, Version.compare,
    compareRelease, Target.version, Target.minor, Version.ofRelease]
  decide +kernel

/-- Two lists of raw clauses say the same when they hold the same clauses, blank ones and the blanks
around the others aside. -/
def SameClauses (cs ds : List (List Char)) : Prop :=
  ∀ piece, piece ≠ [] → (piece ∈ cs.map Text.trim ↔ piece ∈ ds.map Text.trim)

lemma mem_pieces_iff_of_sameClauses {s s' : String}
    (h : SameClauses (s.toList.splitOn ',') (s'.toList.splitOn ',')) (piece : List Char) :
    piece ∈ SpecifierSet.pieces s ↔ piece ∈ SpecifierSet.pieces s' := by
  simp only [SpecifierSet.pieces, List.mem_filter, Bool.not_eq_true', List.isEmpty_eq_false_iff]
  constructor
  · rintro ⟨hp, hne⟩
    exact ⟨(h piece hne).mp hp, hne⟩
  · rintro ⟨hp, hne⟩
    exact ⟨(h piece hne).mpr hp, hne⟩

/-- Adding clauses adds no target. -/
lemma inferred_subset {s s' : String} (hs : (Version.parse s).isOk = false)
    (hs' : (Version.parse s').isOk = false) (hne : SpecifierSet.pieces s ≠ [])
    (h : SpecifierSet.pieces s ⊆ SpecifierSet.pieces s') : inferred s' ⊆ inferred s := by
  intro t ht
  rw [mem_inferred hs'] at ht
  rw [mem_inferred hs]
  exact ⟨hne, fun piece hp => ht.2 piece (h hp)⟩

lemma inferTargets_eq_of_mem_iff {s s' : String} (hs : (Version.parse s).isOk = false)
    (hs' : (Version.parse s').isOk = false)
    (h : ∀ piece, piece ∈ SpecifierSet.pieces s ↔ piece ∈ SpecifierSet.pieces s') :
    (inferTargets s).value = (inferTargets s').value := by
  have hempty : SpecifierSet.pieces s = [] ↔ SpecifierSet.pieces s' = [] := by
    simp only [List.eq_nil_iff_forall_not_mem, h]
  have hall (t : Target) : (SpecifierSet.pieces s).all (Specifier.admits t) =
      (SpecifierSet.pieces s').all (Specifier.admits t) := by
    rw [Bool.eq_iff_iff, List.all_eq_true, List.all_eq_true]
    simp only [h]
  have hinferred : inferred s = inferred s' := by
    simp only [inferred_eq hs, inferred_eq hs', hempty, hall]
  rw [inferTargets_value, inferTargets_value, hinferred]

/-- A comma between two texts that are no versions and say clauses intersects what is inferred from
them. So the order of clauses, repeated and blank ones and the blanks around them do not matter,
more clauses never admit more targets, and one clause that cannot be read leaves none. -/
theorem inferred_join :
    (∀ a b : String, (Version.parse a).isOk = false → (Version.parse b).isOk = false →
      SpecifierSet.pieces a ≠ [] → SpecifierSet.pieces b ≠ [] →
      inferred (a ++ "," ++ b) = inferred a ∩ inferred b) ∧
    (∀ s s' : String, (Version.parse s).isOk = false → (Version.parse s').isOk = false →
      SameClauses (s.toList.splitOn ',') (s'.toList.splitOn ',') →
      (inferTargets s).value = (inferTargets s').value) ∧
    (∀ s s' : String, (Version.parse s).isOk = false → (Version.parse s').isOk = false →
      SpecifierSet.pieces s ≠ [] → SpecifierSet.pieces s ⊆ SpecifierSet.pieces s' →
      inferred s' ⊆ inferred s) ∧
    (∀ (s : String) (piece : List Char), (Version.parse s).isOk = false →
      piece ∈ SpecifierSet.pieces s → (Specifier.parse (String.ofList piece)).isOk = false →
      (inferTargets s).value = none) := by
  refine ⟨?_, ?_, ?_, ?_⟩
  · intro a b ha hb hpa hpb
    have hne : SpecifierSet.pieces a ++ SpecifierSet.pieces b ≠ [] := by simp [hpa]
    rw [inferred_eq (join_not_version a b), pieces_join, inferred_eq ha, inferred_eq hb,
      if_neg hne, if_neg hpa, if_neg hpb]
    change _ = List.filter (List.elem · _) _
    rw [List.filter_filter]
    apply List.filter_congr
    intro t _
    rw [Bool.eq_iff_iff]
    simp [Target.mem_all, and_comm]
  · intro s s' hs hs' h
    exact inferTargets_eq_of_mem_iff hs hs' (mem_pieces_iff_of_sameClauses h)
  · intro s s' hs hs' hne h
    exact inferred_subset hs hs' hne h
  · intro s piece hs hp hpiece
    have hno : inferred s = [] := by
      rw [List.eq_nil_iff_forall_not_mem]
      intro t ht
      have hadmits := ((mem_inferred hs).mp ht).2 piece hp
      cases hx : Specifier.parse (String.ofList piece) with
      | error e =>
        rw [Specifier.admits, Specifier.narrowed, hx] at hadmits
        cases hadmits
      | ok x =>
        rw [hx] at hpiece
        cases hpiece
    rw [inferTargets_value, if_pos hno]

/-- Two texts joined, the same clauses written otherwise, one clause more, and one that is none. -/
theorem inferred_join_window :
    inferred (">=3.8, !=3.9.*" ++ "," ++ "<3.12") = inferred ">=3.8, !=3.9.*" ∩ inferred "<3.12" ∧
    (inferTargets "<3.12, >=3.8").value = (inferTargets ">=3.8,,<3.12 ,>=3.8").value ∧
    inferred ">=3.8,<3.12" ⊆ inferred ">=3.8" ∧
    (inferTargets ">=3.8,3.9").value = none := by
  have compared {s : String} (h : '=' ∈ s.toList) : (Version.parse s).isOk = false :=
    not_version_of_mem h (by decide) (by decide)
  have below {s : String} (h : '<' ∈ s.toList) : (Version.parse s).isOk = false :=
    not_version_of_mem h (by decide) (by decide)
  have plower : SpecifierSet.pieces ">=3.8" = [">=3.8".toList] := by decide +kernel
  have pboth : SpecifierSet.pieces ">=3.8,<3.12" = [">=3.8".toList, "<3.12".toList] := by decide +kernel
  have pmixed : SpecifierSet.pieces ">=3.8,3.9" = [">=3.8".toList, "3.9".toList] := by decide +kernel
  have phole : SpecifierSet.pieces ">=3.8, !=3.9.*" = [">=3.8".toList, "!=3.9.*".toList] := by decide +kernel
  have pupper : SpecifierSet.pieces "<3.12" = ["<3.12".toList] := by decide +kernel
  have written : ("<3.12, >=3.8".toList.splitOn ',').map Text.trim =
      ["<3.12".toList, ">=3.8".toList] := by decide +kernel
  have rewritten : (">=3.8,,<3.12 ,>=3.8".toList.splitOn ',').map Text.trim =
      [">=3.8".toList, [], "<3.12".toList, ">=3.8".toList] := by decide +kernel
  obtain ⟨join, same, more, malformed⟩ := inferred_join
  refine ⟨join _ _ (compared (by decide)) (below (by decide)) (by simp [phole]) (by simp [pupper]),
    same _ _ (compared (by decide)) (compared (by decide)) ?_,
    more _ _ (compared (by decide)) (compared (by decide)) (by simp [plower])
      (by simp [plower, pboth]),
    malformed _ "3.9".toList (compared (by decide)) (by simp [pmixed]) (by decide +kernel)⟩
  intro piece hne
  rw [written, rewritten]
  simp only [List.mem_cons, List.not_mem_nil, hne, false_or, or_false]
  constructor
  · rintro (h | h)
    · exact .inr (.inl h)
    · exact .inl h
  · rintro (h | h | h)
    · exact .inr h
    · exact .inl h
    · exact .inr h

end ProjectScope

import ProjectScope.Proofs.Project.CommonBase

/-!
# Discovery without sources

Without sources the base of the session stands in. It is resolved as a source is, from the base, so it
is the base as it is seen from itself: the base again when it is absolute, but what a relative base
leads to when it is followed twice.
-/

namespace ProjectScope

open ProjectScope.Path (ofNames ofComponents)

namespace FileTree

variable {t : FileTree} {p q base : Path}

/-! ### Absolute paths -/

/-- An absolute path is split at the root at the latest, so its spelling does not show. -/
lemma splitExisting_append_root (t : FileTree) (p q : Path) (front rest : List Component) :
    t.splitExisting p (front ++ [.root]) rest = t.splitExisting q (front ++ [.root]) rest := by
  induction front generalizing rest with
  | nil =>
    have hroot : ofComponents [.root] = ofNames [] := Path.ofComponents_names []
    simp [splitExisting, hroot, realpath_root]
  | cons c front ih =>
    simp only [List.cons_append, splitExisting]
    split
    · rfl
    · split_ifs
      · exact ih _
      · rfl

/-- What an absolute path resolves to, or why it does not, depends on its components alone. -/
lemma resolve_eq_of_isAbsolute (habs : p.isAbsolute = true) (h : p.components = q.components) :
    t.resolve p = t.resolve q := by
  have hreverse : p.components.reverse = p.steps.reverse ++ [.root] := by
    rw [Path.components_of_isAbsolute habs, List.reverse_cons]
  rw [resolve, resolve, canonicalizeExisting, canonicalizeExisting, ← h, hreverse,
    splitExisting_append_root t p q]

lemma components_join_here (h : base.isEmpty = false) :
    (base.join ⟨"."⟩).components = base.components := by
  rw [Path.components_join h (by decide)]
  exact List.append_nil _

/-! ### The common base of one path -/

/-- The deepest candidate for one path is the directory that it is in. -/
lemma commonCandidate_nil (t : FileTree) (p : Path) : t.commonCandidate p [] = t.directoryOf p := by
  simp only [commonCandidate, candidateRoots, directoryOf, List.all_nil]
  split_ifs with hdir
  · rfl
  · rw [List.nil_append, Path.parent?, Path.top]
    cases p.properAncestors <;> rfl

lemma commonBase_singleton (t : FileTree) (base p : Path) :
    t.commonBase base [p] = (t.resolve (.absolutize base p)).map t.directoryOf := by
  rw [commonBase, List.mapM_cons, List.mapM_nil]
  cases t.resolve (.absolutize base p) with
  | error e => rfl
  | ok q => exact congrArg Except.ok (t.commonCandidate_nil q)

/-- Without sources the base itself is the only one. -/
lemma commonBase_nil (t : FileTree) (base : Path) :
    t.commonBase base [] = t.commonBase base [base] := by
  rw [commonBase_singleton, commonBase, List.mapM_nil]
  cases t.resolve (.absolutize base base) with
  | error e => rfl
  | ok q => exact congrArg Except.ok (t.commonCandidate_nil q)

/-- An absolute base stays where it is when it is seen from itself. -/
lemma commonBase_nil_of_isAbsolute (habs : base.isAbsolute = true) :
    t.commonBase base [] = t.commonBase base [⟨"."⟩] := by
  have hself : Path.absolutize base base = base := if_pos habs
  have hhere : Path.absolutize base ⟨"."⟩ = base.join ⟨"."⟩ := if_neg (by decide)
  have hsame := components_join_here (Path.isEmpty_of_isAbsolute habs)
  rw [commonBase_nil, commonBase_singleton, commonBase_singleton, hself, hhere,
    resolve_eq_of_isAbsolute habs hsame.symm]

/-- A directory and one of the same name inside, each with a marker. -/
def nestedTree : FileTree :=
  { entries := [(["src"], .directory), (["src", ".git"], .directory),
      (["src", "src"], .directory), (["src", "src", ".git"], .directory)] }

end FileTree

namespace Session

open ProjectScope.Action

/-! ### Main statement -/

/-- On fresh caches no sources are answered as the base is when it is a source, which is followed
from the base once more. The answers are those for the source `.` whenever the base is absolute, and
for a relative base the common bases agree exactly when the base and the base followed twice lead into
one directory. -/
theorem answers_without_sources (s : Session) (t : FileTree) (stdin : Option Path) :
    ((run (s.commonBase t [] stdin) {}).1 = (run (s.commonBase t [s.base] none) {}).1 ∧
      (run (s.locate t [] stdin) {}).1 = (run (s.locate t [s.base] none) {}).1) ∧
    ((run (s.commonBase t [] stdin) {}).1 = (run (s.commonBase t [⟨"."⟩] stdin) {}).1 ↔
      (t.resolve (.absolutize s.base s.base)).map t.directoryOf =
        (t.resolve (.absolutize s.base ⟨"."⟩)).map t.directoryOf) ∧
    (s.base.isAbsolute = true →
      (run (s.commonBase t [] stdin) {}).1 = (run (s.commonBase t [⟨"."⟩] stdin) {}).1 ∧
        (run (s.locate t [] stdin) {}).1 = (run (s.locate t [⟨"."⟩] stdin) {}).1) := by
  have hbase (sources : List Path) (stdin : Option Path) :
      (run (s.commonBase t sources stdin) {}).1 = t.commonBase s.base (substitute stdin sources) :=
    (answers_commonBase sources stdin {} (Caches.isSound_empty t s.base)).1
  have hself : substitute none [s.base] = [s.base] := by
    simp [substitute]
  have hhere : substitute stdin [⟨"."⟩] = [⟨"."⟩] := rfl
  have hnil : substitute stdin [] = [] := rfl
  simp only [run_locate_empty, hbase, hself, hhere, hnil]
  have hsame : t.commonBase s.base [] = t.commonBase s.base [s.base] := t.commonBase_nil s.base
  refine ⟨⟨hsame, by rw [hsame]⟩, ?_, ?_⟩
  · rw [hsame, t.commonBase_singleton, t.commonBase_singleton]
  · intro habs
    have hagree : t.commonBase s.base [] = t.commonBase s.base [⟨"."⟩] :=
      FileTree.commonBase_nil_of_isAbsolute habs
    exact ⟨hagree, by rw [hagree]⟩

/-- An absolute base that goes down and up again. -/
theorem answers_without_sources_work :
    (run (Session.commonBase { base := ⟨"/work/src/.."⟩ } .workTree [] none) {}).1 = .ok ⟨"/work"⟩ ∧
      (run (Session.locate { base := ⟨"/work/src/.."⟩ } .workTree [] none) {}).1 =
        .ok ⟨⟨"/work"⟩, .projectFile⟩ := by
  obtain ⟨-, -, habsolute⟩ :=
    answers_without_sources { base := ⟨"/work/src/.."⟩ } FileTree.workTree none
  obtain ⟨hcommon, hlocate⟩ := habsolute (by decide)
  rw [hcommon, hlocate]
  decide +kernel

/-- From a relative base that exists inside itself, no sources lead to the inner directory. -/
theorem answers_without_sources_nested :
    (run (Session.commonBase { base := ⟨"src"⟩ } .nestedTree [⟨"."⟩] none) {}).1 = .ok ⟨"/src"⟩ ∧
      (run (Session.locate { base := ⟨"src"⟩ } .nestedTree [⟨"."⟩] none) {}).1 =
        .ok ⟨⟨"/src"⟩, .git⟩ ∧
      (run (Session.commonBase { base := ⟨"src"⟩ } .nestedTree [] none) {}).1 ≠ .ok ⟨"/src"⟩ ∧
      (run (Session.locate { base := ⟨"src"⟩ } .nestedTree [] none) {}).1 ≠
        .ok ⟨⟨"/src"⟩, .git⟩ := by
  decide +kernel

end Session

end ProjectScope

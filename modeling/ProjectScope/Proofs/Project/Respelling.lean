import ProjectScope.Proofs.Project.BaseDirectory

/-!
# Spellings of sources

Roots are remembered by the components of the sources and of the file name of the standard input, so
two spellings of a path are one question. The search for a root sees components as well, with one
exception: the mark of the standard input is known by its spelling. So sources that are one question
have one answer as long as the mark is spelled alike in them.
-/

namespace ProjectScope

open ProjectScope.Path (ofComponents)

/-! ### Errors up to spelling -/

/-- The error, with the path of an invalid path spelled anew from its components. -/
def Error.respelled : Error → Error
  | .invalidPath p reason => .invalidPath (ofComponents p.components) reason
  | e => e

/-- Whether two results are one, but for the spelling of the path that an error shows. -/
def AgreeUpToSpelling {α : Type} (r r' : Except Error α) : Prop :=
  r.mapError Error.respelled = r'.mapError Error.respelled

/-- Whether paths mean the same, pair by pair. -/
abbrev SpellTheSame (sources sources' : List Path) : Prop :=
  List.Forall₂ (fun p q => p.components = q.components) sources sources'

namespace AgreeUpToSpelling

variable {α β : Type} {r r' : Except Error α}

lemma symm (h : AgreeUpToSpelling r r') : AgreeUpToSpelling r' r := Eq.symm h

lemma bind (h : AgreeUpToSpelling r r') (f : α → Except Error β) :
    AgreeUpToSpelling (r >>= f) (r' >>= f) := by
  rw [AgreeUpToSpelling] at h ⊢
  rw [mapError_bind, mapError_bind, h]

/-- Only what fails is ever told apart from what it agrees with. -/
lemma eq_ok_iff (h : AgreeUpToSpelling r r') {a : α} : r = .ok a ↔ r' = .ok a := by
  rw [← mapError_eq_ok (f := Error.respelled), h, mapError_eq_ok]

end AgreeUpToSpelling

namespace FileTree

variable {t : FileTree} {p q base : Path} {sources sources' : List Path}

lemma splitExisting_respelled (h : p.components = q.components) (before rest : List Component) :
    AgreeUpToSpelling (t.splitExisting p before rest) (t.splitExisting q before rest) := by
  induction before generalizing rest with
  | nil => simp [AgreeUpToSpelling, splitExisting, Except.mapError, Error.respelled, h]
  | cons c before ih =>
    simp only [splitExisting]
    split
    · rfl
    · split_ifs
      · exact ih _
      · rfl

/-- Two spellings of a path resolve alike. -/
lemma resolve_respelled (h : p.components = q.components) :
    AgreeUpToSpelling (t.resolve p) (t.resolve q) := by
  have hsplit : AgreeUpToSpelling (t.canonicalizeExisting p) (t.canonicalizeExisting q) := by
    rw [canonicalizeExisting, canonicalizeExisting, ← h]
    exact splitExisting_respelled h _ _
  exact hsplit.bind _

/-- The common base depends on what the sources resolve to, errors being seen through `g`. -/
lemma commonBase_congr {g : Error → Error}
    (h : List.Forall₂ (fun p q => (t.resolve (.absolutize base p)).mapError g =
      (t.resolve (.absolutize base q)).mapError g) sources sources') :
    (t.commonBase base sources).mapError g = (t.commonBase base sources').mapError g := by
  rw [commonBase, commonBase, mapError_bind, mapError_bind, mapError_mapM, mapError_mapM,
    mapM_congr_of_forall₂ h]

lemma commonBase_respelled (h : SpellTheSame sources sources') :
    AgreeUpToSpelling (t.commonBase base sources) (t.commonBase base sources') :=
  commonBase_congr <| h.imp fun _ _ hpq =>
    resolve_respelled (Path.components_absolutize_congr base hpq)

/-- From an absolute base no error shows how a source is spelled. -/
lemma commonBase_respelled_of_isAbsolute (habs : base.isAbsolute = true)
    (h : SpellTheSame sources sources') : t.commonBase base sources = t.commonBase base sources' := by
  rw [← mapError_id (x := t.commonBase base sources),
    ← mapError_id (x := t.commonBase base sources')]
  refine commonBase_congr (h.imp fun p q hpq => ?_)
  have hplaced : (Path.absolutize base p).isAbsolute = true := by
    rw [Path.absolutize]
    split_ifs with hp
    · exact hp
    · exact Path.isAbsolute_join habs
  rw [resolve_eq_of_isAbsolute hplaced (Path.components_absolutize_congr base hpq)]

/-- A repository and a project in it. -/
def subprojectTree : FileTree :=
  { entries := [([".git"], .directory), (["pkg"], .directory),
      (["pkg", "pyproject.toml"], .file "[tool.black]\n".toUTF8.toList)] }

end FileTree

namespace Session

open ProjectScope.Action

variable {s : Session} {t : FileTree} {sources sources' : List Path} {stdin stdin' : Option Path}

/-! ### The mark of the standard input -/

lemma sourceKey_eq_iff : sourceKey sources stdin = sourceKey sources' stdin' ↔
    SpellTheSame sources sources' ∧ stdin.map Path.components = stdin'.map Path.components := by
  rw [sourceKey, sourceKey, Prod.mk.injEq, ← List.forall₂_eq_eq_eq, List.forall₂_map_left_iff,
    List.forall₂_map_right_iff]

/-- The sources with the file name of the standard input, where one is given, in the place of those
that `marks` spells as its mark. -/
def substituteAs (stdin : Option Path) (marks sources : List Path) : List Path :=
  List.zipWith (fun mark p => if mark.text = stdinMark then stdin.getD p else p) marks sources

lemma substituteAs_cons {mark p : Path} {marks : List Path} :
    substituteAs stdin (mark :: marks) (p :: sources) =
      (if mark.text = stdinMark then stdin.getD p else p) :: substituteAs stdin marks sources := rfl

lemma substitute_cons {p : Path} : substitute stdin (p :: sources) =
    (if p.text = stdinMark then stdin.getD p else p) :: substitute stdin sources := rfl

lemma substitute_none (sources : List Path) : substitute none sources = sources := by
  simp [substitute]

/-- Where the mark is spelled alike the same sources are replaced, and without a file name none
are. -/
lemma substituteAs_eq_substitute (h : SpellTheSame sources sources')
    (hmarks : stdin = none ∨
      List.Forall₂ (fun p q => p.text = stdinMark ↔ q.text = stdinMark) sources sources') :
    substituteAs stdin sources' sources = substitute stdin sources := by
  induction h with
  | nil => rfl
  | cons _ _ ih =>
    rw [substituteAs_cons, substitute_cons]
    rcases hmarks with rfl | hmarks
    · rw [ih (.inl rfl)]
      simp
    · obtain ⟨hmark, hmarks⟩ := List.forall₂_cons.mp hmarks
      rw [ih (.inr hmarks)]
      simp only [hmark]

/-- What stands for the sources of a question stands for those of another spelling of it, when the
same ones are replaced. -/
lemma spellTheSame_substituteAs (h : SpellTheSame sources sources')
    (hstdin : stdin.map Path.components = stdin'.map Path.components) :
    SpellTheSame (substituteAs stdin sources' sources) (substitute stdin' sources') := by
  induction h with
  | nil => exact .nil
  | @cons p q _ _ hpq _ ih =>
    rw [substituteAs_cons, substitute_cons]
    refine .cons ?_ ih
    split_ifs
    · have hgetD (stdin : Option Path) (p : Path) :
          (stdin.getD p).components = (stdin.map Path.components).getD p.components := by
        cases stdin <;> rfl
      rw [hgetD, hgetD, hstdin, hpq]
    · exact hpq

/-! ### Main statement -/

/-- On fresh caches, sources that are one question to the memo of roots are answered as the first of
them would be if just those were replaced that the second spell as the mark of the standard input. So
the answers agree when the same sources are spelled as the mark, or no file name is given. Then both
are the same root or both are errors, which may show how a source is spelled if the base is
relative. -/
theorem locate_respelled (h : sourceKey sources stdin = sourceKey sources' stdin') :
    let answer sources stdin := (run (s.locate t sources stdin) {}).1
    AgreeUpToSpelling (answer sources' stdin') (answer (substituteAs stdin sources' sources) none) ∧
      (s.base.isAbsolute = true →
        answer sources' stdin' = answer (substituteAs stdin sources' sources) none) ∧
      (stdin = none ∨
          List.Forall₂ (fun p q => p.text = stdinMark ↔ q.text = stdinMark) sources sources' →
        AgreeUpToSpelling (answer sources stdin) (answer sources' stdin') ∧
          (∀ root, answer sources stdin = .ok root ↔ answer sources' stdin' = .ok root) ∧
          (s.base.isAbsolute = true → answer sources stdin = answer sources' stdin')) := by
  intro answer
  obtain ⟨hsources, hstdin⟩ := sourceKey_eq_iff.mp h
  have hspelled := spellTheSame_substituteAs hsources hstdin
  have hanswer (sources : List Path) (stdin : Option Path) : answer sources stdin =
      t.commonBase s.base (substitute stdin sources) >>= t.nearestRoot s.tool :=
    run_locate_empty sources stdin
  have agree : AgreeUpToSpelling (answer (substituteAs stdin sources' sources) none)
      (answer sources' stdin') := by
    rw [hanswer, hanswer, substitute_none]
    exact (FileTree.commonBase_respelled hspelled).bind _
  have same (habs : s.base.isAbsolute = true) :
      answer (substituteAs stdin sources' sources) none = answer sources' stdin' := by
    rw [hanswer, hanswer, substitute_none,
      FileTree.commonBase_respelled_of_isAbsolute habs hspelled]
  refine ⟨agree.symm, fun habs => (same habs).symm, fun hmarks => ?_⟩
  have hreplaced : answer (substituteAs stdin sources' sources) none = answer sources stdin := by
    rw [hanswer, hanswer, substitute_none, substituteAs_eq_substitute hsources hmarks]
  rw [← hreplaced]
  exact ⟨agree, fun root => agree.eq_ok_iff, same⟩

/-- The mark is spelled alike, and the other source and the file name are not. -/
theorem locate_respelled_src :
    (run (Session.locate { base := ⟨"/work"⟩ } .workTree [⟨"-"⟩, ⟨"src"⟩] (some ⟨"src/a.py"⟩)) {}).1 =
      (run (Session.locate { base := ⟨"/work"⟩ } .workTree [⟨"-"⟩, ⟨"src/."⟩]
        (some ⟨"src//a.py"⟩)) {}).1 := by
  have hkey : sourceKey [⟨"-"⟩, ⟨"src"⟩] (some ⟨"src/a.py"⟩) =
      sourceKey [⟨"-"⟩, ⟨"src/."⟩] (some ⟨"src//a.py"⟩) := by decide
  obtain ⟨-, -, hsame⟩ := locate_respelled (s := { base := ⟨"/work"⟩ }) (t := .workTree) hkey
  exact (hsame (.inr (.cons (by decide) (.cons (by decide) .nil)))).2.2 (by decide)

/-- With a slash the mark of the standard input is a source of this name, to the search for a root but
not to the memo. -/
theorem locate_respelled_mark :
    sourceKey [⟨"-"⟩] (some ⟨"pkg/x.py"⟩) = sourceKey [⟨"-/"⟩] (some ⟨"pkg/x.py"⟩) ∧
      (run (Session.locate { base := ⟨"/"⟩ } .subprojectTree [⟨"-"⟩] (some ⟨"pkg/x.py"⟩)) {}).1 =
        .ok ⟨⟨"/pkg"⟩, .projectFile⟩ ∧
      (run (Session.locate { base := ⟨"/"⟩ } .subprojectTree [⟨"-/"⟩] (some ⟨"pkg/x.py"⟩)) {}).1 =
        .ok ⟨⟨"/"⟩, .git⟩ := by
  decide +kernel

end Session

end ProjectScope

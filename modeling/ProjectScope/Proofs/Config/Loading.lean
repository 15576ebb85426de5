import Mathlib.Data.List.Perm.Basic
import ProjectScope.Proofs.Config.Renaming
import ProjectScope.Proofs.Config.Sections
import ProjectScope.Proofs.Result
import ProjectScope.Proofs.Session.Answers
import ProjectScope.Session.Files

/-!
# Options with inferred targets

The options of a tool are what its section says. Where the section names no targets, those that the
project admits are put in among the options and can be read back from there. Nothing else is added,
and nothing that is written changes.
-/

namespace ProjectScope

open Toml

/-! ### Targets by their names -/

lemma Target.parse_name (t : Target) : Target.parse t.name = .ok t := by
  cases t <;> decide

namespace Targets

/-- Whether targets stand in ascending order, each of them once. -/
def IsAscending (ts : Targets) : Prop := ts.Pairwise (·.minor < ·.minor)

lemma isAscending_filter (p : Target → Bool) : IsAscending (Target.all.filter p) :=
  List.Pairwise.filter p (by decide)

/-- Targets in ascending order are already as they are collected. -/
lemma ofList_of_isAscending {ts : Targets} (h : ts.IsAscending) : Targets.ofList ts = ts := by
  have hnodup (us : Targets) (hus : us.IsAscending) : us.Nodup :=
    hus.imp fun hlt heq => absurd (congrArg Target.minor heq) (UInt64.ne_of_lt hlt)
  have hsorted : (Targets.ofList ts).Pairwise (·.minor < ·.minor) := isAscending_filter _
  refine List.Perm.eq_of_pairwise ?_ hsorted h ?_
  · intro t u _ _ htu hut
    exact absurd htu (UInt64.lt_asymm hut)
  · rw [List.perm_ext_iff_of_nodup (hnodup _ hsorted) (hnodup _ h)]
    intro t
    exact mem_ofList

end Targets

lemma VersionRange.isAscending_of_targets {range : VersionRange} {ts : Targets}
    (h : range.targets.value = .ok (some ts)) : ts.IsAscending := by
  cases range with
  | exact v =>
    cases hv : exactTarget? v with
    | none =>
      simp only [targets, hv] at h
      cases h
    | some t =>
      simp only [targets, hv] at h
      cases h
      exact List.pairwise_singleton _ t
  | specifiers xs =>
    simp only [targets] at h
    split at h
    · cases h
    · split_ifs at h
      · cases h
      · cases h
      · cases h
        exact Targets.isAscending_filter _

lemma isAscending_of_inferTargets {s : String} {ts : Targets}
    (h : (inferTargets s).value = some ts) : ts.IsAscending := by
  simp only [inferTargets] at h
  split at h
  · cases h
  · split at h
    · rename_i hts
      cases h
      exact VersionRange.isAscending_of_targets hts
    · cases h
    · cases h

namespace Options

variable {o : Options} {ts : Targets}

/-! ### Options and targets -/

lemma targets_of_get?_eq_none (h : o.get? targetOption = none) : o.targets = .ok none := by
  rw [targets, h]

/-- Targets that have been configured are read back. -/
lemma targets_withTargets (h : ts.IsAscending) : (o.withTargets ts).targets = .ok (some ts) := by
  have hnames : (ts.map fun t => Value.text t.name).mapM targetOf = .ok ts := by
    rw [mapM_eq_ok, List.forall₂_map_left_iff, List.forall₂_same]
    exact fun t _ => t.parse_name
  rw [targets, get?_withTargets, if_pos rfl]
  refine bind_eq_ok.mpr ⟨ts, hnames, ?_⟩
  rw [Targets.ofList_of_isAscending h]
  rfl

/-- Whether some options are others with targets put in among them. -/
structure IsExtension (written : Options) (ts : Targets) (loaded : Options) : Prop where
  /-- One entry has come in, and the others stand around it as they were. -/
  inserted : ∃ below above, written.table = below ++ above ∧
    loaded.table = below ++ (targetOption, .array (ts.map fun t => .text t.name)) :: above
  ordered : loaded.table.IsOrdered
  ascending : ts.IsAscending
  /-- The targets can be read from the options. -/
  readBack : loaded.targets = .ok (some ts)

lemma isExtension_withTargets (hordered : o.table.IsOrdered) (hnone : o.get? targetOption = none)
    (hts : ts.IsAscending) : IsExtension o ts (o.withTargets ts) where
  inserted := Table.exists_insert_eq (Table.get?_eq_none_iff.mp hnone)
  ordered := hordered.insert
  ascending := hts
  readBack := targets_withTargets hts

end Options

namespace ProjectFile

variable {document entries : Table} {tool : String}

/-! ### Loaded options -/

/-- What is loaded where a section has the given entries. -/
structure IsLoaded (document entries : Table) (loaded : Options) : Prop where
  /-- Targets that are configured stay as they are, whatever their value and however their key is
  spelled. -/
  configured : (∃ entry ∈ entries, optionName entry.1 = targetOption) → loaded = .ofTable entries
  /-- Without them the inferred targets are put in. -/
  inferred : (∀ entry ∈ entries, optionName entry.1 ≠ targetOption) →
    ∀ text ts, RequiresPython document text → (inferTargets text).value = some ts →
      Options.IsExtension (.ofTable entries) ts loaded
  /-- Where none are inferred either, there are none. -/
  uninferred : (∀ entry ∈ entries, optionName entry.1 ≠ targetOption) →
    (∀ text ts, RequiresPython document text → (inferTargets text).value ≠ some ts) →
      loaded = .ofTable entries ∧ loaded.targets = .ok none

lemma inferredTargets_eq_some {ts : Targets} :
    (inferredTargets document).value = some ts ↔
      ∃ text, RequiresPython document text ∧ (inferTargets text).value = some ts := by
  rw [inferredTargets]
  cases h : requiresPython? document with
  | none =>
    constructor
    · rintro ⟨⟩
    · rintro ⟨text, htext, -⟩
      rw [requiresPython?_eq_some.mpr htext] at h
      cases h
  | some text =>
    constructor
    · intro hts
      exact ⟨text, requiresPython?_eq_some.mp h, hts⟩
    · rintro ⟨text', htext', hts⟩
      rw [requiresPython?_eq_some.mpr htext'] at h
      cases h
      exact hts

lemma isLoaded_options (document : Table) (tool : String) (path : Path) :
    IsLoaded document (rawOptions document tool) (options document tool path).value := by
  have hnone (h : ∀ entry ∈ rawOptions document tool, optionName entry.1 ≠ targetOption) :
      (Options.ofTable (rawOptions document tool)).get? targetOption = none := by
    rw [← Option.not_isSome_iff_eq_none, Options.isSome_get?_ofTable]
    rintro ⟨entry, hentry, hname⟩
    exact h entry hentry hname
  constructor
  · intro h
    rw [options, if_pos (Options.isSome_get?_ofTable.mpr h)]
  · intro h text ts htext hts
    have hfound := inferredTargets_eq_some.mpr ⟨text, htext, hts⟩
    simp only [options, hnone h, hfound, Option.isSome_none, Bool.false_eq_true, if_false]
    exact Options.isExtension_withTargets (Options.isOrdered_ofTable _) (hnone h)
      (isAscending_of_inferTargets hts)
  · intro h hno
    have hfound : (inferredTargets document).value = none := by
      rw [Option.eq_none_iff_forall_ne_some]
      intro ts hts
      obtain ⟨text, htext, hts⟩ := inferredTargets_eq_some.mp hts
      exact hno text ts htext hts
    simp only [options, hnone h, hfound, Option.isSome_none, Bool.false_eq_true, if_false]
    exact ⟨trivial, Options.targets_of_get?_eq_none (hnone h)⟩

end ProjectFile

/-! ### Main statements -/

/-- Where a document can be read, loading its options comes to what its section says, and adds at
most the targets that the project admits. -/
theorem Session.options_isLoaded {s : Session} {t : FileTree} {p : Path} {j : Journal}
    {document : Table} (h : (Action.run (s.document t p) j).1 = .ok document) :
    ∃ entries loaded, ProjectFile.IsSection document s.tool entries ∧
      (Action.run (s.options t p) j).1 = .ok loaded ∧
      ProjectFile.IsLoaded document entries loaded := by
  refine ⟨ProjectFile.rawOptions document s.tool, (ProjectFile.options document s.tool p).value,
    ProjectFile.isSection_rawOptions document s.tool, ?_,
    ProjectFile.isLoaded_options document s.tool p⟩
  rw [options, Action.run_bind_of_ok h]
  rfl

/-- Two projects that require one of the targets: one of them names none for its tool, and the other
one names another target. -/
def FileTree.requiringTree : FileTree :=
  { entries := [(["pyproject.toml"],
        .file "tool.black.a=1\nproject.requires-python='3.12'".toUTF8.toList),
      (["pinned"], .directory),
      (["pinned", "pyproject.toml"],
        .file "tool.black.target-version=['py38']\nproject.requires-python='3.12'".toUTF8.toList)] }

/-- The target that a project requires is put in and can be read back. Where its tool has one, that
one is loaded by the name of its option, and nothing is put in. -/
theorem Session.options_isLoaded_requiring :
    (∃ document entries loaded,
      (Action.run (Session.document { base := ⟨"/"⟩ } .requiringTree ⟨"pyproject.toml"⟩) {}).1 =
        .ok document ∧
      ProjectFile.IsSection document defaultTool entries ∧
      (Action.run (Session.options { base := ⟨"/"⟩ } .requiringTree ⟨"pyproject.toml"⟩) {}).1 =
        .ok loaded ∧
      ProjectFile.IsLoaded document entries loaded ∧
      loaded.table.keys = ["a", "target_version"] ∧ loaded.targets = .ok (some [.py312])) ∧
    ∃ document entries loaded,
      (Action.run (Session.document { base := ⟨"/pinned"⟩ } .requiringTree ⟨"pyproject.toml"⟩)
        {}).1 = .ok document ∧
      ProjectFile.IsSection document defaultTool entries ∧
      (Action.run (Session.options { base := ⟨"/pinned"⟩ } .requiringTree ⟨"pyproject.toml"⟩)
        {}).1 = .ok loaded ∧
      ProjectFile.IsLoaded document entries loaded ∧
      loaded.table.keys = ["target_version"] ∧ loaded.targets = .ok (some [.py38]) := by
  constructor
  · obtain ⟨document, hdocument⟩ : ∃ document,
        (Action.run (Session.document { base := ⟨"/"⟩ } .requiringTree ⟨"pyproject.toml"⟩) {}).1 =
          .ok document :=
      exists_of_isOk (by decide +kernel)
    obtain ⟨entries, loaded, hsection, hrun, hloaded⟩ := options_isLoaded hdocument
    have hfound : (fun o => (o.table.keys, o.targets)) <$> (Action.run (Session.options
        { base := ⟨"/"⟩ } .requiringTree ⟨"pyproject.toml"⟩) {}).1 =
          .ok (["a", "target_version"], .ok (some [.py312])) := by
      decide +kernel
    rw [hrun] at hfound
    obtain ⟨hkeys, htargets⟩ := Prod.mk.inj (Except.ok.inj hfound)
    exact ⟨document, entries, loaded, hdocument, hsection, hrun, hloaded, hkeys, htargets⟩
  · obtain ⟨document, hdocument⟩ : ∃ document,
        (Action.run (Session.document { base := ⟨"/pinned"⟩ } .requiringTree ⟨"pyproject.toml"⟩)
          {}).1 = .ok document :=
      exists_of_isOk (by decide +kernel)
    obtain ⟨entries, loaded, hsection, hrun, hloaded⟩ := options_isLoaded hdocument
    have hfound : (fun o => (o.table.keys, o.targets)) <$> (Action.run (Session.options
        { base := ⟨"/pinned"⟩ } .requiringTree ⟨"pyproject.toml"⟩) {}).1 =
          .ok (["target_version"], .ok (some [.py38])) := by
      decide +kernel
    rw [hrun] at hfound
    obtain ⟨hkeys, htargets⟩ := Prod.mk.inj (Except.ok.inj hfound)
    exact ⟨document, entries, loaded, hdocument, hsection, hrun, hloaded, hkeys, htargets⟩

end ProjectScope

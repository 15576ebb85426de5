import ProjectScope.Proofs.Path.Chain
import ProjectScope.Proofs.Project.NearestRoot

/-!
# The common base

The candidates for the root of a path are the directory that the path is in and those above it. So
the directories that are candidates for all of some paths form a chain, and the deepest of them is
the longest part that the directories of the paths have in common. It hangs on which paths there
are, and not on their order or on how often each of them is given.
-/

namespace ProjectScope

open ProjectScope.Path (ofNames)

namespace FileTree

variable {t : FileTree} {p q d : Path} {resolved resolved' : List Path} {base base' : Path}

/-! ### The directory of a path -/

/-- The directory that a path is in: the path itself where it is a directory, and else its
parent. -/
def directoryOf (t : FileTree) (p : Path) : Path :=
  if t.isDirectory p then p else p.parent?.getD p

/-- Whether a path is spelled by names alone, as resolved paths are. -/
def IsSpelled (p : Path) : Prop := ∃ names, (∀ n ∈ names, IsName n) ∧ p = ofNames names

lemma realpath_root (t : FileTree) : t.realpath (ofNames []) = .ok [] :=
  realpath_ofNames .root (by decide)

lemma isDirectory_root (t : FileTree) : t.isDirectory (ofNames []) = true := by
  have hstat : t.stat (ofNames []) = .ok .directory :=
    stat_eq_ok_iff.mpr ⟨by decide, [], realpath_root t, rfl⟩
  rw [isDirectory, hstat]
  rfl

/-- What is no directory lies in the one that all names but the last one spell. -/
lemma directoryOf_cases (h : IsSpelled p) :
    (t.isDirectory p = true ∧ t.directoryOf p = p) ∨
      (t.isDirectory p = false ∧ ∃ front, (∀ n ∈ front, IsName n) ∧
        t.directoryOf p = ofNames front ∧ p.properAncestors = (ofNames front).ancestors) := by
  cases hdir : t.isDirectory p with
  | true => exact .inl ⟨rfl, if_pos hdir⟩
  | false =>
    right
    obtain ⟨names, hnames, rfl⟩ := h
    obtain rfl | ⟨front, n, rfl⟩ := names.eq_nil_or_concat'
    · rw [isDirectory_root] at hdir
      cases hdir
    · have habove := Path.properAncestors_ofNames_concat hnames
      refine ⟨rfl, front, fun m hm => hnames m (List.mem_append_left [n] hm), ?_, habove⟩
      rw [directoryOf, hdir, Path.parent?, habove]
      rfl

lemma isSpelled_directoryOf (h : IsSpelled p) : IsSpelled (t.directoryOf p) := by
  obtain ⟨-, hdirectory⟩ | ⟨-, front, hfront, hdirectory, -⟩ := directoryOf_cases (t := t) h
  · rw [hdirectory]
    exact h
  · exact ⟨front, hfront, hdirectory⟩

/-- The candidates for the root are the directory of the path and those above it. -/
lemma candidateRoots_eq (h : IsSpelled p) : t.candidateRoots p = (t.directoryOf p).ancestors := by
  rw [candidateRoots]
  obtain ⟨hdir, hdirectory⟩ | ⟨hdir, front, -, hdirectory, habove⟩ := directoryOf_cases (t := t) h
  · rw [hdir, hdirectory]
    rfl
  · rw [hdir, hdirectory, habove]
    rfl

/-- Above a path that is spelled by names are the paths whose names lead to it. -/
lemma mem_ancestors_iff (h : IsSpelled q) :
    d ∈ q.ancestors ↔ IsSpelled d ∧ d.components <+: q.components := by
  obtain ⟨names, hnames, rfl⟩ := h
  rw [Path.mem_ancestors_ofNames hnames, Path.components_ofNames hnames]
  constructor
  · rintro ⟨front, hfront, rfl⟩
    have hnames' : ∀ n ∈ front, IsName n := fun n hn => hnames n (hfront.subset hn)
    refine ⟨⟨front, hnames', rfl⟩, ?_⟩
    rw [Path.components_ofNames hnames']
    exact List.cons_prefix_cons.mpr ⟨rfl, hfront.map Component.name⟩
  · rintro ⟨⟨front, hnames', rfl⟩, hleads⟩
    rw [Path.components_ofNames hnames', List.cons_prefix_cons] at hleads
    obtain ⟨kept, hkept, hmap⟩ := Path.exists_names_of_prefix hleads.2
    have hnames : front = kept := List.map_injective_iff.mpr (fun _ _ => Component.name.inj) hmap
    exact ⟨front, hnames ▸ hkept, rfl⟩

lemma mem_candidateRoots_iff (h : IsSpelled p) :
    d ∈ t.candidateRoots p ↔ IsSpelled d ∧ d.components <+: (t.directoryOf p).components := by
  rw [candidateRoots_eq h]
  exact mem_ancestors_iff (isSpelled_directoryOf h)

lemma eq_of_components_eq (hp : IsSpelled p) (hq : IsSpelled q)
    (h : p.components = q.components) : p = q := by
  obtain ⟨names, hnames, rfl⟩ := hp
  obtain ⟨names', hnames', rfl⟩ := hq
  rw [Path.components_ofNames hnames, Path.components_ofNames hnames', List.cons_inj_right] at h
  rw [List.map_injective_iff.mpr (fun _ _ => Component.name.inj) h]

/-! ### The deepest shared candidate -/

lemma root_mem_candidateRoots (h : IsSpelled p) : ofNames [] ∈ t.candidateRoots p := by
  obtain ⟨names, hnames, hdirectory⟩ := isSpelled_directoryOf (t := t) h
  rw [candidateRoots_eq h, hdirectory, Path.mem_ancestors_ofNames hnames]
  exact ⟨[], List.nil_prefix, rfl⟩

/-- The common candidate is a candidate for every path, and every other one that is lies above
it. -/
lemma commonCandidate_spec {first : Path} {rest : List Path}
    (h : ∀ p ∈ first :: rest, IsSpelled p) :
    (∀ p ∈ first :: rest, t.commonCandidate first rest ∈ t.candidateRoots p) ∧
      ∀ d, (∀ p ∈ first :: rest, d ∈ t.candidateRoots p) →
        d ∈ (t.commonCandidate first rest).ancestors := by
  obtain ⟨hfirst, hrest⟩ := List.forall_mem_cons.mp h
  have hshared (d : Path) (hd : ∀ p ∈ rest, d ∈ t.candidateRoots p) :
      (rest.all fun p => (t.candidateRoots p).any d.same) = true := by
    rw [List.all_eq_true]
    intro p hp
    exact List.any_eq_true.mpr ⟨d, hd p hp, beq_self_eq_true _⟩
  rw [commonCandidate]
  cases hfind : (t.candidateRoots first).find? _ with
  | none =>
    have hnone := List.find?_eq_none.mp hfind _ (root_mem_candidateRoots hfirst)
    exact absurd (hshared _ fun p hp => root_mem_candidateRoots (hrest p hp)) hnone
  | some d =>
    rw [Option.getD_some]
    obtain ⟨hd, below, above, hsplit, hbelow⟩ := List.find?_eq_some_iff_append.mp hfind
    have hmem : d ∈ t.candidateRoots first := by simp [hsplit]
    constructor
    · intro p hp
      rcases List.mem_cons.mp hp with rfl | hp
      · exact hmem
      · obtain ⟨d', hd', hsame⟩ := List.any_eq_true.mp (List.all_eq_true.mp hd p hp)
        have heq : d = d' := eq_of_components_eq ((mem_candidateRoots_iff hfirst).mp hmem).1
          ((mem_candidateRoots_iff (hrest p hp)).mp hd').1 (beq_iff_eq.mp hsame)
        rwa [heq]
    · intro c hc
      obtain ⟨hcfirst, hcrest⟩ := List.forall_mem_cons.mp hc
      rw [hsplit, List.mem_append] at hcfirst
      rcases hcfirst with hcbelow | hcabove
      · have hnot := hbelow c hcbelow
        rw [hshared c hcrest] at hnot
        cases hnot
      · rw [candidateRoots_eq hfirst] at hsplit
        rwa [Path.eq_properAncestors_of_ancestors hsplit] at hcabove

/-- The longest directory that the directories of some paths have in common. -/
structure IsCommonBase (t : FileTree) (resolved : List Path) (base : Path) : Prop where
  /-- The directory of every path lies there or below. -/
  shared : ∀ p ∈ resolved, base.components <+: (t.directoryOf p).components
  /-- Nothing longer leads to all of them. -/
  longest : ∀ cs, (∀ p ∈ resolved, cs <+: (t.directoryOf p).components) → cs <+: base.components
  candidate : ∀ p ∈ resolved, base ∈ t.candidateRoots p
  /-- No other candidate for all of the paths is as deep. -/
  unique : ∀ d, (∀ p ∈ resolved, d ∈ t.candidateRoots p) →
    base.components.length ≤ d.components.length → d = base

lemma isCommonBase_commonCandidate {first : Path} {rest : List Path}
    (h : ∀ p ∈ first :: rest, IsSpelled p) :
    t.IsCommonBase (first :: rest) (t.commonCandidate first rest) := by
  obtain ⟨hcandidate, hdeepest⟩ := commonCandidate_spec (t := t) h
  have hfirst := h first List.mem_cons_self
  obtain ⟨names, hnames, hbase⟩ :=
    ((mem_candidateRoots_iff hfirst).mp (hcandidate first List.mem_cons_self)).1
  rw [hbase] at hcandidate hdeepest ⊢
  have hleads {d : Path} (hd : ∀ p ∈ first :: rest, d ∈ t.candidateRoots p) :
      d.components <+: (ofNames names).components :=
    Path.components_prefix_of_mem_ancestors (Path.isAbsolute_ofNames names) (hdeepest d hd)
  refine ⟨?_, ?_, hcandidate, ?_⟩
  · intro p hp
    exact ((mem_candidateRoots_iff (h p hp)).mp (hcandidate p hp)).2
  · intro cs hcs
    obtain ⟨firstNames, hfirstNames, hdirectory⟩ := isSpelled_directoryOf (t := t) hfirst
    cases cs with
    | nil => exact List.nil_prefix
    | cons c cs =>
      -- what leads to the first directory spells a path, and this path is a candidate for all
      have hc := hcs first List.mem_cons_self
      rw [hdirectory, Path.components_ofNames hfirstNames, List.cons_prefix_cons] at hc
      obtain ⟨rfl, hc⟩ := hc
      obtain ⟨front, hfront, rfl⟩ := Path.exists_names_of_prefix hc
      have hfrontNames : ∀ n ∈ front, IsName n := fun n hn => hfirstNames n (hfront.subset hn)
      rw [← Path.components_ofNames hfrontNames] at hcs ⊢
      apply hleads
      intro p hp
      exact (mem_candidateRoots_iff (h p hp)).mpr ⟨⟨front, hfrontNames, rfl⟩, hcs p hp⟩
  · intro d hd hlength
    apply eq_of_components_eq
    · exact ((mem_candidateRoots_iff hfirst).mp (hd first List.mem_cons_self)).1
    · exact ⟨names, hnames, rfl⟩
    · exact (hleads hd).eq_of_length_le hlength

/-- More paths have no more in common. -/
lemma IsCommonBase.mono (h : t.IsCommonBase resolved base) (h' : t.IsCommonBase resolved' base')
    (hsub : resolved ⊆ resolved') : base'.components <+: base.components :=
  h.longest _ fun p hp => h'.shared p (hsub hp)

lemma IsCommonBase.eq (h : t.IsCommonBase resolved base) (h' : t.IsCommonBase resolved' base')
    (hsame : ∀ p, p ∈ resolved' ↔ p ∈ resolved) : base' = base := by
  have hsub : resolved' ⊆ resolved := fun p hp => (hsame p).mp hp
  apply h.unique
  · intro p hp
    exact h'.candidate p ((hsame p).mpr hp)
  · exact (h'.mono h hsub).length_le

/-! ### The common base of sources -/

lemma IsPlaced.absolutize {start : Path} (h : t.IsPlaced start) (p : Path) :
    t.IsPlaced (.absolutize start p) := by
  rw [Path.absolutize]
  split_ifs with hp
  · exact .inl hp
  · exact h.imp_left Path.isAbsolute_join

/-- From sources the common base is found as soon as all of them resolve. -/
lemma isCommonBase_of_mapM {start : Path} (hplaced : t.IsPlaced start) {sources : List Path}
    (hne : sources ≠ [])
    (h : sources.mapM (fun p => t.resolve (.absolutize start p)) = .ok resolved) :
    ∃ base, t.commonBase start sources = .ok base ∧ IsSpelled base ∧
      t.IsCommonBase resolved base := by
  have hspelled : ∀ q ∈ resolved, IsSpelled q := by
    intro q hq
    obtain ⟨p, -, hp⟩ := exists_of_mem_mapM h hq
    exact exists_names_of_isPlaced (hplaced.absolutize p) hp
  cases resolved with
  | nil =>
    obtain ⟨p, hp⟩ := List.exists_mem_of_ne_nil sources hne
    obtain ⟨q, hq, -⟩ := exists_of_mapM_eq_ok h hp
    cases hq
  | cons first rest =>
    have hcommon := isCommonBase_commonCandidate (t := t) hspelled
    have hfirst := hcommon.candidate first List.mem_cons_self
    refine ⟨_, bind_eq_ok.mpr ⟨_, h, rfl⟩, ?_, hcommon⟩
    exact ((mem_candidateRoots_iff (hspelled first List.mem_cons_self)).mp hfirst).1

/-- What sources resolve to is among what more sources resolve to. -/
lemma subset_of_mapM {f : Path → Except Error Path} {sources sources' : List Path}
    (h : sources.mapM f = .ok resolved) (h' : sources'.mapM f = .ok resolved')
    (hsub : sources ⊆ sources') : resolved ⊆ resolved' := by
  intro q hq
  obtain ⟨p, hp, hpq⟩ := exists_of_mem_mapM h hq
  obtain ⟨q', hq', hpq'⟩ := exists_of_mapM_eq_ok h' (hsub hp)
  rw [hpq] at hpq'
  cases hpq'
  exact hq'

end FileTree

/-! ### Main statements -/

namespace Session

/-- From sources that resolve, the common base is the longest directory that their directories have
in common, whatever is remembered. It stays the same for the same sources in another order or
number, and more sources leave it where it is or move it upwards. -/
theorem commonBase_isCommonBase {s : Session} {t : FileTree} {sources : List Path}
    {stdin : Option Path} (hplaced : t.IsPlaced s.base) (hne : sources ≠ [])
    (hresolve : ∀ p ∈ substitute stdin sources, ∃ q, t.resolve (.absolutize s.base p) = .ok q) :
    ∃ resolved base,
      (substitute stdin sources).mapM (fun p => t.resolve (.absolutize s.base p)) = .ok resolved ∧
      t.IsCommonBase resolved base ∧
      (∀ sources' j, (∀ p, p ∈ sources' ↔ p ∈ sources) → j.caches.IsSound t s.base →
        (Action.run (s.commonBase t sources' stdin) j).1 = .ok base) ∧
      ∀ sources' j base', sources ⊆ sources' → j.caches.IsSound t s.base →
        (Action.run (s.commonBase t sources' stdin) j).1 = .ok base' → base' ∈ base.ancestors := by
  have hne' {sources' : List Path} (hsub : sources ⊆ sources') :
      substitute stdin sources' ≠ [] := by
    obtain ⟨p, hp⟩ := List.exists_mem_of_ne_nil sources hne
    exact List.ne_nil_of_mem (List.mem_map_of_mem (hsub hp))
  obtain ⟨resolved, hresolved⟩ := exists_mapM_eq_ok hresolve
  obtain ⟨base, -, hspelled, hcommon⟩ :=
    FileTree.isCommonBase_of_mapM hplaced (hne' (List.Subset.refl sources)) hresolved
  refine ⟨resolved, base, hresolved, hcommon, ?_, ?_⟩
  · intro sources' j hsame hsound
    have hsub : sources' ⊆ sources := fun p hp => (hsame p).mp hp
    have hsub' : sources ⊆ sources' := fun p hp => (hsame p).mpr hp
    obtain ⟨resolved', hresolved'⟩ :=
      exists_mapM_eq_ok fun p hp => hresolve p (List.map_subset _ hsub hp)
    obtain ⟨base', hbase', -, hcommon'⟩ :=
      FileTree.isCommonBase_of_mapM hplaced (hne' hsub') hresolved'
    have hmem (q : Path) : q ∈ resolved' ↔ q ∈ resolved :=
      ⟨fun hq => FileTree.subset_of_mapM hresolved' hresolved (List.map_subset _ hsub) hq,
        fun hq => FileTree.subset_of_mapM hresolved hresolved' (List.map_subset _ hsub') hq⟩
    rw [(answers_commonBase sources' stdin j hsound).1, hbase', hcommon.eq hcommon' hmem]
  · intro sources' j base' hsub hsound hrun
    rw [(answers_commonBase sources' stdin j hsound).1] at hrun
    obtain ⟨resolved', hresolved', -⟩ := bind_eq_ok.mp hrun
    obtain ⟨base'', hbase'', hspelled', hcommon'⟩ :=
      FileTree.isCommonBase_of_mapM hplaced (hne' hsub) hresolved'
    rw [hbase''] at hrun
    cases hrun
    apply (FileTree.mem_ancestors_iff hspelled).mpr
    refine ⟨hspelled', hcommon.mono hcommon' ?_⟩
    exact FileTree.subset_of_mapM hresolved hresolved' (List.map_subset _ hsub)

/-- The standard input has the name of a file in the source directory, and the other source is a
link to this directory. -/
theorem commonBase_isCommonBase_work :
    ∃ resolved,
      (substitute (some ⟨"src/a.py"⟩) [⟨"-"⟩, ⟨"link"⟩]).mapM
        (fun p => FileTree.workTree.resolve (.absolutize ⟨"/work"⟩ p)) = .ok resolved ∧
      FileTree.workTree.IsCommonBase resolved ⟨"/work/src"⟩ := by
  have hresolve : ∀ p ∈ substitute (some ⟨"src/a.py"⟩) [⟨"-"⟩, ⟨"link"⟩],
      ∃ q, FileTree.workTree.resolve (.absolutize ⟨"/work"⟩ p) = .ok q := by
    intro p hp
    simp only [substitute, List.map_cons, List.map_nil, List.mem_cons, List.not_mem_nil,
      or_false] at hp
    rcases hp with rfl | rfl
    · exact ⟨⟨"/work/src/a.py"⟩, by decide +kernel⟩
    · exact ⟨⟨"/work/src"⟩, by decide +kernel⟩
  obtain ⟨resolved, base, hresolved, hcommon, hrun, -⟩ :=
    commonBase_isCommonBase (s := { base := ⟨"/work"⟩ }) (.inl (by decide)) (by simp) hresolve
  have hfound : (Action.run (Session.commonBase { base := ⟨"/work"⟩ } .workTree
      [⟨"-"⟩, ⟨"link"⟩] (some ⟨"src/a.py"⟩)) {}).1 = .ok ⟨"/work/src"⟩ := by
    decide +kernel
  rw [hrun _ {} (fun p => Iff.rfl) (Caches.isSound_empty _ _)] at hfound
  cases hfound
  exact ⟨resolved, hresolved, hcommon⟩

end Session

end ProjectScope

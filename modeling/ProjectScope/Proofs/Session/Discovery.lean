import ProjectScope.Proofs.Path.Ancestors
import ProjectScope.Proofs.Session.Caches
import ProjectScope.Session.Discovery

/-!
# Discovery without caches

Each step of the discovery of a root is given once more as a result on the tree alone. From sound
caches the steps of a session answer these results.
-/

namespace ProjectScope

namespace FileTree

variable {t : FileTree} {p q : Path}

/-! ### Results on the tree -/

/-- The marker that makes a directory the root, if it has one. -/
def marker? (t : FileTree) (tool : String) (directory : Path) :
    Except Error (Option RootReason) := do
  if (← t.probe (directory.child gitMarker)).isSome then return some .git
  if (← t.probe (directory.child mercurialMarker)).any Entry.isDirectory then
    return some .mercurial
  let file := directory.child projectFileName
  if (← t.probe file).any Entry.isFile then
    if ← t.hasTool tool file then return some .projectFile
  return none

/-- The first of some directories that has a marker. -/
def firstMarked? (t : FileTree) (tool : String) : List Path → Except Error (Option ProjectRoot)
  | [] => return none
  | directory :: rest => do
    match ← t.marker? tool directory with
    | some reason => return some ⟨directory, reason⟩
    | none => firstMarked? t tool rest

/-- The nearest directory with a marker, from a base upwards, or else the file system's root. -/
def nearestRoot (t : FileTree) (tool : String) (base : Path) : Except Error ProjectRoot := do
  return (← t.firstMarked? tool base.ancestors).getD ⟨base.top, .fileSystemRoot⟩

/-- The deepest directory that is a candidate root for every source, and for the base without
sources. -/
def commonBase (t : FileTree) (base : Path) (sources : List Path) : Except Error Path := do
  match ← sources.mapM fun p => t.resolve (.absolutize base p) with
  | [] => return t.commonCandidate (← t.resolve (.absolutize base base)) []
  | first :: rest => return t.commonCandidate first rest

/-! ### The common base -/

lemma mem_ancestors_of_mem_candidateRoots (h : q ∈ t.candidateRoots p) : q ∈ p.ancestors := by
  rw [candidateRoots, List.mem_append] at h
  rcases h with h | h
  · split_ifs at h
    · rw [List.mem_singleton.mp h]
      exact Path.mem_ancestors_self p
    · cases h
  · exact List.mem_cons_of_mem p h

/-- The common candidate of absolute paths lies above all of them. -/
lemma components_commonCandidate {first : Path} {rest : List Path}
    (h : ∀ p ∈ first :: rest, p.isAbsolute = true) (hp : p ∈ first :: rest) :
    (t.commonCandidate first rest).components <+: p.components := by
  obtain ⟨hfirst, hrest⟩ := List.forall_mem_cons.mp h
  rw [commonCandidate]
  cases hd : (t.candidateRoots first).find? _ with
  | none =>
    rw [Option.getD_none, Path.components_top hfirst, Path.components_of_isAbsolute (h p hp)]
    simp
  | some d =>
    rw [Option.getD_some]
    rcases List.mem_cons.mp hp with rfl | hp
    · exact Path.components_prefix_of_mem_ancestors hfirst
        (mem_ancestors_of_mem_candidateRoots (List.mem_of_find?_eq_some hd))
    · have hshared := List.find?_some hd
      have hshared := List.all_eq_true.mp hshared p hp
      obtain ⟨d', hd', hsame⟩ := List.any_eq_true.mp hshared
      rw [beq_iff_eq.mp hsame]
      exact Path.components_prefix_of_mem_ancestors (hrest p hp)
        (mem_ancestors_of_mem_candidateRoots hd')

lemma isAbsolute_commonCandidate {first : Path} {rest : List Path} (h : first.isAbsolute = true) :
    (t.commonCandidate first rest).isAbsolute = true := by
  rw [commonCandidate]
  cases hd : (t.candidateRoots first).find? _ with
  | none => exact Path.isAbsolute_of_mem_ancestors h (Path.top_mem_ancestors first)
  | some d =>
    exact Path.isAbsolute_of_mem_ancestors h
      (mem_ancestors_of_mem_candidateRoots (List.mem_of_find?_eq_some hd))

/-- The common base lies above all sources once they are resolved. -/
lemma commonBase_spec {base b : Path} {sources : List Path}
    (h : t.commonBase base sources = .ok b) :
    b.isAbsolute = true ∧ ∀ p ∈ sources, ∃ q, t.resolve (.absolutize base p) = .ok q ∧
      b.components <+: q.components := by
  obtain ⟨resolved, hresolved, h⟩ := bind_eq_ok.mp h
  have habs : ∀ q ∈ resolved, q.isAbsolute = true := by
    intro q hq
    obtain ⟨p, -, hp⟩ := exists_of_mem_mapM hresolved hq
    exact isAbsolute_of_resolve hp
  cases resolved with
  | nil =>
    obtain ⟨q, hq, h⟩ := bind_eq_ok.mp h
    cases h
    refine ⟨isAbsolute_commonCandidate (isAbsolute_of_resolve hq), fun p hp => ?_⟩
    obtain ⟨q, hq, -⟩ := exists_of_mapM_eq_ok hresolved hp
    cases hq
  | cons first rest =>
    cases h
    refine ⟨isAbsolute_commonCandidate (habs first List.mem_cons_self), fun p hp => ?_⟩
    obtain ⟨q, hq, hpq⟩ := exists_of_mapM_eq_ok hresolved hp
    exact ⟨q, hpq, components_commonCandidate habs hq⟩

end FileTree

namespace Session

open ProjectScope.Action

variable {s : Session} {t : FileTree}

/-! ### Answers of a session -/

lemma answers_marker? {directory : Path} (habs : directory.isAbsolute = true) :
    Answers (Caches.IsSound t s.base) (s.marker? t directory) (t.marker? s.tool directory) := by
  have hfile : (directory.child projectFileName).isAbsolute = true := Path.isAbsolute_join habs
  refine (answers_ofResult _).bind fun git _ => ?_
  split_ifs
  · exact answers_pure _
  refine (answers_ofResult _).bind fun mercurial _ => ?_
  split_ifs
  · exact answers_pure _
  refine (answers_ofResult _).bind fun file _ => ?_
  split_ifs
  · refine (answers_hasTool hfile).bind fun named _ => ?_
    split_ifs
    · exact answers_pure _
    · exact (answers_log _).bind (g := fun _ => .ok none) fun _ _ => answers_pure none
  · exact answers_pure _

lemma answers_firstMarked? {directories : List Path}
    (habs : ∀ d ∈ directories, d.isAbsolute = true) :
    Answers (Caches.IsSound t s.base) (s.firstMarked? t directories)
      (t.firstMarked? s.tool directories) := by
  induction directories with
  | nil => exact answers_pure none
  | cons d rest ih =>
    obtain ⟨hd, hrest⟩ := List.forall_mem_cons.mp habs
    refine (answers_marker? hd).bind fun reason _ => ?_
    cases reason with
    | none => exact ih hrest
    | some reason => exact answers_pure _

lemma answers_walk {base : Path} (habs : base.isAbsolute = true) :
    Answers (Caches.IsSound t s.base) (s.walk t base) (t.nearestRoot s.tool base) :=
  (answers_firstMarked? fun _ hd => Path.isAbsolute_of_mem_ancestors habs hd).bind
    fun _ _ => answers_pure _

lemma answers_commonBase (sources : List Path) (stdin : Option Path) :
    Answers (Caches.IsSound t s.base) (s.commonBase t sources stdin)
      (t.commonBase s.base (substitute stdin sources)) := by
  refine (Answers.mapM answers_resolve _).bind fun resolved _ => ?_
  cases resolved with
  | nil => exact (answers_resolve s.base).bind fun _ _ => answers_pure _
  | cons first rest => exact answers_pure _

/-- Look for a root without looking for a remembered one first. -/
def discover (s : Session) (t : FileTree) (sources : List Path) (stdin : Option Path) :
    Action ProjectRoot := do
  let base ← s.commonBase t sources stdin
  let root ← s.walk t base
  .log [.debug ("project root " ++ root.path.text ++ " (" ++ root.reason.text ++
    ") from common base " ++ base.text)]
  return root

lemma locate_eq_remembered (s : Session) (t : FileTree) (sources : List Path)
    (stdin : Option Path) :
    s.locate t sources stdin =
      remembered .roots (sourceKey sources stdin) (s.discover t sources stdin) := rfl

lemma answers_discover (sources : List Path) (stdin : Option Path) :
    Answers (Caches.IsSound t s.base) (s.discover t sources stdin)
      (t.commonBase s.base (substitute stdin sources) >>= t.nearestRoot s.tool) := by
  have hfind := (answers_commonBase (s := s) (t := t) sources stdin).bind fun base hbase =>
    (answers_walk (FileTree.commonBase_spec hbase).1).bind fun root _ =>
      (answers_log [.debug ("project root " ++ root.path.text ++ " (" ++ root.reason.text ++
        ") from common base " ++ base.text)]).bind fun _ _ => answers_pure root
  have hsame : (fun base => t.nearestRoot s.tool base >>= fun root => Except.ok () >>= fun _ =>
      Except.ok root) = t.nearestRoot s.tool := by
    funext base
    exact bind_pure (t.nearestRoot s.tool base)
  rw [hsame] at hfind
  exact hfind

/-- From sound caches a root is located as on the tree alone, unless one is remembered. -/
lemma run_locate {j : Journal} (h : Caches.IsSound t s.base j.caches) (sources : List Path)
    (stdin : Option Path) :
    (Action.run (s.locate t sources stdin) j).1 =
      match j.caches.roots.get? (sourceKey sources stdin) with
      | some root => .ok root
      | none => t.commonBase s.base (substitute stdin sources) >>= t.nearestRoot s.tool := by
  have found := (answers_discover sources stdin j h).1
  have hroots : CachePart.roots.get j.caches = j.caches.roots := rfl
  rw [locate_eq_remembered, run_remembered, hroots]
  cases j.caches.roots.get? (sourceKey sources stdin) with
  | some root => rfl
  | none =>
    rw [← found]
    dsimp only
    rcases Action.run (s.discover t sources stdin) j with ⟨_ | _, _⟩ <;> rfl

/-- On fresh caches a root is located as on the tree alone. -/
lemma run_locate_empty (sources : List Path) (stdin : Option Path) :
    (Action.run (s.locate t sources stdin) {}).1 =
      t.commonBase s.base (substitute stdin sources) >>= t.nearestRoot s.tool :=
  run_locate (Caches.isSound_empty t s.base) sources stdin

end Session

end ProjectScope

import ProjectScope.Proofs.Project.NearestRoot
import ProjectScope.Proofs.Session.Frames

/-!
# Caches that cannot be seen

While the disk stays as it is, the caches of paths, documents and ignore specs only save work: after
any run a call answers what it would answer with nothing found out yet. Calls that ask for a root by
its sources are left out, since a remembered root may have been located for another tool.
-/

namespace ProjectScope

open ProjectScope.Action

/-! ### Answers that do not hang on the caches -/

lemma Action.Answers.tryCatch {α : Type} {I : Caches → Prop} {x : Action α}
    {handle : Error → Action α} {r : Except Error α} {h : Error → Except Error α}
    (hx : Answers I x r) (hhandle : ∀ e, Answers I (handle e) (h e)) :
    Answers I (tryCatch x handle) (tryCatch r h) := by
  intro j hj
  obtain ⟨hr, hleft⟩ := hx j hj
  rw [run_tryCatch]
  rcases hrun : x.run j with ⟨e | a, j'⟩
  all_goals rw [hrun] at hr hleft
  · cases hr
    exact hhandle e j' hleft
  · cases hr
    exact ⟨rfl, hleft⟩

/-- The configuration file that applies below a root, when the file of the user is where it is given
to be. -/
def FileTree.configBelow (t : FileTree) (user : Option Path) (root : ProjectRoot) :
    Option FoundConfig :=
  let file := root.path.child projectFileName
  if t.isFile file then some ⟨file, .project, root⟩
  else match user with
    | some user => if t.isFile user then some ⟨user, .user, root⟩ else none
    | none => none

namespace Session

variable {s : Session} {t : FileTree}

lemma answers_userConfig :
    Answers (Caches.IsSound t s.base) (s.userConfig t)
      (s.user.configPath s.tool >>= fun p => t.resolve (.absolutize s.base p)) :=
  (answers_ofResult _).bind fun p _ => answers_resolve p

/-- Whatever the reason is for which the file of the user is not determined, there is none. -/
lemma answers_userConfig? :
    Answers (Caches.IsSound t s.base) (s.userConfig? t)
      (.ok (s.user.configPath s.tool >>= fun p => t.resolve (.absolutize s.base p)).toOption) := by
  have htry := Answers.tryCatch (h := fun _ => .ok none)
    (answers_userConfig (s := s) (t := t) |>.bind fun p _ => answers_pure (some p))
    fun e => (answers_log [.debug ("ignoring user-level configuration: " ++ e.message)]).bind
      (g := fun _ => .ok none) fun _ _ => answers_pure none
  cases hr : s.user.configPath s.tool >>= fun p => t.resolve (.absolutize s.base p)
  all_goals
    rw [hr] at htry
    exact htry

lemma answers_findBelow (root : ProjectRoot) :
    Answers (Caches.IsSound t s.base) (s.findBelow t root)
      (.ok (t.configBelow (s.user.configPath s.tool >>= fun p =>
        t.resolve (.absolutize s.base p)).toOption root)) := by
  dsimp only [findBelow, FileTree.configBelow]
  split_ifs
  · exact answers_pure _
  · refine (answers_userConfig? (s := s) (t := t)).bind
      (g := fun user? => .ok (match user? with
        | some user => if t.isFile user then some (FoundConfig.mk user .user root) else none
        | none => none)) fun user? _ => ?_
    cases user? with
    | none => exact answers_pure none
    | some user => exact answers_pure _

section Placed

variable (names : ∀ n ∈ t.workingDirectory, IsName n)
include names

lemma exists_answers_hasTool (p : Path) :
    ∃ r, Answers (Caches.IsSound t s.base) (s.hasTool t p) r :=
  (answers_document (.inr names)).exists_bind fun _ => ⟨_, answers_pure _⟩

lemma exists_answers_marker? (directory : Path) :
    ∃ r, Answers (Caches.IsSound t s.base) (s.marker? t directory) r := by
  refine (answers_ofResult _).exists_bind fun git => ?_
  split_ifs
  · exact ⟨_, answers_pure _⟩
  refine (answers_ofResult _).exists_bind fun mercurial => ?_
  split_ifs
  · exact ⟨_, answers_pure _⟩
  refine (answers_ofResult _).exists_bind fun file => ?_
  split_ifs
  · obtain ⟨r, hr⟩ := exists_answers_hasTool (s := s) names (directory.child projectFileName)
    refine hr.exists_bind fun named => ?_
    split_ifs
    · exact ⟨_, answers_pure _⟩
    · exact (answers_log _).exists_bind fun _ => ⟨_, answers_pure _⟩
  · exact ⟨_, answers_pure _⟩

lemma exists_answers_firstMarked? (directories : List Path) :
    ∃ r, Answers (Caches.IsSound t s.base) (s.firstMarked? t directories) r := by
  induction directories with
  | nil => exact ⟨_, answers_pure none⟩
  | cons d rest ih =>
    obtain ⟨r, hr⟩ := exists_answers_marker? (s := s) names d
    refine hr.exists_bind fun reason => ?_
    cases reason with
    | none => exact ih
    | some reason => exact ⟨_, answers_pure _⟩

/-- What a call answers from sound caches does not hang on them, unless it asks for a root. -/
lemma exists_answers_call {c : Call} (hc : c.asksForRoot = false) :
    ∃ r, Answers (Caches.IsSound t s.base) (c.action s t) r := by
  have placed (p : Path) : t.IsPlaced (.absolutize s.base p) := .inr names
  cases c with
  | resolve p => exact ⟨_, answers_resolve p⟩
  | relativeTo root source => exact ⟨_, (answers_resolve source).bind fun _ _ => answers_pure _⟩
  | document p => exact ⟨_, answers_document (placed p)⟩
  | hasTool p => exact exists_answers_hasTool names p
  | rawOptions p => exact (answers_document (placed p)).exists_bind fun _ => ⟨_, answers_pure _⟩
  | options p => exact (answers_document (placed p)).exists_bind fun _ => ⟨_, answers_ofLogged _⟩
  | ignoreSpec root => exact ⟨_, answers_ignoreSpec (placed root)⟩
  | userConfig => exact ⟨_, answers_userConfig⟩
  | commonBase sources stdin => exact ⟨_, answers_commonBase sources stdin⟩
  | walk base =>
    obtain ⟨r, hr⟩ := exists_answers_firstMarked? (s := s) names base.ancestors
    exact hr.exists_bind fun _ => ⟨_, answers_pure _⟩
  | locate sources stdin => cases hc
  | findConfig sources stdin => cases hc

end Placed

/-! ### Soundness of the caches -/

variable {j : Journal}

lemma isSound_run_locate (h : Caches.IsSound t s.base j.caches) (sources : List Path)
    (stdin : Option Path) :
    Caches.IsSound t s.base (Action.run (s.locate t sources stdin) j).2.caches := by
  rw [locate_eq_remembered, run_remembered]
  have found := (answers_discover sources stdin j h).2
  cases (CachePart.roots.get j.caches).get? (sourceKey sources stdin) with
  | some root => exact h
  | none =>
    dsimp only
    rcases hrun : Action.run (s.discover t sources stdin) j with ⟨e | root, j'⟩
    all_goals rw [hrun] at found
    · exact found
    · exact ⟨found.paths, found.documents, found.ignores⟩

lemma isSound_run_findConfig (h : Caches.IsSound t s.base j.caches) (sources : List Path)
    (stdin : Option Path) :
    Caches.IsSound t s.base (Action.run (s.findConfig t sources stdin) j).2.caches := by
  have located := isSound_run_locate h sources stdin
  rw [findConfig_eq]
  cases hrun : (Action.run (s.locate t sources stdin) j).1 with
  | error e =>
    rw [run_bind_of_error hrun]
    exact located
  | ok root =>
    rw [run_bind_of_ok hrun]
    exact (answers_findBelow root _ located).2

end Session

namespace Run

variable {σ : Run}

/-- The caches hold what is found on the disk as it is. -/
def IsSound (σ : Run) : Prop := Caches.IsSound σ.tree σ.session.base σ.journal.caches

lemma IsSound.perform (names : ∀ n ∈ σ.tree.workingDirectory, IsName n) (h : σ.IsSound)
    (c : Call) : (σ.perform c).IsSound := by
  cases hc : c.asksForRoot with
  | false =>
    obtain ⟨r, hr⟩ := Session.exists_answers_call (s := σ.session) names hc
    exact (hr σ.journal h).2
  | true =>
    cases c with
    | locate sources stdin => exact Session.isSound_run_locate h sources stdin
    | findConfig sources stdin => exact Session.isSound_run_findConfig h sources stdin
    | _ => cases hc

lemma tree_step {step : Step} (hstep : step.keepsTree = true) : (σ.step step).tree = σ.tree := by
  cases step with
  | change t => cases hstep
  | _ => rfl

lemma tree_after {history : List Step} (still : ∀ step ∈ history, step.keepsTree = true) :
    (σ.after history).tree = σ.tree := by
  induction history generalizing σ with
  | nil => rfl
  | cons step rest ih =>
    obtain ⟨hstep, hrest⟩ := List.forall_mem_cons.mp still
    rw [after_cons, ih hrest, tree_step hstep]

lemma IsSound.step (names : ∀ n ∈ σ.tree.workingDirectory, IsName n) (h : σ.IsSound)
    {step : Step} (hstep : step.keepsTree = true) : (σ.step step).IsSound := by
  cases step with
  | call c => exact h.perform names c
  | forTool tool => exact h
  | forUser user => exact h
  | change t => cases hstep

/-- The caches stay sound in every run on a disk that stays as it is. -/
lemma IsSound.after (names : ∀ n ∈ σ.tree.workingDirectory, IsName n) (h : σ.IsSound)
    {history : List Step} (still : ∀ step ∈ history, step.keepsTree = true) :
    (σ.after history).IsSound := by
  induction history generalizing σ with
  | nil => exact h
  | cons step rest ih =>
    obtain ⟨hstep, hrest⟩ := List.forall_mem_cons.mp still
    refine ih ?_ (h.step names hstep) hrest
    rwa [tree_step hstep]

lemma isSound_fresh (σ : Run) : σ.fresh.IsSound := Caches.isSound_empty _ _

/-! ### Main statement -/

/-- After any run on a disk that stays as it is, a call answers what it would answer with nothing
found out yet, for the tool and the environment that are set now. -/
theorem answer_after_eq_fresh {s : Session} {t : FileTree}
    (names : ∀ n ∈ t.workingDirectory, IsName n) {history : List Step}
    (still : ∀ step ∈ history, step.keepsTree = true) {c : Call} (hc : c.asksForRoot = false) :
    (after ⟨s, t, {}⟩ history).answer c = (after ⟨s, t, {}⟩ history).fresh.answer c := by
  have htree : (after ⟨s, t, {}⟩ history).tree = t := tree_after still
  have sound := IsSound.after (σ := ⟨s, t, {}⟩) names (Caches.isSound_empty t s.base) still
  generalize after ⟨s, t, {}⟩ history = σ at htree sound
  subst htree
  -- there is one answer from all sound caches, and the empty ones are sound as well
  obtain ⟨r, hr⟩ := Session.exists_answers_call (s := σ.session) names hc
  exact (hr _ sound).1.trans (hr _ σ.isSound_fresh).1.symm

/-- A document that was read for one tool is asked for another one, by another spelling of its path;
both the base and the working directory are not the root. -/
theorem answer_after_eq_fresh_document :
    let σ := after ⟨{ base := ⟨"src"⟩ }, { FileTree.workTree with workingDirectory := ["work"] }, {}⟩
      [.call (.hasTool ⟨"../pyproject.toml"⟩), .forTool "ruff",
        .call (.locate [⟨"../link/new.py"⟩] none)]
    σ.answer (.hasTool ⟨"..//pyproject.toml/"⟩) = σ.fresh.answer (.hasTool ⟨"..//pyproject.toml/"⟩) ∧
      σ.answer (.hasTool ⟨"..//pyproject.toml/"⟩) = .ok false := by
  have names : ∀ n ∈ ["work"], IsName n := by
    simp only [List.mem_singleton, forall_eq]
    exact ⟨by decide, by decide⟩
  exact ⟨answer_after_eq_fresh names (by decide) rfl, by decide +kernel⟩

end Run

end ProjectScope

import ProjectScope.Proofs.Session.Permanence
import ProjectScope.Proofs.Session.Transparency

/-!
# Remembered roots

Roots are remembered by sources, whatever tool they were located for. On a disk that stays as it is,
the root that is answered is the one of the first call that located a root for these sources, for
the tool that was set then.
-/

namespace ProjectScope

/-! ### Who located a root first -/

/-- The sources, and the file name of the standard input, that a call asks for the root of. -/
def Call.sources? : Call → Option (List Path × Option Path)
  | locate sources stdin => some (sources, stdin)
  | findConfig sources stdin => some (sources, stdin)
  | _ => none

/-- A root, and the session as it was set when the root was located. -/
structure Located where
  session : Session
  root : ProjectRoot
  deriving Repr

namespace Run

/-- What a step locates for the question: what it would with nothing found out yet. -/
def locates? (σ : Run) (k : SourceKey) : Step → Option Located
  | .call c =>
    match c.sources? with
    | some (sources, stdin) =>
      if Session.sourceKey sources stdin = k then
        (σ.fresh.answer (.locate sources stdin)).toOption.map fun root => ⟨σ.session, root⟩
      else none
    | none => none
  | _ => none

/-- What is located for the question by the first of some steps that succeeds in it. -/
def firstLocated? (σ : Run) (k : SourceKey) : List Step → Option Located
  | [] => none
  | step :: rest => (σ.locates? k step).or ((σ.step step).firstLocated? k rest)

variable {σ : Run} {k : SourceKey} {sources : List Path} {stdin : Option Path}

/-! ### What is remembered -/

lemma answer_locate_of_isSound (h : σ.IsSound) (sources : List Path) (stdin : Option Path) :
    σ.answer (.locate sources stdin) =
      match (σ.memo .roots).get? (Session.sourceKey sources stdin) with
      | some root => .ok root
      | none => σ.fresh.answer (.locate sources stdin) := by
  have hfresh := Session.run_locate_empty (s := σ.session) (t := σ.tree) sources stdin
  refine (Session.run_locate h sources stdin).trans ?_
  rw [← hfresh]
  rfl

lemma locates?_locate : σ.locates? k (.call (.locate sources stdin)) =
    if Session.sourceKey sources stdin = k then
      (σ.fresh.answer (.locate sources stdin)).toOption.map fun root => ⟨σ.session, root⟩
    else none := rfl

lemma get?_roots_locate (h : σ.IsSound) (sources : List Path) (stdin : Option Path) :
    ((σ.perform (.locate sources stdin)).memo .roots).get? k =
      ((σ.memo .roots).get? k).or
        ((σ.locates? k (.call (.locate sources stdin))).map Located.root) := by
  have hanswer := answer_locate_of_isSound h sources stdin
  have filled := Session.remembers_locate (s := σ.session) (t := σ.tree) (j := σ.journal) sources
    stdin
  rw [locates?_locate]
  split_ifs with hk
  · subst hk
    cases hget : (σ.memo .roots).get? (Session.sourceKey sources stdin) with
    -- what is there is kept, whatever would be located now
    | some root => exact (σ.grows_perform (.locate sources stdin)).kept .roots _ _ hget
    | none =>
      rw [hget] at hanswer
      cases hfresh : σ.fresh.answer (.locate sources stdin) with
      | ok root =>
        obtain ⟨_, rfl, -, hfound⟩ := filled.ok root (hanswer.trans hfresh)
        exact hfound
      | error e =>
        obtain ⟨hsame, -⟩ := filled.error e (hanswer.trans hfresh)
        exact (congrArg (Memo.get? · _) hsame).trans hget
  · rw [Option.map_none, Option.or_none]
    cases hfound : σ.answer (.locate sources stdin) with
    | ok root =>
      obtain ⟨_, rfl, hadd, -⟩ := filled.ok root hfound
      exact (congrArg (Memo.get? · k) hadd).trans (Memo.get?_add_of_ne root (Ne.symm hk))
    | error e =>
      obtain ⟨hsame, -⟩ := filled.error e hfound
      exact congrArg (Memo.get? · k) hsame

/-- The search for a configuration file remembers what the search for the root does. -/
lemma roots_findConfig (σ : Run) (sources : List Path) (stdin : Option Path) :
    (σ.perform (.findConfig sources stdin)).memo .roots =
      (σ.perform (.locate sources stdin)).memo .roots := by
  change (Action.run (σ.session.findConfig σ.tree sources stdin) σ.journal).2.caches.memo .roots =
    (Action.run (σ.session.locate σ.tree sources stdin) σ.journal).2.caches.memo .roots
  rw [Session.findConfig_eq]
  cases h : (Action.run (σ.session.locate σ.tree sources stdin) σ.journal).1 with
  | error e => rw [Action.run_bind_of_error h]
  | ok root =>
    rw [Action.run_bind_of_ok h]
    exact (σ.session.hasFrame_findBelow σ.tree root _).frame .roots (by simp)

/-- A step adds what it locates to the remembered roots, where there is none yet. -/
lemma get?_roots_step (h : σ.IsSound) (step : Step) :
    ((σ.step step).memo .roots).get? k =
      ((σ.memo .roots).get? k).or ((σ.locates? k step).map Located.root) := by
  cases step with
  | call c =>
    have unchanged (hc : CacheKind.roots ∉ c.frame) :
        ((σ.perform c).memo .roots).get? k = ((σ.memo .roots).get? k).or none := by
      rw [Option.or_none]
      exact congrArg (Memo.get? · k) ((σ.grows_perform c).frame .roots hc)
    cases c with
    | locate sources stdin => exact get?_roots_locate h sources stdin
    | findConfig sources stdin =>
      refine Eq.trans ?_ (get?_roots_locate h sources stdin)
      exact congrArg (Memo.get? · k) (σ.roots_findConfig sources stdin)
    | _ => exact unchanged (by simp [Call.frame])
  | forTool tool => exact Option.or_none.symm
  | forUser user => exact Option.or_none.symm
  | change t => exact Option.or_none.symm

/-- In a run on a disk that stays as it is, the first root that is located for a question is the
remembered one. -/
lemma get?_roots_after (names : ∀ n ∈ σ.tree.workingDirectory, IsName n) (h : σ.IsSound)
    {history : List Step} (still : ∀ step ∈ history, step.keepsTree = true) :
    ((σ.after history).memo .roots).get? k =
      ((σ.memo .roots).get? k).or ((σ.firstLocated? k history).map Located.root) := by
  induction history generalizing σ with
  | nil => exact Option.or_none.symm
  | cons step rest ih =>
    obtain ⟨hstep, hrest⟩ := List.forall_mem_cons.mp still
    have names' : ∀ n ∈ (σ.step step).tree.workingDirectory, IsName n := by rwa [tree_step hstep]
    rw [after_cons, ih names' (h.step names hstep) hrest, get?_roots_step h, firstLocated?,
      Option.or_assoc, Option.map_or]

lemma exists_of_locates? {step : Step} {l : Located} (h : σ.locates? k step = some l) :
    l.session = σ.session ∧ ∃ sources stdin, Session.sourceKey sources stdin = k ∧
      σ.fresh.answer (.locate sources stdin) = .ok l.root := by
  have of_locate {sources stdin} (h : σ.locates? k (.call (.locate sources stdin)) = some l) :
      l.session = σ.session ∧ ∃ sources stdin, Session.sourceKey sources stdin = k ∧
        σ.fresh.answer (.locate sources stdin) = .ok l.root := by
    rw [locates?_locate] at h
    split_ifs at h with hk
    cases hfresh : σ.fresh.answer (.locate sources stdin) with
    | error e =>
      rw [hfresh] at h
      cases h
    | ok root =>
      rw [hfresh] at h
      cases h
      exact ⟨rfl, sources, stdin, hk, hfresh⟩
  cases step with
  | call c =>
    cases c with
    | locate sources stdin => exact of_locate h
    | findConfig sources stdin => exact of_locate h
    | _ => cases h
  | _ => cases h

/-- A root that was located is what is found with nothing found out yet, for the tool that was set
then. -/
lemma exists_of_firstLocated? {history : List Step} {l : Located}
    (still : ∀ step ∈ history, step.keepsTree = true) (h : σ.firstLocated? k history = some l) :
    ∃ sources stdin, Session.sourceKey sources stdin = k ∧
      (Run.mk l.session σ.tree {}).answer (.locate sources stdin) = .ok l.root := by
  induction history generalizing σ with
  | nil => cases h
  | cons step rest ih =>
    obtain ⟨hstep, hrest⟩ := List.forall_mem_cons.mp still
    rw [firstLocated?, Option.or_eq_some_iff] at h
    rcases h with h | ⟨-, h⟩
    · obtain ⟨hsession, sources, stdin, hk, hfresh⟩ := exists_of_locates? h
      rw [hsession]
      exact ⟨sources, stdin, hk, hfresh⟩
    · rw [← tree_step hstep]
      exact ih hrest h

/-- A root with a project file as its marker has one with an entry of the tool that it was located
for. -/
lemma hasMarker_of_locate {s : Session} {t : FileTree} {root : ProjectRoot}
    (h : (Run.mk s t {}).answer (.locate sources stdin) = .ok root)
    (hreason : root.reason = .projectFile) : t.HasMarker s.tool root.path .projectFile := by
  obtain ⟨base, hbase, hroot⟩ :=
    bind_eq_ok.mp ((Session.run_locate_empty sources stdin).symm.trans h)
  obtain ⟨habs, -⟩ := FileTree.commonBase_spec hbase
  have hnearest := FileTree.isNearestRoot_of_nearestRoot habs hroot
  have hmarked := hnearest.marked (by simp [hreason])
  rw [hreason] at hmarked
  exact hmarked.1

/-! ### Main statement -/

/-- After any run on a disk that stays as it is, the root of some sources is the one that was
located first for them, if one was. It is what is found with nothing found out yet, for the tool
that is set now, exactly when no root was located for them or that one is it. A project file at it
has an entry of the tool that it was located for. -/
theorem answer_locate_after {s : Session} {t : FileTree}
    (names : ∀ n ∈ t.workingDirectory, IsName n) {history : List Step}
    (still : ∀ step ∈ history, step.keepsTree = true) (sources : List Path)
    (stdin : Option Path) :
    let σ := after ⟨s, t, {}⟩ history
    let first := firstLocated? ⟨s, t, {}⟩ (Session.sourceKey sources stdin) history
    let fresh := σ.fresh.answer (.locate sources stdin)
    σ.answer (.locate sources stdin) = first.elim fresh (fun l => .ok l.root) ∧
      (σ.answer (.locate sources stdin) = fresh ↔ ∀ l ∈ first, fresh = .ok l.root) ∧
      ∀ root, σ.answer (.locate sources stdin) = .ok root → root.reason = .projectFile →
        t.HasMarker (first.elim σ.session Located.session).tool root.path .projectFile := by
  intro σ first fresh
  have htree : σ.tree = t := tree_after still
  have sound : σ.IsSound :=
    IsSound.after (σ := ⟨s, t, {}⟩) names (Caches.isSound_empty t s.base) still
  have hget : (σ.memo .roots).get? (Session.sourceKey sources stdin) = first.map Located.root :=
    get?_roots_after (σ := ⟨s, t, {}⟩) names (Caches.isSound_empty t s.base) still
  have hanswer := answer_locate_of_isSound sound sources stdin
  rw [hget] at hanswer
  cases hfirst : first with
  | none =>
    rw [hfirst] at hanswer
    refine ⟨hanswer, ⟨?_, fun _ => hanswer⟩, fun root hroot hreason => ?_⟩
    · rintro _ _ ⟨⟩
    · rw [← htree]
      exact hasMarker_of_locate (hanswer.symm.trans hroot) hreason
  | some l =>
    rw [hfirst] at hanswer
    refine ⟨hanswer, ?_, fun root hroot hreason => ?_⟩
    · rw [hanswer]
      constructor
      · rintro h _ ⟨⟩
        exact h.symm
      · intro h
        exact (h l rfl).symm
    · obtain ⟨sources', stdin', -, hlocated⟩ := exists_of_firstLocated? still hfirst
      cases hanswer.symm.trans hroot
      exact hasMarker_of_locate hlocated hreason

/-- The root is asked for again once the tool is what it was. -/
theorem answer_locate_after_black :
    let σ := after ⟨{ base := ⟨"/work"⟩ }, .workTree, {}⟩
      [.call (.locate [⟨"src"⟩] none), .forTool "ruff", .forTool "black"]
    σ.answer (.locate [⟨"src"⟩] none) = σ.fresh.answer (.locate [⟨"src"⟩] none) ∧
      FileTree.workTree.HasMarker "black" ⟨"/work"⟩ .projectFile := by
  intro σ
  have hfirst : (firstLocated? ⟨{ base := ⟨"/work"⟩ }, .workTree, {}⟩
      (Session.sourceKey [⟨"src"⟩] none)
      [.call (.locate [⟨"src"⟩] none), .forTool "ruff", .forTool "black"]).map
        (fun l => (l.session.tool, l.root)) = some ("black", ⟨⟨"/work"⟩, .projectFile⟩) := by
    decide +kernel
  have hfresh : σ.fresh.answer (.locate [⟨"src"⟩] none) = .ok ⟨⟨"/work"⟩, .projectFile⟩ := by
    decide +kernel
  have still : ∀ step ∈ [Step.call (.locate [⟨"src"⟩] none), .forTool "ruff", .forTool "black"],
    step.keepsTree = true := by decide
  obtain ⟨l, hl, hpair⟩ := Option.map_eq_some_iff.mp hfirst
  obtain ⟨htool, hroot⟩ := Prod.mk.inj hpair
  obtain ⟨-, hiff, hmarker⟩ := answer_locate_after (s := { base := ⟨"/work"⟩ }) (t := .workTree)
    (List.forall_mem_nil _) still [⟨"src"⟩] none
  rw [hl] at hiff hmarker
  have hsame := hiff.mpr (by rintro _ ⟨⟩; rw [hroot]; exact hfresh)
  refine ⟨hsame, ?_⟩
  rw [← htool]
  exact hmarker ⟨⟨"/work"⟩, .projectFile⟩ (hsame.trans hfresh) rfl

/-- A project with a section for one tool in a repository. -/
def nestedTree : FileTree :=
  { entries := [(["top"], .directory), (["top", ".git"], .directory),
      (["top", "work"], .directory),
      (["top", "work", "pyproject.toml"], .file "[tool.black]\n".toUTF8.toList)] }

/-- A root that was located for one tool is answered for another one, which has no entry in the
project file there. -/
theorem answer_locate_after_blue :
    let σ := after ⟨{ base := ⟨"/top/work"⟩ }, nestedTree, {}⟩
      [.call (.locate [⟨"."⟩] none), .forTool "blue"]
    σ.answer (.locate [⟨"."⟩] none) = .ok ⟨⟨"/top/work"⟩, .projectFile⟩ ∧
      σ.fresh.answer (.locate [⟨"."⟩] none) = .ok ⟨⟨"/top"⟩, .git⟩ ∧
      nestedTree.hasTool σ.session.tool ⟨"/top/work/pyproject.toml"⟩ = .ok false := by
  decide +kernel

end Run

end ProjectScope

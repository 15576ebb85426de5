import ProjectScope.Proofs.Session.Frames

/-!
# Caches are for ever

What a cache holds is neither taken away nor changed, whatever happens on the disk. A call that has
a cache of its own adds at most its answer there, under the question that it asks, and adds nothing
there when it fails.
-/

namespace ProjectScope

variable {kind : CacheKind} {kinds : List CacheKind} {j : Journal}

/-! ### Remembered answers -/

namespace Action

/-- What an action leaves in a cache that it asks some questions: its answer under one of them, if
that has none yet, and nothing when it fails. -/
structure Remembers (kind : CacheKind) (action : Action kind.Entry) (j : Journal)
    (asks : kind.Key → Prop) : Prop where
  ok : ∀ a, (action.run j).1 = .ok a → ∃ k, asks k ∧
    (action.run j).2.caches.memo kind = (j.caches.memo kind).add k a ∧
    ((action.run j).2.caches.memo kind).get? k = some a
  error : ∀ e, (action.run j).1 = .error e →
    (action.run j).2.caches.memo kind = j.caches.memo kind ∧
    ∀ k, asks k → (j.caches.memo kind).get? k = none

lemma run_remembered_of_get? (kind : CacheKind) {k : kind.Key} {a : kind.Entry}
    {find : Action kind.Entry} (h : (j.caches.memo kind).get? k = some a) :
    run (remembered kind.part k find) j = (.ok a, j) := by
  have hit : (kind.part.get j.caches).get? k = some a := h
  rw [run_remembered, hit]

lemma remembers_remembered (kind : CacheKind) {find : Action kind.Entry}
    (hfind : HasFrame kinds find) (hout : kind ∉ kinds) (k : kind.Key) :
    Remembers kind (remembered kind.part k find) j (· = k) := by
  cases hget : (j.caches.memo kind).get? k with
  | some b =>
    have hit : run (remembered kind.part k find) j = _ := run_remembered_of_get? kind hget
    refine ⟨fun a ha => ?_, fun e he => ?_⟩
    all_goals rw [hit] at *
    · cases ha
      exact ⟨k, rfl, (Memo.add_of_isSome b (by simp [hget])).symm, hget⟩
    · cases he
  | none =>
    have same := (hfind j).frame kind hout
    have miss : (kind.part.get j.caches).get? k = none := hget
    have hrun := run_remembered kind.part k find (j := j)
    rw [miss] at hrun
    dsimp only at hrun
    rcases hfound : find.run j with ⟨e | b, j'⟩
    all_goals
      rw [hfound] at same hrun
      refine ⟨fun a ha => ?_, fun e he => ?_⟩
      all_goals rw [hrun] at *
    · cases ha
    · refine ⟨same, ?_⟩
      rintro _ rfl
      exact hget
    · cases ha
      have hadd : (kind.part.get j'.caches).add k b = (j.caches.memo kind).add k b :=
        congrArg (Memo.add · k b) same
      dsimp only
      rw [Caches.memo_set_self, hadd]
      exact ⟨k, rfl, rfl, Memo.get?_add_self hget⟩
    · cases he

end Action

/-! ### Answers remembered by where a path leads -/

namespace Session

open ProjectScope.Action

/-- Look up or else find what belongs to a path by what the path resolves to. -/
def byTarget (s : Session) (t : FileTree) (kind : CacheKind) (key : Path → kind.Key)
    (find : Path → Action kind.Entry) (p : Path) : Action kind.Entry := do
  let resolved ← s.resolve t p
  remembered kind.part (key resolved) (find resolved)

variable {s : Session} {t : FileTree} {key : Path → kind.Key} {find : Path → Action kind.Entry}
  {p q : Path}

lemma remembers_resolve (p : Path) :
    Remembers .paths (s.resolve t p) j (· = p.components) :=
  remembers_remembered .paths (hasFrame_ofResult _) List.not_mem_nil _

lemma remembers_locate (sources : List Path) (stdin : Option Path) :
    Remembers .roots (s.locate t sources stdin) j (· = sourceKey sources stdin) :=
  remembers_remembered .roots (s.hasFrame_discover t sources stdin) (by simp) _

lemma run_byTarget_of_get? {a : kind.Entry} (hq : (run (s.resolve t p) j).1 = .ok q)
    (hkind : kind ∉ [CacheKind.paths]) (h : (j.caches.memo kind).get? (key q) = some a) :
    (run (s.byTarget t kind key find p) j).1 = .ok a := by
  rw [← (s.hasFrame_resolve t p j).frame kind hkind] at h
  rw [byTarget, run_bind_of_ok hq, run_remembered_of_get? kind h]

lemma run_byTarget_of_none (kind : CacheKind) {key : Path → kind.Key}
    (hq : (run (s.resolve t p) j).1 = .ok q) (hkind : kind ∉ [CacheKind.paths])
    (h : (j.caches.memo kind).get? (key q) = none) : ∃ j', ∀ find : Path → Action kind.Entry,
      (run (s.byTarget t kind key find p) j).1 = (run (find q) j').1 := by
  rw [← (s.hasFrame_resolve t p j).frame kind hkind] at h
  refine ⟨(run (s.resolve t p) j).2, fun find => ?_⟩
  rw [byTarget, run_bind_of_ok hq]
  exact run_remembered_of_none h

lemma remembers_byTarget (hfind : ∀ q, HasFrame [] (find q)) (hkind : kind ∉ [CacheKind.paths]) :
    Remembers kind (s.byTarget t kind key find p) j
      fun k => ∃ q, (run (s.resolve t p) j).1 = .ok q ∧ k = key q := by
  have same := (s.hasFrame_resolve t p j).frame kind hkind
  cases hq : (run (s.resolve t p) j).1 with
  | error e =>
    have hrun : run (s.byTarget t kind key find p) j = _ := run_bind_of_error hq
    constructor
    · intro a ha
      rw [hrun] at ha
      cases ha
    · intro e' _
      rw [hrun]
      exact ⟨same, by rintro k ⟨q, ⟨⟩, -⟩⟩
  | ok q =>
    have hrun : run (s.byTarget t kind key find p) j = _ := run_bind_of_ok hq
    obtain ⟨hok, herror⟩ := remembers_remembered (j := (run (s.resolve t p) j).2) kind (hfind q)
      List.not_mem_nil (key q)
    rw [same, ← hrun] at hok herror
    constructor
    · intro a ha
      obtain ⟨_, rfl, hadd, hget⟩ := hok a ha
      exact ⟨key q, ⟨q, rfl, rfl⟩, hadd, hget⟩
    · intro e he
      obtain ⟨hsame, hnone⟩ := herror e he
      refine ⟨hsame, ?_⟩
      rintro k ⟨q', ⟨⟩, rfl⟩
      exact hnone _ rfl

/-- The path itself is in the cache of paths once something was asked for by where it leads. -/
lemma get?_paths_of_byTarget (hfind : ∀ q, HasFrame [] (find q))
    (hq : (run (s.resolve t p) j).1 = .ok q) :
    ((run (s.byTarget t kind key find p) j).2.caches.memo .paths).get? p.components = some q := by
  obtain ⟨_, rfl, -, hget⟩ := (remembers_resolve p).ok q hq
  have hkept : HasFrame [kind] (remembered kind.part (key q) (find q)) :=
    .remembered kind ((hfind q).mono (by simp)) (by simp) _
  rw [byTarget, run_bind_of_ok hq]
  exact (hkept _).kept .paths _ _ hget

/-- What was found by where a path leads is found again, whatever the session and the disk are then,
by a path of the same spelling and by a path that resolves alike. -/
lemma run_byTarget_of_kept {j' : Journal} {s' : Session} {t' : FileTree}
    {find' : Path → Action kind.Entry} {p' : Path} {a : kind.Entry}
    (hfind : ∀ q, HasFrame [] (find q)) (hkind : kind ∉ [CacheKind.paths])
    (h : (run (s.byTarget t kind key find p) j).1 = .ok a)
    (kept : ∀ kind' k b,
      ((run (s.byTarget t kind key find p) j).2.caches.memo kind').get? k = some b →
        (j'.caches.memo kind').get? k = some b)
    (alike : p'.components = p.components ∨ ∃ q q', (run (s.resolve t p) j).1 = .ok q ∧
      (run (s'.resolve t' p') j').1 = .ok q' ∧ key q' = key q) :
    (run (s'.byTarget t' kind key find' p') j').1 = .ok a := by
  obtain ⟨_, ⟨q, hq, rfl⟩, -, hget⟩ := (remembers_byTarget hfind hkind).ok a h
  rcases alike with hsame | ⟨q₁, q', hq₁, hq', hkey⟩
  -- the path resolves to what it did then, since that is in the cache of paths
  · have hpath := kept .paths _ _ (get?_paths_of_byTarget hfind hq)
    rw [← hsame] at hpath
    have hq' : (run (s'.resolve t' p') j').1 = .ok q :=
      congrArg Prod.fst (run_remembered_of_get? .paths hpath)
    exact run_byTarget_of_get? hq' hkind (kept kind _ _ hget)
  · cases hq.symm.trans hq₁
    refine run_byTarget_of_get? hq' hkind ?_
    rw [hkey]
    exact kept kind _ _ hget

lemma document_eq_byTarget (p : Path) :
    s.document t p =
      s.byTarget t .documents Path.components (fun q => ofResult (t.readDocument q)) p := rfl

lemma ignoreSpec_eq_byTarget (p : Path) :
    s.ignoreSpec t p = s.byTarget t .ignores Path.components
      (fun q => ofLogged (t.readIgnoreFile q) >>= ofResult) p := rfl

lemma hasFrame_readIgnoreFile (q : Path) :
    HasFrame [] (ofLogged (t.readIgnoreFile q) >>= ofResult) :=
  (hasFrame_ofLogged _).bind fun _ => hasFrame_ofResult _

end Session

/-! ### Calls and their caches -/

/-- The cache of a call's own results, if there is one. -/
def Call.own? : Call → Option CacheKind
  | resolve _ => some .paths
  | document _ => some .documents
  | hasTool _ => some .documents
  | rawOptions _ => some .documents
  | options _ => some .documents
  | ignoreSpec _ => some .ignores
  | locate _ _ => some .roots
  | _ => none

/-- The calls that read the document at a path. -/
def Call.readersOf (p : Path) : List Call := [.document p, .hasTool p, .rawOptions p, .options p]

lemma Call.eq_of_mem_readersOf {c : Call} {p p' : Path} (h : c ∈ readersOf p)
    (h' : c ∈ readersOf p') : p = p' := by
  simp only [readersOf, List.mem_cons, List.not_mem_nil, or_false] at h h'
  rcases h with rfl | rfl | rfl | rfl <;> simpa using h'

namespace Run

variable {σ : Run} {c : Call} {p p' q : Path} {sources sources' : List Path}
  {stdin stdin' : Option Path}

/-- The question that a call asks its own cache now. Documents and ignore specs are asked for by
what their paths resolve to. -/
inductive Asks (σ : Run) : Call → (kind : CacheKind) → kind.Key → Prop
  | path (p : Path) : Asks σ (.resolve p) .paths p.components
  | document {c : Call} {p q : Path} (hc : c ∈ Call.readersOf p)
      (hq : σ.answer (.resolve p) = .ok q) : Asks σ c .documents q.components
  | ignoreSpec {p q : Path} (hq : σ.answer (.resolve p) = .ok q) :
      Asks σ (.ignoreSpec p) .ignores q.components
  | root (sources : List Path) (stdin : Option Path) :
      Asks σ (.locate sources stdin) .roots (Session.sourceKey sources stdin)

/-- What a call does to the cache of its own results. -/
structure Fills (σ : Run) (c : Call) (kind : CacheKind) : Prop where
  /-- A call that succeeds leaves its question with an answer, and adds no other entry. -/
  ok : ∀ a, σ.answer c = .ok a → ∃ k b, σ.Asks c kind k ∧
    (σ.perform c).memo kind = (σ.memo kind).add k b ∧ ((σ.perform c).memo kind).get? k = some b
  /-- A call that fails adds no entry, and there is none for its question. -/
  error : ∀ e, σ.answer c = .error e → (σ.perform c).memo kind = σ.memo kind ∧
    ∀ k, σ.Asks c kind k → ((σ.perform c).memo kind).get? k = none
  /-- There is at most one entry more. -/
  atMostOne : ((σ.perform c).memo kind).size ≤ (σ.memo kind).size + 1
  /-- There is none more where the question has an answer. -/
  hit : ∀ k, σ.Asks c kind k → ((σ.memo kind).get? k).isSome →
    (σ.perform c).memo kind = σ.memo kind

lemma Asks.unique {k k' : kind.Key} (h : σ.Asks c kind k) (h' : σ.Asks c kind k') : k = k' := by
  cases h with
  | path p =>
    cases h' with
    | path => rfl
  | document hc hq =>
    cases h' with
    | document hc' hq' =>
      cases Call.eq_of_mem_readersOf hc hc'
      cases hq.symm.trans hq'
      rfl
  | ignoreSpec hq =>
    cases h' with
    | ignoreSpec hq' =>
      cases hq.symm.trans hq'
      rfl
  | root sources stdin =>
    cases h' with
    | root => rfl

/-- A call that answers what an action of its cache finds, or something that is worked out from it,
fills its cache as the action does. -/
lemma Fills.of_remembers {action : Action kind.Entry} {asks : kind.Key → Prop}
    (h : Action.Remembers kind action σ.journal asks) (hasks : ∀ k, σ.Asks c kind k ↔ asks k)
    (f : kind.Entry → c.Answer)
    (hanswer : σ.answer c = (action.run σ.journal).1.map f)
    (hcaches : (σ.perform c).journal.caches = (action.run σ.journal).2.caches) :
    σ.Fills c kind := by
  have hmemo : (σ.perform c).memo kind = (action.run σ.journal).2.caches.memo kind := by
    rw [memo, hcaches]
  obtain ⟨hok, herror⟩ := h
  rw [← hmemo] at hok herror
  cases hfound : (action.run σ.journal).1 with
  | error e =>
    obtain ⟨hsame, hnone⟩ := herror e hfound
    have failed : σ.answer c = .error e := by rw [hanswer, hfound]; rfl
    refine ⟨fun a ha => ?_, fun e' _ => ⟨hsame, fun k hk => ?_⟩, ?_, fun _ _ _ => hsame⟩
    · cases failed.symm.trans ha
    · rw [hsame]
      exact hnone k ((hasks k).mp hk)
    · rw [hsame]
      exact Nat.le_succ _
  | ok b =>
    obtain ⟨k, hk, hadd, hget⟩ := hok b hfound
    rw [← hasks] at hk
    have succeeded : σ.answer c = .ok (f b) := by rw [hanswer, hfound]; rfl
    refine ⟨fun a _ => ⟨k, b, hk, hadd, hget⟩, fun e he => ?_, ?_, fun k' hk' hit => ?_⟩
    · cases succeeded.symm.trans he
    · rw [hadd]
      exact Memo.size_add_le _ k b
    · cases hk.unique hk'
      rw [hadd]
      exact Memo.add_of_isSome b hit

lemma asks_resolve {k : PathKey} : σ.Asks (.resolve p) .paths k ↔ k = p.components := by
  refine ⟨fun h => ?_, ?_⟩
  · cases h
    rfl
  · rintro rfl
    exact .path p

lemma asks_document {k : PathKey} (hc : c ∈ Call.readersOf p) :
    σ.Asks c .documents k ↔ ∃ q, σ.answer (.resolve p) = .ok q ∧ k = q.components := by
  refine ⟨fun h => ?_, ?_⟩
  · cases h with
    | document hc' hq =>
      cases Call.eq_of_mem_readersOf hc hc'
      exact ⟨_, hq, rfl⟩
  · rintro ⟨q, hq, rfl⟩
    exact .document hc hq

lemma asks_ignoreSpec {k : PathKey} :
    σ.Asks (.ignoreSpec p) .ignores k ↔ ∃ q, σ.answer (.resolve p) = .ok q ∧ k = q.components := by
  refine ⟨fun h => ?_, ?_⟩
  · cases h with
    | ignoreSpec hq => exact ⟨_, hq, rfl⟩
  · rintro ⟨q, hq, rfl⟩
    exact .ignoreSpec hq

lemma asks_locate {k : SourceKey} :
    σ.Asks (.locate sources stdin) .roots k ↔ k = Session.sourceKey sources stdin := by
  refine ⟨fun h => ?_, ?_⟩
  · cases h
    rfl
  · rintro rfl
    exact .root sources stdin

/-- What is worked out from the document at a path is a function of it. -/
lemma answer_reader (hc : c ∈ Call.readersOf p) : ∃ f : Toml.Table → c.Answer,
    σ.answer c = (σ.answer (.document p)).map f ∧
      (σ.perform c).journal.caches = (σ.perform (.document p)).journal.caches := by
  have reader {α : Type} (next : Toml.Table → Action α) (f : Toml.Table → α)
      (hnext : ∀ d j, ((next d).run j).1 = .ok (f d) ∧ ((next d).run j).2.caches = j.caches) :
      ((σ.session.document σ.tree p >>= next).run σ.journal).1 =
        ((σ.session.document σ.tree p).run σ.journal).1.map f ∧
      ((σ.session.document σ.tree p >>= next).run σ.journal).2.caches =
        ((σ.session.document σ.tree p).run σ.journal).2.caches := by
    rw [Action.run_bind]
    rcases (σ.session.document σ.tree p).run σ.journal with ⟨e | d, j'⟩
    · exact ⟨rfl, rfl⟩
    · exact hnext d j'
  simp only [Call.readersOf, List.mem_cons, List.not_mem_nil, or_false] at hc
  rcases hc with rfl | rfl | rfl | rfl
  · exact ⟨id, (congrFun Except.map_id _).symm, rfl⟩
  · exact ⟨_, reader _ _ fun _ _ => ⟨rfl, rfl⟩⟩
  · exact ⟨_, reader _ _ fun _ _ => ⟨rfl, rfl⟩⟩
  · exact ⟨_, reader _ _ fun _ _ => ⟨rfl, rfl⟩⟩

lemma fills_of_mem_readersOf (hc : c ∈ Call.readersOf p) : σ.Fills c .documents := by
  obtain ⟨f, hanswer, hcaches⟩ := answer_reader hc
  exact .of_remembers
    (Session.remembers_byTarget (fun q => Action.hasFrame_ofResult (σ.tree.readDocument q))
      (by simp))
    (fun k => asks_document hc) f hanswer hcaches

/-- Every call treats the cache of its own results so. -/
lemma fills_of_own? (h : c.own? = some kind) : σ.Fills c kind := by
  cases c with
  | resolve p =>
    cases h
    exact .of_remembers (Session.remembers_resolve p) (fun k => asks_resolve) id
      (congrFun Except.map_id _).symm rfl
  | document p =>
    cases h
    exact fills_of_mem_readersOf (p := p) (by simp [Call.readersOf])
  | hasTool p =>
    cases h
    exact fills_of_mem_readersOf (p := p) (by simp [Call.readersOf])
  | rawOptions p =>
    cases h
    exact fills_of_mem_readersOf (p := p) (by simp [Call.readersOf])
  | options p =>
    cases h
    exact fills_of_mem_readersOf (p := p) (by simp [Call.readersOf])
  | ignoreSpec p =>
    cases h
    exact .of_remembers (Session.remembers_byTarget Session.hasFrame_readIgnoreFile (by simp))
      (fun k => asks_ignoreSpec) id (congrFun Except.map_id _).symm rfl
  | locate sources stdin =>
    cases h
    exact .of_remembers (Session.remembers_locate sources stdin) (fun k => asks_locate) id
      (congrFun Except.map_id _).symm rfl
  | _ => cases h

/-! ### Main statement -/

/-- Whether two paths are one to a run and to a later one: they are spelled alike, or they resolve
alike. -/
def LeadAlike (σ later : Run) (p p' : Path) : Prop :=
  p'.components = p.components ∨ ∃ q q', σ.answer (.resolve p) = .ok q ∧
    later.answer (.resolve p') = .ok q' ∧ q'.components = q.components

/-- What a call with a cache once answered is what such calls answer after any steps. -/
structure Recalls (σ : Run) (history : List Step) : Prop where
  resolve : ∀ p p' q, σ.answer (.resolve p) = .ok q → p'.components = p.components →
    ((σ.perform (.resolve p)).after history).answer (.resolve p') = .ok q
  document : ∀ p p' d, σ.answer (.document p) = .ok d →
    σ.LeadAlike ((σ.perform (.document p)).after history) p p' →
      ((σ.perform (.document p)).after history).answer (.document p') = .ok d
  ignoreSpec : ∀ p p' spec, σ.answer (.ignoreSpec p) = .ok spec →
    σ.LeadAlike ((σ.perform (.ignoreSpec p)).after history) p p' →
      ((σ.perform (.ignoreSpec p)).after history).answer (.ignoreSpec p') = .ok spec
  locate : ∀ sources sources' stdin stdin' root, σ.answer (.locate sources stdin) = .ok root →
    Session.sourceKey sources' stdin' = Session.sourceKey sources stdin →
      ((σ.perform (.locate sources stdin)).after history).answer (.locate sources' stdin') =
        .ok root

lemma recalls (σ : Run) (history : List Step) : σ.Recalls history := by
  have kept (c : Call) (kind : CacheKind) (k : kind.Key) (b : kind.Entry)
      (h : ((σ.perform c).memo kind).get? k = some b) :
      (((σ.perform c).after history).memo kind).get? k = some b := get?_memo_after _ h history
  constructor
  case resolve =>
    intro p p' q hq hsame
    obtain ⟨_, rfl, -, hget⟩ := (Session.remembers_resolve p).ok q hq
    have hlater := kept (.resolve p) .paths _ _ hget
    rw [← hsame] at hlater
    exact congrArg Prod.fst (Action.run_remembered_of_get? .paths hlater)
  case document =>
    intro p p' d hd alike
    have hkept := kept (.document p)
    generalize (σ.perform (.document p)).after history = later at alike hkept ⊢
    change (Action.run (later.session.document later.tree p') later.journal).1 = .ok d
    rw [Session.document_eq_byTarget]
    exact Session.run_byTarget_of_kept
      (fun q => Action.hasFrame_ofResult (σ.tree.readDocument q)) (by simp) hd hkept alike
  case ignoreSpec =>
    intro p p' spec hspec alike
    have hkept := kept (.ignoreSpec p)
    generalize (σ.perform (.ignoreSpec p)).after history = later at alike hkept ⊢
    change (Action.run (later.session.ignoreSpec later.tree p') later.journal).1 = .ok spec
    rw [Session.ignoreSpec_eq_byTarget]
    exact Session.run_byTarget_of_kept (Session.hasFrame_readIgnoreFile (t := σ.tree)) (by simp)
      hspec hkept alike
  case locate =>
    intro sources sources' stdin stdin' root hroot hsame
    obtain ⟨_, rfl, -, hget⟩ := (Session.remembers_locate sources stdin).ok root hroot
    have hlater := kept (.locate sources stdin) .roots _ _ hget
    rw [← hsame] at hlater
    exact congrArg Prod.fst (Action.run_remembered_of_get? .roots hlater)

/-- A question that has no answer in its cache is answered from the disk as it is now. -/
structure LooksUp (σ : Run) : Prop where
  resolve : ∀ p, (σ.memo .paths).get? p.components = none →
    σ.answer (.resolve p) = σ.tree.resolve (.absolutize σ.session.base p)
  document : ∀ p q, σ.answer (.resolve p) = .ok q → (σ.memo .documents).get? q.components = none →
    σ.answer (.document p) = σ.tree.readDocument q
  ignoreSpec : ∀ p q, σ.answer (.resolve p) = .ok q →
    (σ.memo .ignores).get? q.components = none →
      σ.answer (.ignoreSpec p) = (σ.tree.readIgnoreFile q).value
  locate : ∀ sources stdin,
    (σ.memo .roots).get? (Session.sourceKey sources stdin) = none →
      σ.answer (.locate sources stdin) =
        ((σ.session.discover σ.tree sources stdin).run σ.journal).1

lemma looksUp (σ : Run) : σ.LooksUp := by
  constructor
  case resolve =>
    intro p hnone
    have miss : (CachePart.paths.get σ.journal.caches).get? p.components = none := hnone
    refine (Action.run_remembered_of_none miss).trans ?_
    rw [Action.run_ofResult]
  case document =>
    intro p q hq hnone
    change (Action.run (σ.session.document σ.tree p) σ.journal).1 = _
    rw [Session.document_eq_byTarget]
    obtain ⟨j, hj⟩ := Session.run_byTarget_of_none .documents hq (by simp) hnone
    rw [hj, Action.run_ofResult]
  case ignoreSpec =>
    intro p q hq hnone
    change (Action.run (σ.session.ignoreSpec σ.tree p) σ.journal).1 = _
    rw [Session.ignoreSpec_eq_byTarget]
    obtain ⟨j, hj⟩ := Session.run_byTarget_of_none .ignores hq (by simp) hnone
    rw [hj, Action.run_bind]
    exact congrArg Prod.fst (Action.run_ofResult _)
  case locate =>
    intro sources stdin hnone
    have miss : (CachePart.roots.get σ.journal.caches).get? (Session.sourceKey sources stdin) =
      none := hnone
    exact Action.run_remembered_of_none miss

/-- Whatever is called and however the disk changes in between, entries stay in the caches as they
are, and their questions are answered by them; a call adds its answer to its own cache when the
question has none and the call succeeds, and nothing otherwise. -/
theorem caches_permanent (σ : Run) (history : List Step) :
    (∀ kind k a, (σ.memo kind).get? k = some a → ((σ.after history).memo kind).get? k = some a) ∧
      σ.Recalls history ∧ (∀ c kind, c.own? = some kind → σ.Fills c kind) ∧ σ.LooksUp :=
  ⟨fun _ _ _ h => σ.get?_memo_after h history, σ.recalls history, fun _ _ => fills_of_own?,
    σ.looksUp⟩

end Run

end ProjectScope

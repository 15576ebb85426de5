import Mathlib.Data.List.Basic
import ProjectScope.Proofs.Session.Discovery
import ProjectScope.Proofs.Session.History

/-!
# What operations leave in the caches

Every operation leaves the entries that it finds, and each has a frame: the caches that it may add
entries to. The other caches it leaves as they are.
-/

namespace ProjectScope

/-! ### The four caches -/

/-- The caches of a session. -/
inductive CacheKind where
  | paths
  | documents
  | roots
  | ignores
  deriving DecidableEq, Repr

namespace CacheKind

/-- The questions to a cache. -/
abbrev Key : CacheKind → Type
  | paths => PathKey
  | documents => PathKey
  | roots => SourceKey
  | ignores => PathKey

/-- The answers that a cache holds. -/
abbrev Entry : CacheKind → Type
  | paths => Path
  | documents => Toml.Table
  | roots => ProjectRoot
  | ignores => IgnoreSpec

instance : (kind : CacheKind) → DecidableEq kind.Key
  | paths => inferInstanceAs (DecidableEq PathKey)
  | documents => inferInstanceAs (DecidableEq PathKey)
  | roots => inferInstanceAs (DecidableEq SourceKey)
  | ignores => inferInstanceAs (DecidableEq PathKey)

/-- Where a cache is kept. -/
def part : (kind : CacheKind) → CachePart kind.Key kind.Entry
  | paths => .paths
  | documents => .documents
  | roots => .roots
  | ignores => .ignores

end CacheKind

/-- What a cache holds. -/
def Caches.memo (c : Caches) (kind : CacheKind) : Memo kind.Key kind.Entry := kind.part.get c

variable {kind kind' : CacheKind} {kinds kinds' : List CacheKind} {c c' c'' : Caches}

lemma Caches.memo_set_self (m : Memo kind.Key kind.Entry) : (kind.part.set m c).memo kind = m := by
  cases kind <;> rfl

lemma Caches.memo_set_of_ne (h : kind' ≠ kind) (m : Memo kind.Key kind.Entry) :
    (kind.part.set m c).memo kind' = c.memo kind' := by
  cases kind <;> cases kind' <;> first | rfl | exact absurd rfl h

/-- The caches hold all that they held before, and those that are not named hold nothing else. -/
structure Caches.Grows (kinds : List CacheKind) (c c' : Caches) : Prop where
  kept : ∀ kind k a, (c.memo kind).get? k = some a → (c'.memo kind).get? k = some a
  frame : ∀ kind, kind ∉ kinds → c'.memo kind = c.memo kind

namespace Caches.Grows

lemma refl (kinds : List CacheKind) (c : Caches) : Grows kinds c c :=
  ⟨fun _ _ _ h => h, fun _ _ => rfl⟩

lemma trans (h : Grows kinds c c') (h' : Grows kinds c' c'') : Grows kinds c c'' := by
  refine ⟨fun kind k a hget => h'.kept kind k a (h.kept kind k a hget), fun kind hkind => ?_⟩
  rw [h'.frame kind hkind, h.frame kind hkind]

lemma mono (h : Grows kinds c c') (hsub : kinds ⊆ kinds') : Grows kinds' c c' :=
  ⟨h.kept, fun kind hkind => h.frame kind fun hmem => hkind (hsub hmem)⟩

/-- Remembering an answer keeps the others. -/
lemma add (hkind : kind ∈ kinds) (k : kind.Key) (a : kind.Entry) :
    Grows kinds c (kind.part.set ((c.memo kind).add k a) c) := by
  constructor
  · intro kind' k' a' hget
    by_cases hsame : kind' = kind
    · subst hsame
      rw [memo_set_self]
      exact Memo.get?_add_of_get? hget
    · rw [memo_set_of_ne hsame]
      exact hget
  · intro kind' hout
    apply memo_set_of_ne
    rintro rfl
    exact hout hkind

end Caches.Grows

/-! ### Frames of actions -/

namespace Action

variable {α β : Type}

/-- Whether an action keeps what the caches hold, and adds to the named ones only. -/
def HasFrame (kinds : List CacheKind) (action : Action α) : Prop :=
  ∀ j, Caches.Grows kinds j.caches (action.run j).2.caches

lemma HasFrame.mono {action : Action α} (h : HasFrame kinds action) (hsub : kinds ⊆ kinds') :
    HasFrame kinds' action :=
  fun j => (h j).mono hsub

lemma hasFrame_pure (a : α) : HasFrame kinds (pure a) := fun _ => .refl _ _

lemma hasFrame_log (records : List LogRecord) : HasFrame kinds (log records) := fun _ => .refl _ _

lemma hasFrame_ofResult (r : Except Error α) : HasFrame kinds (ofResult r) := by
  intro j
  cases r with
  | ok a => exact .refl _ _
  | error e => exact .refl _ _

lemma hasFrame_ofLogged (r : Logged α) : HasFrame kinds (ofLogged r) := fun _ => .refl _ _

lemma HasFrame.bind {x : Action α} {f : α → Action β} (hx : HasFrame kinds x)
    (hf : ∀ a, HasFrame kinds (f a)) : HasFrame kinds (x >>= f) := by
  intro j
  cases h : (x.run j).1 with
  | error e =>
    rw [run_bind_of_error h]
    exact hx j
  | ok a =>
    rw [run_bind_of_ok h]
    exact (hx j).trans (hf a _)

lemma HasFrame.map {x : Action α} (hx : HasFrame kinds x) (f : α → β) :
    HasFrame kinds (f <$> x) := by
  intro j
  rw [run_map]
  exact hx j

lemma HasFrame.tryCatch {x : Action α} {handle : Error → Action α} (hx : HasFrame kinds x)
    (hhandle : ∀ e, HasFrame kinds (handle e)) : HasFrame kinds (tryCatch x handle) := by
  intro j
  have first := hx j
  rw [run_tryCatch]
  rcases hrun : x.run j with ⟨e | a, j'⟩
  all_goals rw [hrun] at first
  · exact first.trans (hhandle e j')
  · exact first

lemma HasFrame.mapM {f : α → Action β} (h : ∀ a, HasFrame kinds (f a)) (l : List α) :
    HasFrame kinds (l.mapM f) := by
  induction l with
  | nil => exact hasFrame_pure []
  | cons a l ih =>
    rw [List.mapM_cons]
    exact (h a).bind fun b => ih.bind fun bs => hasFrame_pure _

lemma HasFrame.remembered (kind : CacheKind) {find : Action kind.Entry}
    (hfind : HasFrame kinds find) (hkind : kind ∈ kinds) (k : kind.Key) :
    HasFrame kinds (remembered kind.part k find) := by
  intro j
  rw [run_remembered]
  cases (kind.part.get j.caches).get? k with
  | some a => exact .refl _ _
  | none =>
    have found := hfind j
    dsimp only
    rcases hrun : find.run j with ⟨e | a, j'⟩
    all_goals rw [hrun] at found
    · exact found
    · exact found.trans (.add hkind k a)

end Action

/-! ### Frames of the operations -/

namespace Session

open ProjectScope.Action

variable (s : Session) (t : FileTree)

lemma hasFrame_resolve (p : Path) : HasFrame [.paths] (s.resolve t p) :=
  .remembered .paths (hasFrame_ofResult _) (by simp) _

lemma hasFrame_document (p : Path) : HasFrame [.paths, .documents] (s.document t p) :=
  ((hasFrame_resolve s t p).mono (by simp)).bind fun _ =>
    .remembered .documents (hasFrame_ofResult _) (by simp) _

lemma hasFrame_hasTool (p : Path) : HasFrame [.paths, .documents] (s.hasTool t p) :=
  (hasFrame_document s t p).bind fun _ => hasFrame_pure _

lemma hasFrame_ignoreSpec (root : Path) : HasFrame [.paths, .ignores] (s.ignoreSpec t root) :=
  ((hasFrame_resolve s t root).mono (by simp)).bind fun _ =>
    .remembered .ignores
      ((hasFrame_ofLogged _).bind fun _ => hasFrame_ofResult _) (by simp) _

lemma hasFrame_userConfig : HasFrame [.paths] (s.userConfig t) :=
  (hasFrame_ofResult _).bind fun p => hasFrame_resolve s t p

lemma hasFrame_commonBase (sources : List Path) (stdin : Option Path) :
    HasFrame [.paths] (s.commonBase t sources stdin) := by
  refine (HasFrame.mapM (hasFrame_resolve s t) _).bind fun resolved => ?_
  cases resolved with
  | nil => exact (hasFrame_resolve s t s.base).bind fun _ => hasFrame_pure _
  | cons first rest => exact hasFrame_pure _

lemma hasFrame_marker? (directory : Path) :
    HasFrame [.paths, .documents] (s.marker? t directory) := by
  refine (hasFrame_ofResult _).bind fun git => ?_
  split_ifs
  · exact hasFrame_pure _
  refine (hasFrame_ofResult _).bind fun mercurial => ?_
  split_ifs
  · exact hasFrame_pure _
  refine (hasFrame_ofResult _).bind fun file => ?_
  split_ifs
  · refine (hasFrame_hasTool s t _).bind fun named => ?_
    split_ifs
    · exact hasFrame_pure _
    · exact (hasFrame_log _).bind fun _ => hasFrame_pure _
  · exact hasFrame_pure _

lemma hasFrame_firstMarked? (directories : List Path) :
    HasFrame [.paths, .documents] (s.firstMarked? t directories) := by
  induction directories with
  | nil => exact hasFrame_pure _
  | cons d rest ih =>
    refine (hasFrame_marker? s t d).bind fun reason => ?_
    cases reason with
    | none => exact ih
    | some reason => exact hasFrame_pure _

lemma hasFrame_walk (base : Path) : HasFrame [.paths, .documents] (s.walk t base) :=
  (hasFrame_firstMarked? s t _).bind fun _ => hasFrame_pure _

lemma hasFrame_discover (sources : List Path) (stdin : Option Path) :
    HasFrame [.paths, .documents] (s.discover t sources stdin) :=
  ((hasFrame_commonBase s t sources stdin).mono (by simp)).bind fun base =>
    (hasFrame_walk s t base).bind fun _ => (hasFrame_log _).bind fun _ => hasFrame_pure _

lemma hasFrame_locate (sources : List Path) (stdin : Option Path) :
    HasFrame [.paths, .documents, .roots] (s.locate t sources stdin) :=
  .remembered .roots ((hasFrame_discover s t sources stdin).mono (by simp)) (by simp) _

lemma hasFrame_userConfig? : HasFrame [.paths] (s.userConfig? t) :=
  ((hasFrame_userConfig s t).map some).tryCatch fun _ =>
    (hasFrame_log _).bind fun _ => hasFrame_pure none

/-- What is done for a configuration file once the root is located. -/
def findBelow (s : Session) (t : FileTree) (root : ProjectRoot) : Action (Option FoundConfig) := do
  let file := root.path.child projectFileName
  if t.isFile file then return some ⟨file, .project, root⟩
  match ← s.userConfig? t with
  | some user => return if t.isFile user then some ⟨user, .user, root⟩ else none
  | none => return none

lemma findConfig_eq (sources : List Path) (stdin : Option Path) :
    s.findConfig t sources stdin = s.locate t sources stdin >>= s.findBelow t := rfl

lemma hasFrame_findBelow (root : ProjectRoot) : HasFrame [.paths] (s.findBelow t root) := by
  dsimp only [findBelow]
  split_ifs
  · exact hasFrame_pure _
  · refine (hasFrame_userConfig? s t).bind fun user? => ?_
    cases user? with
    | none => exact hasFrame_pure _
    | some user => exact hasFrame_pure _

end Session

/-- The caches that a call may add entries to. -/
def Call.frame : Call → List CacheKind
  | resolve _ => [.paths]
  | relativeTo _ _ => [.paths]
  | document _ => [.paths, .documents]
  | hasTool _ => [.paths, .documents]
  | rawOptions _ => [.paths, .documents]
  | options _ => [.paths, .documents]
  | ignoreSpec _ => [.paths, .ignores]
  | userConfig => [.paths]
  | commonBase _ _ => [.paths]
  | walk _ => [.paths, .documents]
  | locate _ _ => [.paths, .documents, .roots]
  | findConfig _ _ => [.paths, .documents, .roots]

lemma Call.hasFrame_action (s : Session) (t : FileTree) (c : Call) :
    Action.HasFrame c.frame (c.action s t) := by
  cases c with
  | resolve p => exact s.hasFrame_resolve t p
  | relativeTo root source =>
    exact (s.hasFrame_resolve t source).bind fun _ => Action.hasFrame_pure _
  | document p => exact s.hasFrame_document t p
  | hasTool p => exact s.hasFrame_hasTool t p
  | rawOptions p => exact (s.hasFrame_document t p).bind fun _ => Action.hasFrame_pure _
  | options p => exact (s.hasFrame_document t p).bind fun _ => Action.hasFrame_ofLogged _
  | ignoreSpec root => exact s.hasFrame_ignoreSpec t root
  | userConfig => exact s.hasFrame_userConfig t
  | commonBase sources stdin => exact s.hasFrame_commonBase t sources stdin
  | walk base => exact s.hasFrame_walk t base
  | locate sources stdin => exact s.hasFrame_locate t sources stdin
  | findConfig sources stdin =>
    exact (s.hasFrame_locate t sources stdin).bind fun root =>
      (s.hasFrame_findBelow t root).mono (by simp)

namespace Run

variable (σ : Run)

/-- What a cache holds now. -/
def memo (kind : CacheKind) : Memo kind.Key kind.Entry := σ.journal.caches.memo kind

lemma grows_perform (c : Call) : Caches.Grows c.frame σ.journal.caches (σ.perform c).journal.caches :=
  c.hasFrame_action σ.session σ.tree σ.journal

/-- No step takes away or changes what a cache holds. -/
lemma get?_memo_step {k : kind.Key} {a : kind.Entry} (h : (σ.memo kind).get? k = some a)
    (step : Step) : ((σ.step step).memo kind).get? k = some a := by
  cases step with
  | call c => exact (σ.grows_perform c).kept kind k a h
  | forTool tool => exact h
  | forUser user => exact h
  | change t => exact h

/-- What a cache holds stays in it for the whole of a run. -/
lemma get?_memo_after {k : kind.Key} {a : kind.Entry} (h : (σ.memo kind).get? k = some a)
    (history : List Step) : ((σ.after history).memo kind).get? k = some a := by
  induction history generalizing σ with
  | nil => exact h
  | cons step rest ih => exact ih (σ.step step) (σ.get?_memo_step h step)

end Run

end ProjectScope

import Mathlib.Tactic.Common
import ProjectScope.Session.Basic

/-!
# Answers of actions

Caches are trusted, so what an action answers depends on what they hold. An action answers a result
on the caches of some kind when it comes to this result from all of them and leaves caches of the
kind behind; such answers compose as the actions do.
-/

namespace ProjectScope.Action

variable {α β : Type} {j : Journal}

lemma run_bind (x : Action α) (f : α → Action β) :
    run (x >>= f) j =
      match x.run j with
      | (.ok a, j') => (f a).run j'
      | (.error e, j') => (.error e, j') := by
  change (match StateT.run x j with
    | (r, j') => StateT.run (ExceptT.bindCont f r) j') = _
  rw [run]
  rcases StateT.run x j with ⟨_ | _, _⟩ <;> rfl

/-- After a step that succeeds comes the next one. -/
lemma run_bind_of_ok {x : Action α} {f : α → Action β} {a : α} (h : (x.run j).1 = .ok a) :
    run (x >>= f) j = (f a).run (x.run j).2 := by
  rw [run_bind]
  rcases hrun : x.run j with ⟨e | b, j'⟩
  all_goals rw [hrun] at h
  · cases h
  · cases h
    rfl

/-- After a step that fails comes nothing. -/
lemma run_bind_of_error {x : Action α} {f : α → Action β} {e : Error} (h : (x.run j).1 = .error e) :
    run (x >>= f) j = (.error e, (x.run j).2) := by
  rw [run_bind]
  rcases hrun : x.run j with ⟨e' | b, j'⟩
  all_goals rw [hrun] at h
  · cases h
    rfl
  · cases h

lemma run_get : run (get : Action Journal) j = (.ok j, j) := rfl

lemma run_ofResult (r : Except Error α) : run (ofResult r) j = (r, j) := by
  cases r <;> rfl

lemma run_map (f : α → β) (x : Action α) : run (f <$> x) j = ((x.run j).1.map f, (x.run j).2) := by
  change (match StateT.run x j with
    | (r, j') => StateT.run (ExceptT.bindCont (fun a => pure (f a)) r) j') = _
  rw [run]
  rcases StateT.run x j with ⟨_ | _, _⟩ <;> rfl

lemma run_tryCatch (x : Action α) (handle : Error → Action α) :
    run (tryCatch x handle) j =
      match x.run j with
      | (.ok a, j') => (.ok a, j')
      | (.error e, j') => (handle e).run j' := by
  change run (ExceptT.tryCatch x handle) j = _
  unfold ExceptT.tryCatch run ExceptT.mk
  rw [StateT.run_bind]
  rcases StateT.run x j with ⟨_ | _, _⟩ <;> rfl

/-- What is remembered is answered; what is not is found, and remembered if it is. -/
lemma run_remembered {κ : Type} [DecidableEq κ] (part : CachePart κ α) (k : κ)
    (find : Action α) :
    run (remembered part k find) j =
      match (part.get j.caches).get? k with
      | some a => (.ok a, j)
      | none =>
        match find.run j with
        | (.ok a, j') =>
          (.ok a, { j' with caches := part.set ((part.get j'.caches).add k a) j'.caches })
        | (.error e, j') => (.error e, j') := by
  rw [remembered, run_bind, run_get]
  dsimp only
  cases (part.get j.caches).get? k with
  | some a => rfl
  | none =>
    dsimp only
    rw [run_bind]
    rcases find.run j with ⟨_ | _, _⟩
    · rfl
    · dsimp only
      rw [run_bind]
      rfl

lemma run_remembered_of_none {κ : Type} [DecidableEq κ] {part : CachePart κ α} {k : κ}
    {find : Action α} (h : (part.get j.caches).get? k = none) :
    (run (remembered part k find) j).1 = (run find j).1 := by
  rw [run_remembered, h]
  dsimp only
  rcases find.run j with ⟨_ | _, _⟩ <;> rfl

/-! ### Answers -/

/-- From all caches of a kind, the action comes to a result, and leaves caches of the kind. -/
def Answers (I : Caches → Prop) (action : Action α) (r : Except Error α) : Prop :=
  ∀ j, I j.caches → (action.run j).1 = r ∧ I (action.run j).2.caches

section Answers

variable {I : Caches → Prop}

lemma answers_pure (a : α) : Answers I (pure a) (.ok a) := fun _ h => ⟨rfl, h⟩

lemma answers_ofResult (r : Except Error α) : Answers I (ofResult r) r := by
  intro j h
  cases r with
  | ok a => exact ⟨rfl, h⟩
  | error e => exact ⟨rfl, h⟩

lemma answers_log (records : List LogRecord) : Answers I (log records) (.ok ()) :=
  fun _ h => ⟨rfl, h⟩

lemma answers_ofLogged (r : Logged α) : Answers I (ofLogged r) (.ok r.value) :=
  fun _ h => ⟨rfl, h⟩

lemma Answers.bind {x : Action α} {f : α → Action β} {r : Except Error α}
    {g : α → Except Error β} (hx : Answers I x r) (hf : ∀ a, r = .ok a → Answers I (f a) (g a)) :
    Answers I (x >>= f) (r >>= g) := by
  intro j h
  obtain ⟨hr, hj⟩ := hx j h
  rw [run_bind]
  rcases hrun : x.run j with ⟨a | a, j'⟩
  all_goals rw [hrun] at hr hj
  · cases hr
    exact ⟨rfl, hj⟩
  · cases hr
    exact hf a rfl j' hj

/-- What comes of two steps in a row does not hang on the caches when neither step does. -/
lemma Answers.exists_bind {x : Action α} {f : α → Action β} {r : Except Error α}
    (hx : Answers I x r) (hf : ∀ a, ∃ r', Answers I (f a) r') : ∃ r', Answers I (x >>= f) r' := by
  choose g hg using hf
  exact ⟨r >>= g, hx.bind fun a _ => hg a⟩

lemma Answers.mapM {f : α → Action β} {g : α → Except Error β}
    (h : ∀ a, Answers I (f a) (g a)) (l : List α) : Answers I (l.mapM f) (l.mapM g) := by
  induction l with
  | nil => exact answers_pure []
  | cons a l ih =>
    rw [List.mapM_cons, List.mapM_cons]
    refine (h a).bind fun b _ => ih.bind fun bs _ => answers_pure _

/-- A remembered answer is the result when what is remembered is, and when remembering the result
keeps the caches of their kind. -/
lemma answers_remembered {κ : Type} [DecidableEq κ] {part : CachePart κ α} {k : κ}
    {find : Action α} {r : Except Error α} (hfind : Answers I find r)
    (hget : ∀ c a, I c → (part.get c).get? k = some a → r = .ok a)
    (hadd : ∀ c a, I c → r = .ok a → I (part.set ((part.get c).add k a) c)) :
    Answers I (remembered part k find) r := by
  intro j h
  rw [run_remembered]
  cases hk : (part.get j.caches).get? k with
  | some a => exact ⟨(hget _ a h hk).symm, h⟩
  | none =>
    obtain ⟨hr, hj⟩ := hfind j h
    rcases hrun : find.run j with ⟨a | a, j'⟩
    all_goals rw [hrun] at hr hj
    · exact ⟨hr, hj⟩
    · exact ⟨hr, hadd _ a hj hr.symm⟩

end Answers

end ProjectScope.Action

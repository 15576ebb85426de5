import ProjectScope.Proofs.FileTree.Resolution
import ProjectScope.Proofs.Session.Answers
import ProjectScope.Session.Files

/-!
# What caches hold

While the tree stays as it is, the caches hold what is found on it: the operations that resolve paths
and read documents answer what they would answer without caches.
-/

namespace ProjectScope

lemma Memo.get?_add_cases {κ α : Type} [DecidableEq κ] {m : Memo κ α} {k k' : κ} {a b : α}
    (h : (m.add k a).get? k' = some b) : m.get? k' = some b ∨ k' = k ∧ b = a := by
  rw [Memo.add] at h
  split_ifs at h with hk
  · exact .inl h
  · rw [Memo.get?, List.lookup_cons] at h
    split at h
    · rename_i hkk
      cases h
      exact .inr ⟨beq_iff_eq.mp hkk, rfl⟩
    · exact .inl h

namespace FileTree

/-- The document at a path, read where the path resolves to. -/
def document (t : FileTree) (p : Path) : Except Error Toml.Table :=
  t.resolve p >>= t.readDocument

/-- Whether the document at a path has an entry for a tool. -/
def hasTool (t : FileTree) (tool : String) (p : Path) : Except Error Bool := do
  return ProjectFile.hasTool (← t.document p) tool

end FileTree

/-- The caches hold what is found on a tree, relative paths being seen from a base. Of project roots
nothing is said, because the tool they were located for is not kept with them. -/
structure Caches.IsSound (t : FileTree) (base : Path) (c : Caches) : Prop where
  paths : ∀ p q, c.paths.get? p.components = some q → t.resolve (.absolutize base p) = .ok q
  documents : ∀ k d, c.documents.get? k = some d → t.readDocument (.ofComponents k) = .ok d
  ignores : ∀ k spec, c.ignores.get? k = some spec →
    (t.readIgnoreFile (.ofComponents k)).value = .ok spec

lemma Caches.isSound_empty (t : FileTree) (base : Path) : Caches.IsSound t base {} :=
  ⟨fun _ _ => nofun, fun _ _ => nofun, fun _ _ => nofun⟩

namespace Session

open ProjectScope.Action

variable {s : Session} {t : FileTree} {p : Path}

lemma answers_resolve (p : Path) :
    Answers (Caches.IsSound t s.base) (s.resolve t p) (t.resolve (.absolutize s.base p)) := by
  refine answers_remembered (answers_ofResult _) (fun c q h hq => h.paths p q hq) ?_
  intro c q h hq
  refine ⟨fun p' q' hget => ?_, h.documents, h.ignores⟩
  rcases Memo.get?_add_cases hget with hget | ⟨hp, rfl⟩
  · exact h.paths p' q' hget
  · exact FileTree.resolve_congr (Path.components_absolutize_congr s.base hp.symm) hq

lemma answers_document (hp : t.IsPlaced (.absolutize s.base p)) :
    Answers (Caches.IsSound t s.base) (s.document t p) (t.document (.absolutize s.base p)) := by
  refine (answers_resolve p).bind fun q hq => answers_remembered (answers_ofResult _) ?_ ?_
  all_goals have hspelled := FileTree.ofComponents_components_of_resolve hp hq
  · intro c d h hd
    rw [← hspelled]
    exact h.documents _ d hd
  · intro c d h hd
    refine ⟨h.paths, fun k d' hget => ?_, h.ignores⟩
    rcases Memo.get?_add_cases hget with hget | ⟨rfl, rfl⟩
    · exact h.documents k d' hget
    · rw [hspelled]
      exact hd

lemma answers_hasTool (habs : p.isAbsolute = true) :
    Answers (Caches.IsSound t s.base) (s.hasTool t p) (t.hasTool s.tool p) := by
  have hself : Path.absolutize s.base p = p := if_pos habs
  have hdocument : Answers (Caches.IsSound t s.base) (s.document t p)
      (t.document (.absolutize s.base p)) := answers_document (.inl (by rwa [hself]))
  rw [hself] at hdocument
  exact hdocument.bind fun _ _ => answers_pure _

lemma answers_ignoreSpec (hp : t.IsPlaced (.absolutize s.base p)) :
    Answers (Caches.IsSound t s.base) (s.ignoreSpec t p)
      (t.resolve (.absolutize s.base p) >>= fun root => (t.readIgnoreFile root).value) := by
  refine (answers_resolve p).bind fun root hroot => answers_remembered ?_ ?_ ?_
  · exact (answers_ofLogged _).bind fun r _ => answers_ofResult r
  all_goals have hspelled := FileTree.ofComponents_components_of_resolve hp hroot
  · intro c spec h hspec
    rw [← hspelled]
    exact h.ignores _ spec hspec
  · intro c spec h hspec
    refine ⟨h.paths, h.documents, fun k spec' hget => ?_⟩
    rcases Memo.get?_add_cases hget with hget | ⟨rfl, rfl⟩
    · exact h.ignores k spec' hget
    · rw [hspelled]
      exact hspec

end Session

end ProjectScope

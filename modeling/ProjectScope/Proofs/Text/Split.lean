import Mathlib.Tactic.Common

/-!
# Splitting at a separator

The pieces of a list that is split at a separator hold no separator, and nothing that the list does
not hold.
-/

namespace List

variable {α : Type} [BEq α] [LawfulBEq α] {a c : α} {l piece : List α}

/-- A first element joins the first piece, unless it is the separator. -/
lemma exists_splitOn_cons (a c : α) (l : List α) :
    (∃ first others, l.splitOn a = first :: others ∧ c ≠ a ∧
      (c :: l).splitOn a = (c :: first) :: others) ∨
    (c = a ∧ (c :: l).splitOn a = [] :: l.splitOn a) := by
  rw [splitOn_cons_eq_if_modifyHead]
  by_cases hc : c = a
  · right
    simp [hc]
  · left
    obtain ⟨first, others, hsplit⟩ := exists_cons_of_ne_nil (splitOn_ne_nil a l)
    exact ⟨first, others, hsplit, hc, by simp [hc, hsplit]⟩

lemma mem_of_mem_splitOn (hp : piece ∈ l.splitOn a) (hc : c ∈ piece) : c ∈ l := by
  induction l generalizing piece with
  | nil =>
    rw [splitOn_nil, mem_singleton] at hp
    rw [hp] at hc
    cases hc
  | cons d l ih =>
    obtain ⟨first, others, hsplit, -, hd⟩ | ⟨-, hd⟩ := exists_splitOn_cons a d l
    · rw [hd] at hp
      rcases mem_cons.mp hp with rfl | hp
      · rcases mem_cons.mp hc with rfl | hc
        · exact mem_cons_self
        · exact mem_cons_of_mem d (ih (hsplit ▸ mem_cons_self) hc)
      · exact mem_cons_of_mem d (ih (hsplit ▸ mem_cons_of_mem first hp) hc)
    · rw [hd] at hp
      rcases mem_cons.mp hp with rfl | hp
      · cases hc
      · exact mem_cons_of_mem d (ih hp hc)

lemma not_mem_of_mem_splitOn (hp : piece ∈ l.splitOn a) : a ∉ piece := by
  induction l generalizing piece with
  | nil =>
    rw [splitOn_nil, mem_singleton] at hp
    simp [hp]
  | cons d l ih =>
    obtain ⟨first, others, hsplit, hne, hd⟩ | ⟨-, hd⟩ := exists_splitOn_cons a d l
    · rw [hd] at hp
      rcases mem_cons.mp hp with rfl | hp
      · have hfirst : a ∉ first := ih (hsplit ▸ mem_cons_self)
        simp [hfirst, Ne.symm hne]
      · exact ih (hsplit ▸ mem_cons_of_mem first hp)
    · rw [hd] at hp
      rcases mem_cons.mp hp with rfl | hp
      · simp
      · exact ih hp

lemma mem_iff_exists_mem_splitOn (hc : c ≠ a) : c ∈ l ↔ ∃ piece ∈ l.splitOn a, c ∈ piece := by
  constructor
  · intro h
    induction l with
    | nil => cases h
    | cons d l ih =>
      obtain ⟨first, others, hsplit, -, hd⟩ | ⟨rfl, hd⟩ := exists_splitOn_cons a d l
      · rw [hd]
        rcases mem_cons.mp h with rfl | h
        · exact ⟨c :: first, mem_cons_self, mem_cons_self⟩
        · obtain ⟨piece, hp, hmem⟩ := ih h
          rw [hsplit] at hp
          rcases mem_cons.mp hp with rfl | hp
          · exact ⟨d :: piece, mem_cons_self, mem_cons_of_mem d hmem⟩
          · exact ⟨piece, mem_cons_of_mem _ hp, hmem⟩
      · rw [hd]
        obtain ⟨piece, hp, hmem⟩ := ih ((mem_cons.mp h).resolve_left hc)
        exact ⟨piece, mem_cons_of_mem [] hp, hmem⟩
  · rintro ⟨piece, hp, h⟩
    exact mem_of_mem_splitOn hp h

end List

/-!
# Memos

Answers that are remembered by their questions. An answer that is there stays: giving another one
to the same question changes nothing.
-/

namespace ProjectScope

/-- Answers by their questions, latest question first. -/
structure Memo (κ α : Type) where
  entries : List (κ × α) := []

namespace Memo

variable {κ α : Type} [DecidableEq κ]

/-- The remembered answer to a question. -/
def get? (m : Memo κ α) (k : κ) : Option α := m.entries.lookup k

/-- Remember an answer, unless the question has one. -/
def add (m : Memo κ α) (k : κ) (a : α) : Memo κ α :=
  if (m.get? k).isSome then m else ⟨(k, a) :: m.entries⟩

/-- The number of remembered answers. -/
def size (m : Memo κ α) : Nat := m.entries.length

@[simp] theorem get?_empty (k : κ) : ({} : Memo κ α).get? k = none := rfl

theorem add_of_isSome {m : Memo κ α} {k : κ} (a : α) (h : (m.get? k).isSome) : m.add k a = m :=
  if_pos h

theorem size_add_le (m : Memo κ α) (k : κ) (a : α) : (m.add k a).size ≤ m.size + 1 := by
  unfold add
  split
  · exact Nat.le_succ m.size
  · exact Nat.le_refl _

theorem get?_add_self {m : Memo κ α} {k : κ} {a : α} (h : m.get? k = none) :
    (m.add k a).get? k = some a := by
  simp [add, h]
  simp [get?]

theorem get?_add_of_get? {m : Memo κ α} {k k' : κ} {a b : α} (h : m.get? k = some a) :
    (m.add k' b).get? k = some a := by
  unfold add
  split
  · exact h
  · rename_i h'
    have differ : (k == k') = false := by
      rw [beq_eq_false_iff_ne]
      rintro rfl
      simp [h] at h'
    rw [get?, List.lookup_cons, differ]
    exact h

theorem get?_add_of_ne {m : Memo κ α} {k k' : κ} (b : α) (h : k ≠ k') :
    (m.add k' b).get? k = m.get? k := by
  unfold add
  split
  · rfl
  · rw [get?, List.lookup_cons, beq_eq_false_iff_ne.mpr h]
    rfl

end Memo

end ProjectScope

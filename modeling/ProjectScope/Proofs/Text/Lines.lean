import Mathlib.Data.List.Basic
import Mathlib.Tactic.Common
import ProjectScope.Text.Lines

/-!
# Numbered lines

Which line of which number stands in a text: each line feed ends a line, one carriage return before
it belongs to the end, and a text may end without a line feed. The lines that a text is split into
are these, in the order of their numbers.
-/

namespace ProjectScope.Text

variable {s line piece rest : List Char} {n : ℕ}

/-- The line of a number, counted from 1, that stands in a text. -/
inductive IsLine : List Char → ℕ → List Char → Prop
  /-- The end of a text is a line, unless it is empty. -/
  | last {line : List Char} (hline : '\n' ∉ line) (hne : line ≠ []) : IsLine line 1 line
  | ended {line rest : List Char} (hline : '\n' ∉ line) (hreturn : line.getLast? ≠ some '\r') :
      IsLine (line ++ '\n' :: rest) 1 line
  | returned {line rest : List Char} (hline : '\n' ∉ line) :
      IsLine (line ++ '\r' :: '\n' :: rest) 1 line
  | later {piece rest line : List Char} {n : ℕ} (hpiece : '\n' ∉ piece) (h : IsLine rest n line) :
      IsLine (piece ++ '\n' :: rest) (n + 1) line

lemma IsLine.exists_eq_succ (h : IsLine s n line) : ∃ k, n = k + 1 := by
  cases h with
  | last => exact ⟨0, rfl⟩
  | ended => exact ⟨0, rfl⟩
  | returned => exact ⟨0, rfl⟩
  | later => exact ⟨_, rfl⟩

/-! ### Lines one by one -/

lemma dropReturn_of_getLast? (h : line.getLast? ≠ some '\r') : dropReturn line = line := if_neg h

lemma dropReturn_concat (line : List Char) : dropReturn (line ++ ['\r']) = line := by
  simp [dropReturn]

/-- The end of a text is its only line, or there is none. -/
lemma lines_of_not_mem (h : '\n' ∉ s) : lines s = if s.isEmpty then [] else [s] := by
  rw [lines, List.splitOn_eq_singleton h]
  rfl

/-- The first line feed ends the first line. -/
lemma lines_append_cons (h : '\n' ∉ piece) (rest : List Char) :
    lines (piece ++ '\n' :: rest) = dropReturn piece :: lines rest := by
  have hne := List.splitOn_ne_nil '\n' rest
  simp only [lines, List.splitOn_append_cons_self_of_not_mem h, List.dropLast_cons_of_ne_nil hne,
    List.getLast?_cons_of_ne_nil hne]
  rfl

/-- What is left of a piece without its carriage return is the first line. -/
lemma isLine_dropReturn (h : '\n' ∉ piece) (rest : List Char) :
    IsLine (piece ++ '\n' :: rest) 1 (dropReturn piece) := by
  by_cases hreturn : piece.getLast? = some '\r'
  · obtain ⟨line, rfl⟩ := List.getLast?_eq_some_iff.mp hreturn
    rw [dropReturn_concat, List.append_assoc]
    exact .returned fun hline => h (List.mem_append_left _ hline)
  · rw [dropReturn_of_getLast? hreturn]
    exact .ended h hreturn

/-- A text has a first line feed, or none. -/
lemma exists_first_line (s : List Char) :
    '\n' ∉ s ∨ ∃ piece rest, '\n' ∉ piece ∧ s = piece ++ '\n' :: rest := by
  by_cases h : '\n' ∈ s
  · obtain ⟨piece, rest, hs, hpiece⟩ := List.eq_append_cons_of_mem h
    exact .inr ⟨piece, rest, hpiece, hs⟩
  · exact .inl h

lemma isLine_of_getElem? (h : (lines s)[n]? = some line) : IsLine s (n + 1) line := by
  induction n generalizing s with
  | zero =>
    rcases exists_first_line s with hs | ⟨piece, rest, hpiece, rfl⟩
    · rw [lines_of_not_mem hs] at h
      split_ifs at h with hempty
      · cases h
      · cases h
        exact .last hs (by simpa using hempty)
    · rw [lines_append_cons hpiece] at h
      cases h
      exact isLine_dropReturn hpiece rest
  | succ n ih =>
    rcases exists_first_line s with hs | ⟨piece, rest, hpiece, rfl⟩
    · rw [lines_of_not_mem hs] at h
      split_ifs at h <;> cases h
    · rw [lines_append_cons hpiece] at h
      exact .later hpiece (ih h)

lemma IsLine.getElem?_eq (h : IsLine s (n + 1) line) : (lines s)[n]? = some line := by
  generalize hm : n + 1 = m at h
  induction h generalizing n with
  | last hline hne =>
    cases hm
    rw [lines_of_not_mem hline, if_neg (by simpa using hne)]
    rfl
  | ended hline hreturn =>
    cases hm
    rw [lines_append_cons hline, dropReturn_of_getLast? hreturn]
    rfl
  | @returned line rest hline =>
    cases hm
    have hpiece : '\n' ∉ line ++ ['\r'] := by simpa using hline
    rw [← List.singleton_append, ← List.append_assoc, lines_append_cons hpiece, dropReturn_concat]
    rfl
  | later hpiece h ih =>
    cases hm
    obtain ⟨k, rfl⟩ := h.exists_eq_succ
    rw [lines_append_cons hpiece]
    exact ih rfl

/-- The lines that a text is split into are its lines, in the order of their numbers. -/
theorem getElem?_lines_iff : (lines s)[n]? = some line ↔ IsLine s (n + 1) line :=
  ⟨isLine_of_getElem?, IsLine.getElem?_eq⟩

end ProjectScope.Text

import ProjectScope.Proofs.Result
import ProjectScope.Proofs.Text.Blank
import ProjectScope.Proofs.Text.Split
import ProjectScope.Specifier.Set

/-!
# Sets clause by clause

A set is read and narrowed clause by clause, and its clauses hold nothing but blanks that the text
does not hold.
-/

namespace ProjectScope.SpecifierSet

variable {s : String}

lemma parse_eq_ok {xs : SpecifierSet} :
    SpecifierSet.parse s = .ok xs ↔
      (pieces s).mapM (fun piece => Specifier.parse (String.ofList piece)) = .ok xs.clauses := by
  rw [SpecifierSet.parse, bind_eq_ok]
  constructor
  · rintro ⟨clauses, h, h'⟩
    cases h'
    exact h
  · intro h
    exact ⟨xs.clauses, h, rfl⟩

lemma narrow_eq_ok {xs ys : SpecifierSet} :
    xs.narrow = .ok ys ↔ xs.clauses.mapM Specifier.narrow = .ok ys.clauses := by
  rw [SpecifierSet.narrow, bind_eq_ok]
  constructor
  · rintro ⟨clauses, h, h'⟩
    cases h'
    exact h
  · intro h
    exact ⟨ys.clauses, h, rfl⟩

lemma mem_of_mem_pieces {piece : List Char} {c : Char} (hp : piece ∈ pieces s) (hc : c ∈ piece)
    (hblank : Text.isBlank c = false) : c ∈ s.toList := by
  obtain ⟨hp, -⟩ := List.mem_filter.mp hp
  obtain ⟨raw, hraw, rfl⟩ := List.mem_map.mp hp
  exact List.mem_of_mem_splitOn hraw ((Text.mem_trim hblank).mp hc)

/-- No clause of a set holds a comma. -/
lemma comma_not_mem_of_mem_pieces {piece : List Char} (hp : piece ∈ pieces s) : ',' ∉ piece := by
  obtain ⟨hp, -⟩ := List.mem_filter.mp hp
  obtain ⟨raw, hraw, rfl⟩ := List.mem_map.mp hp
  rw [Text.mem_trim (by decide)]
  exact List.not_mem_of_mem_splitOn hraw

/-- Clauses without commas and outer blanks are what is found between the commas that join them. -/
lemma pieces_intercalate {clauses : List (List Char)} (hne : ∀ piece ∈ clauses, piece ≠ [])
    (htrim : ∀ piece ∈ clauses, Text.trim piece = piece) (hcomma : ∀ piece ∈ clauses, ',' ∉ piece) :
    pieces (String.ofList ([','].intercalate clauses)) = clauses := by
  rw [pieces, String.toList_ofList]
  by_cases h : clauses = []
  · simp [h]
  · rw [List.splitOn_intercalate ',' hcomma h, List.map_congr_left htrim, List.map_id',
      List.filter_eq_self]
    intro piece hp
    simpa using hne piece hp

end ProjectScope.SpecifierSet

import ProjectScope.Proofs.Version.Reading
import ProjectScope.Specifier.Parser

/-!
# What is read as a specifier

A clause that has been read is of one of three shapes: a text after `===`, a wildcard after `==`
or `!=`, or a version after any operator but `===`.
-/

namespace ProjectScope.Specifier

variable {op : Operator} {s : List Char} {x : Specifier}

/-- The shapes of a clause, with what has been checked of each. -/
inductive OperandShape (op : Operator) (s : List Char) : Specifier → Prop where
  | text (hop : op = .arbitrary) :
      OperandShape op s { operator := op, operand := .text (String.ofList s) }
  | wildcard (stem : List Char) (v : Version) (hop : op.isEquality = true)
      (hs : Text.stripSuffix? ['.', '*'] s = some stem) (hv : readVersion stem = .ok v)
      (plain : (v.isPrerelease || v.isPostrelease || v.isLocal) = false) :
      OperandShape op s { operator := op, operand := .wildcard v.epoch v.release }
  | compatible (v : Version) (hop : op = .compatible)
      (hs : Text.stripSuffix? ['.', '*'] s = none) (hv : readVersion s = .ok v)
      (hlocal : v.isLocal = false) (hlen : 2 ≤ v.release.length) :
      OperandShape op s
        { operator := op, operand := .version v, shared := v.release.length - 1 }
  | version (v : Version) (hop : op ≠ .arbitrary) (hop' : op ≠ .compatible)
      (hs : Text.stripSuffix? ['.', '*'] s = none) (hv : readVersion s = .ok v)
      (hlocal : v.isLocal = true → op.isEquality = true) :
      OperandShape op s { operator := op, operand := .version v }

/-- A clause with this operator has a version without a local label, of two segments or more. -/
lemma exists_version_of_compatible (shape : OperandShape op s x) (hop : x.operator = .compatible) :
    ∃ v, x = ⟨.compatible, .version v, v.release.length - 1⟩ ∧ readVersion s = .ok v ∧
      v.isLocal = false ∧ 2 ≤ v.release.length := by
  cases shape with
  | compatible v hop' hs hv hlocal hlen => exact ⟨v, by rw [hop'], hv, hlocal, hlen⟩
  | text hop' =>
    rw [hop'] at hop
    cases hop
  | wildcard stem v hequality =>
    obtain rfl : op = .compatible := hop
    cases hequality
  | version v hop' hcompatible => exact absurd hop hcompatible

lemma operandShape_of_ofOperand (h : ofOperand op s = .ok x) : OperandShape op s x := by
  simp only [ofOperand] at h
  split at h
  · rename_i hop
    cases h
    exact .text hop
  · rename_i hop
    split at h
    · rename_i stem hs
      split at h
      · cases h
      · rename_i hequality
        obtain ⟨v, hv, h⟩ := bind_eq_ok.mp h
        split at h
        · cases h
        · rename_i hplain
          cases h
          exact .wildcard stem v (by simpa using hequality) hs hv (by simpa using hplain)
    · rename_i hs
      obtain ⟨v, hv, h⟩ := bind_eq_ok.mp h
      split at h
      · cases h
      · rename_i hlocal
        split at h
        · rename_i hcompatible
          split at h
          · cases h
          · cases h
            subst hcompatible
            exact .compatible v rfl hs hv (by simpa [Operator.isEquality] using hlocal) (by omega)
        · rename_i hcompatible
          cases h
          exact .version v hop hcompatible hs hv (by simpa using hlocal)

/-- A clause is read from an operator and a text without blanks. -/
lemma exists_operandShape_of_parse {t : String} (h : Specifier.parse t = .ok x) :
    ∃ op rest, operator? (Text.trim t.toList) = some (op, rest) ∧ Text.trim rest ≠ [] ∧
      (Text.trim rest).any Text.isBlank = false ∧ OperandShape op (Text.trim rest) x := by
  rw [Specifier.parse, mapError_eq_ok] at h
  simp only [ofChars] at h
  split at h
  · cases h
  · rename_i op rest hop
    split at h
    · cases h
    · rename_i hempty
      split at h
      · cases h
      · rename_i hblank
        exact ⟨op, rest, hop, by simpa using hempty, by simpa using hblank,
          operandShape_of_ofOperand h⟩

lemma eq_symbol_append_of_operator? {rest : List Char} (h : operator? s = some (op, rest)) :
    s = op.symbol.toList ++ rest := by
  obtain ⟨op', -, h⟩ := List.exists_of_findSome?_eq_some h
  obtain ⟨r, hr, h⟩ := Option.map_eq_some_iff.mp h
  cases h
  exact (List.isPrefixOf?_eq_some_iff_append_eq.mp hr).symm

/-- Every operator is written with a character that no version holds. -/
lemma exists_mem_symbol (op : Operator) :
    ∃ c ∈ op.symbol.toList, Version.isGrammarChar c.toLower = false ∧ Text.isBlank c = false := by
  have hany : op.symbol.toList.any
      (fun c => !Version.isGrammarChar c.toLower && !Text.isBlank c) = true := by
    cases op <;> decide
  obtain ⟨c, hc, h⟩ := List.any_eq_true.mp hany
  rw [Bool.and_eq_true, Bool.not_eq_true', Bool.not_eq_true'] at h
  exact ⟨c, hc, h.1, h.2⟩

/-- What is read as a clause holds a character that no version holds. -/
lemma exists_mem_of_parse {t : String} (h : Specifier.parse t = .ok x) :
    ∃ c ∈ t.toList, Version.isGrammarChar c.toLower = false ∧ Text.isBlank c = false := by
  obtain ⟨op, rest, hop, -⟩ := exists_operandShape_of_parse h
  obtain ⟨c, hc, hgrammar, hblank⟩ := exists_mem_symbol op
  refine ⟨c, (Text.mem_trim hblank).mp ?_, hgrammar, hblank⟩
  rw [eq_symbol_append_of_operator? hop]
  exact List.mem_append_left rest hc

/-- The segments that a clause shares are among those that it writes. -/
def SharesWritten (x : Specifier) : Prop :=
  ∀ v, x.operand = .version v → x.shared ≤ v.release.length

/-- Every clause that has been read shares written segments only. -/
theorem sharesWritten_of_parse {t : String} (h : Specifier.parse t = .ok x) :
    x.SharesWritten := by
  obtain ⟨op, rest, -, -, -, shape⟩ := exists_operandShape_of_parse h
  intro v hv
  cases shape with
  | text => cases hv
  | wildcard => cases hv
  | compatible w =>
    cases hv
    exact Nat.sub_le _ _
  | version => exact Nat.zero_le _

end ProjectScope.Specifier

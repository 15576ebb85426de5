import Mathlib.Tactic.Common
import ProjectScope.Ignore.Spec
import ProjectScope.Proofs.Text.Bytes

/-!
# Lines that match a single path

Every text is matched by some line that matches no other text. So two paths on which all lines
agree are the same, as the patterns see them.
-/

namespace ProjectScope

namespace Glob

variable {s w : List UInt8} {row : Row} {text other : List Char} {p : Progress} {prev : Option Char}

/-- The tokens of a text without any meaning, and an empty group. -/
def literals (text : List Char) : Glob := text.map .literal ++ [.group [[]]]

lemma bytes_injective (h : bytes text = bytes other) : text = other := by
  have hbytes : Text.bytes (String.ofList text) = Text.bytes (String.ofList other) := by
    rw [Text.bytes_eq, Text.bytes_eq, String.toList_ofList, String.toList_ofList]
    exact h
  rw [Text.bytes, Text.bytes, Array.toList_inj, ← ByteArray.ext_iff] at hbytes
  exact String.ofList_injective (String.toByteArray_inj.mp hbytes)

/-! ### Matching -/

lemma length_advance {f : UInt8 → Bool} (h : row.length = s.length + 1) :
    (advance f s row).length = s.length + 1 := by
  simp [advance, h]

lemma getElem?_succ_advance {f : UInt8 → Bool} {i : ℕ} :
    (advance f s row)[i + 1]? = some true ↔
      row[i]? = some true ∧ ∃ b, s[i]? = some b ∧ f b = true := by
  simp only [advance, List.getElem?_cons_succ, List.getElem?_zipWith]
  cases row[i]? <;> cases s[i]? <;> simp

/-- Going on byte by byte leads to the end from where exactly these bytes are left. -/
lemma getLast?_foldl_advance (h : row.length = s.length + 1) :
    (w.foldl (fun row b => advance (· == b) s row) row).getLast? = some true ↔
      ∃ i : ℕ, row[i]? = some true ∧ s.drop i = w := by
  induction w generalizing row with
  | nil =>
    rw [List.foldl_nil, List.getLast?_eq_getElem?, h, Nat.add_sub_cancel]
    constructor
    · intro hlast
      exact ⟨s.length, hlast, List.drop_length⟩
    · rintro ⟨i, hi, hdrop⟩
      have hle : s.length ≤ i := List.drop_eq_nil_iff.mp hdrop
      obtain ⟨hlt, -⟩ := List.getElem?_eq_some_iff.mp hi
      obtain rfl : i = s.length := by omega
      exact hi
  | cons b w ih =>
    rw [List.foldl_cons, ih (length_advance h)]
    constructor
    · rintro ⟨i, hi, hdrop⟩
      cases i with
      | zero => cases hi
      | succ i =>
        obtain ⟨hrow, b', hb', heq⟩ := getElem?_succ_advance.mp hi
        obtain rfl := eq_of_beq heq
        exact ⟨i, hrow, by rw [List.drop_eq_getElem?_toList_append, hb', hdrop]; rfl⟩
    · rintro ⟨i, hi, hdrop⟩
      have hb : s[i]? = some b := by rw [← List.head?_drop, hdrop]; rfl
      refine ⟨i + 1, getElem?_succ_advance.mpr ⟨hi, b, hb, beq_self_eq_true b⟩, ?_⟩
      rw [← List.tail_drop, hdrop]
      rfl

lemma reach_literals (text : List Char) (row : Row) :
    reach s row (literals text) = (bytes text).foldl (fun row b => advance (· == b) s row) row := by
  induction text generalizing row with
  | nil => rfl
  | cons c text ih =>
    rw [bytes, List.flatMap_cons, List.foldl_append]
    exact ih _

lemma isAboutName_literals (text : List Char) : isAboutName (literals text) = false := by
  have hextension : endsInExtension (literals text) = false := by
    simp [endsInExtension, literals, literal?]
  cases text with
  | nil => rfl
  | cons c text => exact (congrArg _ hextension).trans (Bool.and_false _)

lemma matchesBytes_eq_reach (text : List Char) :
    matchesBytes (literals text) s =
      (reach s (true :: s.map fun _ => false) (literals text)).getLast?.getD false := by
  have hname := isAboutName_literals text
  cases text with
  | nil => rfl
  | cons c text =>
    rw [literals, List.map_cons, List.cons_append] at hname ⊢
    rw [matchesBytes]
    · rw [hname]
      rfl
    · rintro ⟨⟩

/-- Literal tokens match exactly the text that they stand for. -/
lemma matchesBytes_literals :
    matchesBytes (literals text) (bytes other) = true ↔ other = text := by
  rw [matchesBytes_eq_reach, reach_literals, Option.getD_eq_iff]
  constructor
  · rintro (hlast | ⟨-, ⟨⟩⟩)
    obtain ⟨i, hi, hdrop⟩ := (getLast?_foldl_advance (by simp)).mp hlast
    cases i with
    | zero => exact bytes_injective hdrop
    | succ i => simp [List.getElem?_replicate] at hi
  · rintro rfl
    exact .inl ((getLast?_foldl_advance (by simp)).mpr ⟨0, rfl, rfl⟩)

/-! ### Parsing -/

/-- A text with a backslash before each of its characters. -/
def escape (text : List Char) : List Char := text.flatMap fun c => ['\\', c]

lemma parseRest_backslash (c : Char) (more : List Char) :
    parseRest true prev p ('\\' :: c :: more) =
      parseRest true (some c) (p.push (.literal c)) more := by
  simp only [parseRest]

lemma parseRest_escape (h : p.outer = []) :
    parseRest true prev p (escape text ++ ['{', '}']) =
      .ok (p.inner.current.reverse ++ literals text) := by
  induction text generalizing p prev with
  | nil =>
    simp [escape, literals, parseRest, Progress.openGroup, Progress.closeGroup, Progress.push,
      Progress.finish, Progress.inGroup, h, bind, Except.bind]
  | cons c text ih =>
    calc parseRest true prev p (escape (c :: text) ++ ['{', '}'])
        = parseRest true (some c) (p.push (.literal c)) (escape text ++ ['{', '}']) :=
          parseRest_backslash c _
      _ = .ok ((p.push (.literal c)).inner.current.reverse ++ literals text) := ih h
      _ = .ok (p.inner.current.reverse ++ literals (c :: text)) := by
        simp [Progress.push, literals]

end Glob

namespace Pattern

variable {text other : List Char}

/-- A line with an anchored pattern for a single path. The empty group takes their meaning from
blanks and a slash before it. -/
def literalLine (text : List Char) : List Char := '/' :: (Glob.escape text ++ ['{', '}'])

lemma trimLine_literalLine (text : List Char) : trimLine (literalLine text) = literalLine text := by
  have hbrace : Text.isBlank '}' = false := by decide
  have htrim : Text.trimRight (literalLine text) = literalLine text := by
    simp [literalLine, Text.trimRight, Text.dropRightWhile, hbrace]
  rw [trimLine, htrim, ite_self]

lemma ofLine_literalLine (text : List Char) :
    ofLine (literalLine text) = .ok (some { glob := Glob.literals text }) := by
  have hslash : splitFinalSlash (Glob.escape text ++ ['{', '}']) =
      (false, Glob.escape text ++ ['{', '}']) := by
    simp [splitFinalSlash]
  have hglob : globText true (Glob.escape text ++ ['{', '}']) = Glob.escape text ++ ['{', '}'] := by
    have hend : ['/', '*', '*'].isSuffixOf (Glob.escape text ++ ['{', '}']) = false := by
      simp [List.isSuffixOf, List.isPrefixOf]
    simp [globText, hend]
  have hparse : Glob.parse (Glob.escape text ++ ['{', '}']) = .ok (Glob.literals text) :=
    Glob.parseRest_escape rfl
  rw [ofLine, trimLine_literalLine]
  simp only [literalLine, splitMarks, hslash, hglob, hparse]
  rfl

end Pattern

end ProjectScope

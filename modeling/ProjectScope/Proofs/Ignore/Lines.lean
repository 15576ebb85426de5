import Mathlib.Data.List.Forall2
import Mathlib.Tactic.Common
import ProjectScope.Ignore.Spec
import ProjectScope.Proofs.Result
import ProjectScope.Proofs.Text.Lines

/-!
# Reading ignore files

The lines of an ignore file are read from the first to the last, and the first that is no pattern is
the error, under the number that it has in the text. Comments and blank lines have numbers too.
-/

namespace ProjectScope.IgnoreSpec

variable {file : Path} {number i : ℕ} {lines : List String} {e : Error} {text : List Char}

/-- The patterns on some lines, of which comments and blank ones have none. -/
def ArePatternsOf (patterns : List Pattern) (lines : List (List Char)) : Prop :=
  ∃ found, List.Forall₂ (fun line pattern? => Pattern.ofLine line = .ok pattern?) lines found ∧
    patterns = found.filterMap id

/-! ### Line by line -/

/-- Lines are read when each of them is a pattern or none. -/
lemma readLines_eq_ok_iff {patterns : List Pattern} :
    readLines file number lines = .ok patterns ↔
      ArePatternsOf patterns (lines.map String.toList) := by
  induction lines generalizing number patterns with
  | nil =>
    constructor
    · rintro ⟨⟩
      exact ⟨[], .nil, rfl⟩
    · rintro ⟨found, hfound, rfl⟩
      cases hfound
      rfl
  | cons line lines ih =>
    rw [readLines, bind_eq_ok]
    constructor
    · rintro ⟨pattern?, hpattern, h⟩
      obtain ⟨more, hmore, h⟩ := bind_eq_ok.mp h
      cases h
      obtain ⟨found, hfound, rfl⟩ := ih.mp hmore
      refine ⟨pattern? :: found, .cons (mapError_eq_ok.mp hpattern) hfound, ?_⟩
      cases pattern? <;> rfl
    · rintro ⟨found, hfound, rfl⟩
      cases hfound with
      | @cons _ pattern? _ found hpattern hfound =>
        refine ⟨pattern?, mapError_eq_ok.mpr hpattern,
          bind_eq_ok.mpr ⟨_, ih.mpr ⟨found, hfound, rfl⟩, ?_⟩⟩
        cases pattern? <;> rfl

lemma readLines_cons_of_ok {first : String} {pattern? : Option Pattern}
    (h : Pattern.ofLine first.toList = .ok pattern?) :
    readLines file number (first :: lines) = .error e ↔
      readLines file (number + 1) lines = .error e := by
  rw [readLines, h]
  exact bind_pure_eq_error

/-- The first line that is no pattern is the error, under its number. -/
lemma readLines_eq_error_iff :
    readLines file number lines = .error e ↔ ∃ i line fault, lines[i]? = some line ∧
      Pattern.ofLine line.toList = .error fault ∧
      (∀ j l, j < i → lines[j]? = some l → ∃ pattern?, Pattern.ofLine l.toList = .ok pattern?) ∧
      e = lineError file (number + i) line fault := by
  induction lines generalizing number with
  | nil =>
    constructor
    · rintro ⟨⟩
    · rintro ⟨i, line, fault, hline, -⟩
      cases hline
  | cons first lines ih =>
    cases hfirst : Pattern.ofLine first.toList with
    | error fault =>
      have hread : readLines file number (first :: lines) =
          .error (lineError file number first fault) := by
        rw [readLines, hfirst]
        rfl
      rw [hread]
      constructor
      · rintro ⟨⟩
        exact ⟨0, first, fault, rfl, hfirst, nofun, rfl⟩
      · rintro ⟨i, line, fault', hline, hfault, hearlier, rfl⟩
        cases i with
        | zero =>
          cases hline
          cases hfirst.symm.trans hfault
          rfl
        | succ i =>
          obtain ⟨pattern?, hok⟩ := hearlier 0 first i.succ_pos rfl
          cases hfirst.symm.trans hok
    | ok pattern? =>
      rw [readLines_cons_of_ok hfirst, ih]
      constructor
      · rintro ⟨i, line, fault, hline, hfault, hearlier, rfl⟩
        refine ⟨i + 1, line, fault, hline, hfault, fun j l hj hl => ?_, ?_⟩
        · cases j with
          | zero =>
            cases hl
            exact ⟨pattern?, hfirst⟩
          | succ j => exact hearlier j l (Nat.lt_of_succ_lt_succ hj) hl
        · rw [Nat.add_right_comm, Nat.add_assoc]
      · rintro ⟨i, line, fault, hline, hfault, hearlier, rfl⟩
        cases i with
        | zero =>
          cases hline
          cases hfirst.symm.trans hfault
        | succ i =>
          refine ⟨i, line, fault, hline, hfault, fun j l hj hl => ?_, ?_⟩
          · exact hearlier (j + 1) l (Nat.succ_lt_succ hj) hl
          · rw [Nat.add_right_comm, Nat.add_assoc]

/-! ### The text of an ignore file -/

/-- The first line of a text that is no pattern, with its number and why it is none. -/
structure IsFirstMalformed (text : List Char) (number : ℕ) (line : List Char) (fault : GlobFault) :
    Prop where
  isLine : Text.IsLine text number line
  malformed : Pattern.ofLine line = .error fault
  earlier : ∀ m l, m < number → Text.IsLine text m l → ∃ pattern?, Pattern.ofLine l = .ok pattern?

/-- The spec of a text at a root. -/
def ofText (root : Path) (text : List Char) : Except Error IgnoreSpec :=
  ofLines root ((Text.lines text).map String.ofList)

lemma getElem?_map_ofList {i : ℕ} {line : String} :
    ((Text.lines text).map String.ofList)[i]? = some line ↔
      Text.IsLine text (i + 1) line.toList := by
  rw [← Text.getElem?_lines_iff, List.getElem?_map, Option.map_eq_some_iff]
  constructor
  · rintro ⟨cs, hcs, rfl⟩
    rwa [String.toList_ofList]
  · intro h
    exact ⟨line.toList, h, String.ofList_toList⟩

/-- A text is refused for its first line that is no pattern: the error names the ignore file, the
number of the line, and what is wrong with it. -/
lemma ofText_eq_error_iff {root : Path} :
    ofText root text = .error e ↔ ∃ number line fault, IsFirstMalformed text number line fault ∧
      e = .invalidIgnoreFile (root.child ignoreFileName) number
        ("error parsing glob '" ++ String.ofList (Pattern.trimLine line) ++ "': " ++
          fault.message) := by
  rw [ofText, ofLines, bind_pure_eq_error, readLines_eq_error_iff]
  simp only [getElem?_map_ofList, lineError]
  constructor
  · rintro ⟨i, line, fault, hline, hfault, hearlier, rfl⟩
    refine ⟨i + 1, line.toList, fault, ⟨hline, hfault, fun m l hm hl => ?_⟩, ?_⟩
    · obtain ⟨j, rfl⟩ := hl.exists_eq_succ
      have hok := hearlier j (String.ofList l) (Nat.lt_of_succ_lt_succ hm)
      rw [String.toList_ofList] at hok
      exact hok hl
    · rw [Nat.add_comm]
  · rintro ⟨number, line, fault, ⟨hline, hfault, hearlier⟩, rfl⟩
    obtain ⟨i, rfl⟩ := hline.exists_eq_succ
    refine ⟨i, String.ofList line, fault, ?_, ?_, fun j l hj hl => ?_, ?_⟩
    · rwa [String.toList_ofList]
    · rwa [String.toList_ofList]
    · exact hearlier (j + 1) l.toList (Nat.succ_lt_succ hj) hl
    · rw [String.toList_ofList, Nat.add_comm]

/-- What is read from a text holds the patterns of its lines below the root. -/
lemma ofText_eq_ok_iff {root : Path} {spec : IgnoreSpec} :
    ofText root text = .ok spec ↔
      spec.root = root ∧ ArePatternsOf spec.patterns (Text.lines text) := by
  have hlines : ((Text.lines text).map String.ofList).map String.toList = Text.lines text := by
    simp [Function.comp_def]
  rw [ofText, ofLines, bind_eq_ok]
  constructor
  · rintro ⟨patterns, hpatterns, h⟩
    cases h
    rw [readLines_eq_ok_iff, hlines] at hpatterns
    exact ⟨rfl, hpatterns⟩
  · rintro ⟨rfl, hpatterns⟩
    refine ⟨spec.patterns, ?_, rfl⟩
    rwa [readLines_eq_ok_iff, hlines]

/-- Whether some line of a text is no pattern. -/
def HasMalformedLine (text : List Char) : Prop :=
  ∃ number line fault, Text.IsLine text number line ∧ Pattern.ofLine line = .error fault

lemma not_hasMalformedLine {root : Path} {spec : IgnoreSpec} (h : ofText root text = .ok spec) :
    ¬ HasMalformedLine text := by
  rintro ⟨number, line, fault, hline, hfault⟩
  obtain ⟨i, rfl⟩ := hline.exists_eq_succ
  obtain ⟨-, found, hfound, -⟩ := ofText_eq_ok_iff.mp h
  have hmem : line ∈ Text.lines text := List.mem_of_getElem? (Text.getElem?_lines_iff.mpr hline)
  obtain ⟨pattern?, -, hpattern⟩ := exists_of_mapM_eq_ok (mapM_eq_ok.mpr hfound) hmem
  cases hpattern.symm.trans hfault

end ProjectScope.IgnoreSpec

import ProjectScope.Proofs.Text.Blank
import ProjectScope.Proofs.Version.Unambiguous
import ProjectScope.Version.Printer

/-!
# What versions are written with

A text that is read as a version is the text of a reading, so it holds no other characters than the
grammar has. Numbers and releases are printed as the grammar has them.
-/

namespace ProjectScope.Version

/-- The characters that a version in lower case may hold. -/
def isGrammarChar (c : Char) : Bool := isLabelChar c || isSeparator c || c == '!' || c == '+'

/-! ### Characters of the grammar -/

lemma isGrammarChar_of_isDigit {c : Char} (h : c.isDigit = true) : isGrammarChar c = true := by
  simp [isGrammarChar, isLabelChar, h]

lemma isGrammarChar_of_isLabelChar {c : Char} (h : isLabelChar c = true) :
    isGrammarChar c = true := by
  simp [isGrammarChar, h]

lemma isGrammarChar_of_isSeparator {c : Char} (h : isSeparator c = true) :
    isGrammarChar c = true := by
  simp [isGrammarChar, h]

/-- Whether a text holds characters of the grammar only. -/
def InGrammar (s : List Char) : Prop := ∀ c ∈ s, isGrammarChar c = true

lemma inGrammar_nil : InGrammar [] := by simp [InGrammar]

lemma inGrammar_append {s t : List Char} : InGrammar (s ++ t) ↔ InGrammar s ∧ InGrammar t :=
  List.forall_mem_append

lemma inGrammar_cons {c : Char} {s : List Char} :
    InGrammar (c :: s) ↔ isGrammarChar c = true ∧ InGrammar s :=
  List.forall_mem_cons

lemma inGrammar_elim {α : Type} {text : α → List Char} (h : ∀ a, InGrammar (text a)) (x : Option α) :
    InGrammar (x.elim [] text) := by
  cases x with
  | none => exact inGrammar_nil
  | some a => exact h a

lemma inGrammar_digits (m : Numeral) : InGrammar m.digits :=
  fun c hc => isGrammarChar_of_isDigit (m.isDigit c hc)

lemma inGrammar_separatorText (sep : Option Separator) : InGrammar (separatorText sep) := by
  cases sep with
  | none => exact inGrammar_nil
  | some c => exact inGrammar_cons.mpr ⟨isGrammarChar_of_isSeparator c.2, inGrammar_nil⟩

lemma inGrammar_suffix {spellings : List String}
    (hspellings : ∀ w ∈ spellings, w.toList.all isGrammarChar = true) (x : Suffix spellings) :
    InGrammar x.text := by
  rw [Suffix.text, inGrammar_append, inGrammar_append]
  refine ⟨inGrammar_separatorText _, List.all_eq_true.mp (hspellings _ x.word_mem), ?_⟩
  refine inGrammar_elim (fun n => ?_) _
  exact inGrammar_append.mpr ⟨inGrammar_separatorText _, inGrammar_digits _⟩

lemma inGrammar_label (x : LabelReading) : InGrammar x.text := by
  have segment (y : Segment) : InGrammar y.chars :=
    fun c hc => isGrammarChar_of_isLabelChar (y.isLabelChar c hc)
  refine inGrammar_append.mpr ⟨segment _, fun c hc => ?_⟩
  obtain ⟨other, -, hc⟩ := List.mem_flatMap.mp hc
  exact inGrammar_cons.mpr ⟨isGrammarChar_of_isSeparator other.1.2, segment other.2⟩ c hc

lemma inGrammar_text (r : Reading) : InGrammar r.text := by
  have hlabel : InGrammar r.labelText := inGrammar_elim (fun x => inGrammar_cons.mpr
    ⟨by decide, inGrammar_label x⟩) _
  have hdev : InGrammar r.devText :=
    inGrammar_append.mpr ⟨inGrammar_elim (inGrammar_suffix (by decide)) _, hlabel⟩
  have hpost : InGrammar r.postText := by
    refine inGrammar_append.mpr ⟨inGrammar_elim (fun p => ?_) _, hdev⟩
    cases p with
    | hyphen m => exact inGrammar_cons.mpr ⟨by decide, inGrammar_digits m⟩
    | word x => exact inGrammar_suffix (by decide) x
  have hpre : InGrammar r.preText := by
    refine inGrammar_append.mpr ⟨inGrammar_elim (fun p : PreReading => ?_) _, hpost⟩
    have hspellings : ∀ w ∈ spellingsOf p.phase, w.toList.all isGrammarChar = true := by
      cases p.phase <;> decide
    exact inGrammar_suffix hspellings p.suffix
  have hminors : InGrammar (Reading.minorsText r.minors) := by
    intro c hc
    obtain ⟨m, -, hc⟩ := List.mem_flatMap.mp hc
    exact inGrammar_cons.mpr ⟨by decide, inGrammar_digits m⟩ c hc
  have hepoch : InGrammar (r.epoch.elim [] fun m => m.digits ++ ['!']) :=
    inGrammar_elim (fun m => inGrammar_append.mpr
      ⟨inGrammar_digits m, inGrammar_cons.mpr ⟨by decide, inGrammar_nil⟩⟩) _
  rw [Reading.text, Reading.releaseText]
  simp only [inGrammar_append]
  refine ⟨?_, hepoch, inGrammar_digits _, hminors, hpre⟩
  cases r.marked with
  | true => exact inGrammar_cons.mpr ⟨by decide, inGrammar_nil⟩
  | false => exact inGrammar_nil

/-- A text that is read as a version holds characters of the grammar only. -/
theorem isGrammarChar_of_ofLowered {s : List Char} {v : Version} (h : ofLowered s = .ok v) :
    ∀ c ∈ s, isGrammarChar c = true := by
  obtain ⟨r, rfl, -⟩ := exists_reading h
  exact inGrammar_text r

/-- Apart from blanks, a text that is read as a version holds characters of the grammar only, in
either case of letters. -/
theorem isGrammarChar_of_parse {s : String} {v : Version} (h : parse s = .ok v) {c : Char}
    (hc : c ∈ s.toList) (hblank : Text.isBlank c = false) : isGrammarChar c.toLower = true := by
  rw [parse, mapError_eq_ok, ofText] at h
  exact isGrammarChar_of_ofLowered h _ (List.mem_map_of_mem ((Text.mem_trim hblank).mpr hc))

/-! ### Numbers and releases as they are printed -/

open Text.Numeral (digits)

/-- A number as it is printed. -/
def Numeral.ofNumber (n : UInt64) : Numeral where
  digits := Text.Numeral.digits n
  digits_ne_nil := by simp [Text.Numeral.digits]
  isDigit _ := Nat.isDigit_of_mem_toDigits (by decide) (by decide)
  fits := by
    rw [Text.Numeral.digits, Nat.ofDigitChars_toDigits (by decide) (by decide)]
    exact n.toNat_lt_size

lemma Numeral.value_ofNumber (n : UInt64) : (ofNumber n).value = n := by
  have hvalue := number?_digits_numeral (ofNumber n)
  have hnumber : Text.Numeral.number? (ofNumber n).digits = some n := Text.Numeral.number?_digits n
  exact Option.some.inj (hvalue.symm.trans hnumber)

lemma intercalate_cons (c : Char) (a : List Char) (l : List (List Char)) :
    [c].intercalate (a :: l) = a ++ l.flatMap (c :: ·) := by
  induction l generalizing a with
  | nil => simp
  | cons b l ih =>
    rw [List.intercalate_cons_cons, ih b]
    simp

lemma dotted_cons (n : UInt64) (ns : List UInt64) :
    dotted (n :: ns) = digits n ++ Reading.minorsText (ns.map .ofNumber) := by
  rw [dotted, List.map_cons, intercalate_cons, Reading.minorsText, List.flatMap_map, List.flatMap_map]
  rfl

end ProjectScope.Version

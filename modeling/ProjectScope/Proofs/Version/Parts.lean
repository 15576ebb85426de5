import Mathlib.Data.List.TakeWhile
import ProjectScope.Proofs.Result
import ProjectScope.Proofs.Version.Grammar

/-!
# Parts of versions are read

The readers of numbers, suffixes and labels take what the grammar writes for these parts, when what
comes after a part cannot be mistaken for more of it.
-/

namespace ProjectScope.Version

variable {s t rest : List Char} {p q : Char → Bool}

/-! ### How a text goes on -/

/-- Whether a text is at its end or goes on with a character of some kind. -/
def GoesOn (p : Char → Bool) (s : List Char) : Prop := ∀ c ∈ s.head?, p c = true

/-- The characters that are no digits. -/
def isNoDigit (c : Char) : Bool := !c.isDigit

/-- The characters that a suffix with one of some first letters may start with. -/
def startsSuffix (letters : List Char) (c : Char) : Bool := isSeparator c || letters.contains c

/-- The characters that may come after the word of a suffix. -/
def comesAfterWord (c : Char) : Bool := c.isDigit || startsSuffix ['p', 'r', 'd', '+'] c

namespace GoesOn

lemma nil : GoesOn p [] := by simp [GoesOn]

lemma cons {c : Char} (hc : p c = true) (s : List Char) : GoesOn p (c :: s) := by
  rintro d ⟨⟩
  exact hc

lemma mono (h : GoesOn p s) (hpq : ∀ c, p c = true → q c = true) : GoesOn q s :=
  fun c hc => hpq c (h c hc)

end GoesOn

lemma isNoDigit_of_isSeparator {c : Char} (h : isSeparator c = true) : isNoDigit c = true := by
  simp only [isSeparator, Bool.or_eq_true, beq_iff_eq] at h
  rcases h with (rfl | rfl) | rfl <;> decide

lemma isLabelChar_of_isSeparator {c : Char} (h : isSeparator c = true) : isLabelChar c = false := by
  simp only [isSeparator, Bool.or_eq_true, beq_iff_eq] at h
  rcases h with (rfl | rfl) | rfl <;> decide

lemma isNoDigit_of_startsSuffix {letters : List Char} (hletters : letters.all isNoDigit = true)
    {c : Char} (h : startsSuffix letters c = true) : isNoDigit c = true := by
  rw [startsSuffix, Bool.or_eq_true, List.contains_iff_mem] at h
  rcases h with h | h
  · exact isNoDigit_of_isSeparator h
  · exact List.all_eq_true.mp hletters c h

lemma not_goesOn_of_isDigit {d : Char} (hd : d.isDigit = true) (s : List Char) :
    ¬ GoesOn isNoDigit (d :: s) := by
  intro h
  have hnot := h d rfl
  simp [isNoDigit, hd] at hnot

lemma startsSuffix_mono {letters letters' : List Char} (hsub : letters ⊆ letters') {c : Char}
    (h : startsSuffix letters c = true) : startsSuffix letters' c = true := by
  rw [startsSuffix, Bool.or_eq_true, List.contains_iff_mem] at h ⊢
  exact h.imp_right fun hc => hsub hc

lemma comesAfterWord_of_startsSuffix {c : Char} (h : startsSuffix ['p', 'r', 'd', '+'] c = true) :
    comesAfterWord c = true := by
  rw [comesAfterWord, h, Bool.or_true]

/-! ### Runs of characters -/

lemma takeWhile_append_of_goesOn {u : List Char} (hu : ∀ c ∈ u, p c = true)
    (hs : GoesOn (fun c => !p c) s) : (u ++ s).takeWhile p = u := by
  rw [List.takeWhile_append_of_pos hu]
  cases s with
  | nil => simp
  | cons c s =>
    have hc : (!p c) = true := hs c rfl
    simp [Bool.not_eq_true' _ ▸ hc]

lemma dropWhile_append_of_goesOn {u : List Char} (hu : ∀ c ∈ u, p c = true)
    (hs : GoesOn (fun c => !p c) s) : (u ++ s).dropWhile p = s := by
  rw [List.dropWhile_append_of_pos hu]
  cases s with
  | nil => rfl
  | cons c s =>
    have hc : (!p c) = true := hs c rfl
    simp [Bool.not_eq_true' _ ▸ hc]

/-! ### Numbers -/

lemma number?_digits_numeral (m : Numeral) : Text.Numeral.number? m.digits = some m.value :=
  dif_pos m.fits

lemma readNumber?_append (m : Numeral) (hrest : GoesOn isNoDigit rest) :
    readNumber? (m.digits ++ rest) = .ok (some m.value, rest) := by
  rw [readNumber?, takeWhile_append_of_goesOn m.isDigit hrest,
    dropWhile_append_of_goesOn m.isDigit hrest, number?_digits_numeral]
  simp [m.digits_ne_nil]

lemma readNumber?_of_goesOn (h : GoesOn isNoDigit s) : readNumber? s = .ok (none, s) := by
  have htake : s.takeWhile Char.isDigit = [] :=
    takeWhile_append_of_goesOn (u := []) (by simp) h
  rw [readNumber?, htake]
  rfl

lemma Numeral.exists_digits_eq_cons (m : Numeral) :
    ∃ d ds, m.digits = d :: ds ∧ d.isDigit = true := by
  obtain ⟨d, ds, hdigits⟩ := List.exists_cons_of_ne_nil m.digits_ne_nil
  exact ⟨d, ds, hdigits, m.isDigit d (hdigits ▸ List.mem_cons_self)⟩

/-! ### Separators -/

lemma skipSeparator_append (sep : Option Separator) (hs : GoesOn (fun c => !isSeparator c) s) :
    skipSeparator (separatorText sep ++ s) = s := by
  cases sep with
  | none =>
    cases s with
    | nil => rfl
    | cons c s =>
      have hc : (!isSeparator c) = true := hs c rfl
      simp [separatorText, skipSeparator, Bool.not_eq_true' _ ▸ hc]
  | some c => simp [separatorText, skipSeparator, c.2]

lemma skipSeparator_of_isSeparator {c : Char} (hc : isSeparator c = true) (s : List Char) :
    skipSeparator (c :: s) = s :=
  if_pos hc

lemma skipSeparator_of_goesOn (h : GoesOn (fun c => !isSeparator c) s) : skipSeparator s = s :=
  skipSeparator_append none h

/-- A single digit is a number. -/
def Numeral.ofDigit (c : Char) (hc : c.isDigit = true) : Numeral where
  digits := [c]
  digits_ne_nil := List.cons_ne_nil c []
  isDigit := by simpa using hc
  fits := by
    rw [Char.isDigit_iff_toNat] at hc
    have hhigh : c.toNat ≤ 57 := hc.2
    have hvalue : Nat.ofDigitChars 10 [c] 0 = 10 * 0 + (c.toNat - 48) := rfl
    have hsize : UInt64.size = 18446744073709551616 := rfl
    omega

/-- A number stands at the start of a text exactly when a digit does, or a separator and a digit. -/
lemma noCount_iff :
    NoCount s ↔ GoesOn isNoDigit s ∧ GoesOn isNoDigit (skipSeparator s) := by
  constructor
  · intro h
    have hfirst : GoesOn isNoDigit s := by
      intro c hc
      by_contra hdigit
      obtain ⟨t, rfl⟩ := List.head?_eq_some_iff.mp hc
      exact h ⟨none, .ofDigit c (by simpa [isNoDigit] using hdigit)⟩ ⟨t, rfl⟩
    refine ⟨hfirst, ?_⟩
    cases s with
    | nil => exact .nil
    | cons c s =>
      by_cases hc : isSeparator c = true
      · rw [skipSeparator_of_isSeparator hc]
        intro d hd
        by_contra hdigit
        obtain ⟨t, rfl⟩ := List.head?_eq_some_iff.mp hd
        exact h ⟨some ⟨c, hc⟩, .ofDigit d (by simpa [isNoDigit] using hdigit)⟩ ⟨t, rfl⟩
      · rwa [skipSeparator_of_goesOn (.cons (by simpa using hc) s)]
  · rintro ⟨hfirst, hsecond⟩ ⟨sep, m⟩ ⟨t, rfl⟩
    obtain ⟨d, ds, hdigits, hd⟩ := m.exists_digits_eq_cons
    have hdigit : ¬ GoesOn isNoDigit (m.digits ++ t) := by
      rw [hdigits]
      exact not_goesOn_of_isDigit hd _
    cases sep with
    | none => exact hdigit hfirst
    | some c => exact hdigit (by simpa [Count.text, separatorText, skipSeparator, c.2] using hsecond)

lemma NoCount.goesOn_of_cons {c : Char} (h : NoCount s) (hc : isSeparator c = true)
    (hs : s = c :: t) : GoesOn isNoDigit t := by
  subst hs
  have hskip := (noCount_iff.mp h).2
  rwa [skipSeparator_of_isSeparator hc] at hskip

lemma skipSeparatorBeforeDigit_text (n : Count) (t : List Char) :
    skipSeparatorBeforeDigit (n.text ++ t) = n.numeral.digits ++ t := by
  obtain ⟨sep, m⟩ := n
  obtain ⟨d, ds, hdigits, hd⟩ := m.exists_digits_eq_cons
  cases sep with
  | none =>
    have hsep : isSeparator d = false := by
      by_contra hsep
      have hnot := isNoDigit_of_isSeparator (by simpa using hsep)
      simp [isNoDigit, hd] at hnot
    simp only [Count.text, separatorText, hdigits, List.nil_append, List.cons_append]
    cases ds ++ t with
    | nil => rfl
    | cons c r => simp [skipSeparatorBeforeDigit, hsep]
  | some c => simp [Count.text, separatorText, hdigits, skipSeparatorBeforeDigit, c.2, hd]

lemma skipSeparatorBeforeDigit_cases (s : List Char) :
    (skipSeparatorBeforeDigit s = s ∧ (GoesOn isNoDigit s → NoCount s)) ∨
      ∃ sep : Separator, ∃ d t, d.isDigit = true ∧ s = sep.1 :: d :: t ∧
        skipSeparatorBeforeDigit s = d :: t := by
  cases s with
  | nil => exact .inl ⟨rfl, fun h => noCount_iff.mpr ⟨h, h⟩⟩
  | cons c s =>
    by_cases hc : isSeparator c = true
    · cases s with
      | nil =>
        refine .inl ⟨rfl, fun h => noCount_iff.mpr ⟨h, ?_⟩⟩
        rw [skipSeparator_of_isSeparator hc]
        exact .nil
      | cons d t =>
        by_cases hd : d.isDigit = true
        · exact .inr ⟨⟨c, hc⟩, d, t, hd, rfl, by simp [skipSeparatorBeforeDigit, hc, hd]⟩
        · refine .inl ⟨by simp [skipSeparatorBeforeDigit, hd], fun h => noCount_iff.mpr ⟨h, ?_⟩⟩
          rw [skipSeparator_of_isSeparator hc]
          exact .cons (by simp [isNoDigit, hd]) t
    · refine .inl ⟨?_, fun h => noCount_iff.mpr ⟨h, ?_⟩⟩
      · cases s with
        | nil => rfl
        | cons d t => simp [skipSeparatorBeforeDigit, hc]
      · rwa [skipSeparator_of_goesOn (.cons (by simpa using hc) s)]

lemma skipSeparatorBeforeDigit_of_noCount (h : NoCount s) : skipSeparatorBeforeDigit s = s := by
  rcases skipSeparatorBeforeDigit_cases s with ⟨hskip, -⟩ | ⟨sep, d, t, hd, hs, -⟩
  · exact hskip
  · exact absurd (h.goesOn_of_cons sep.2 hs) (not_goesOn_of_isDigit hd t)

lemma readSuffixNumber_text? {n : Option Count} (hearly : n = none → NoCount rest)
    (hrest : GoesOn isNoDigit rest) :
    readSuffixNumber (Count.text? n ++ rest) = .ok (Count.value? n, rest) := by
  cases n with
  | none =>
    have hnone := hearly rfl
    rw [Count.text?, Option.elim_none, List.nil_append, readSuffixNumber,
      skipSeparatorBeforeDigit_of_noCount hnone, readNumber?_of_goesOn hrest]
    rfl
  | some n =>
    rw [Count.text?, Option.elim_some, readSuffixNumber,
      skipSeparatorBeforeDigit_text, readNumber?_append _ hrest]
    rfl

/-! ### Words -/

/-- Whether none of some words goes on after another word with a character that may come after
it. -/
def noneGoesOn {α : Type} (words : List (String × α)) (w : String) : Bool :=
  words.all fun x => (w.toList.isPrefixOf? x.1.toList).all fun r =>
    r.head?.all fun c => !comesAfterWord c

lemma isPrefixOf?_append {w x : List Char}
    (h : ∀ c ∈ s.head?, ∀ r, w.isPrefixOf? x ≠ some (c :: r)) :
    x.isPrefixOf? (w ++ s) = (x.isPrefixOf? w).map (· ++ s) := by
  induction x generalizing w with
  | nil => simp [List.isPrefixOf?]
  | cons a x ih =>
    cases w with
    | nil =>
      cases s with
      | nil => rfl
      | cons c s =>
        have hac : (a == c) = false := by
          rw [beq_eq_false_iff_ne]
          rintro rfl
          exact h a rfl x rfl
        simp [List.isPrefixOf?, hac]
    | cons b w =>
      by_cases hab : a = b
      · subst hab
        simp only [List.isPrefixOf?, List.cons_append, beq_self_eq_true, if_true] at h ⊢
        exact ih h
      · simp [List.isPrefixOf?, hab]

/-- A word is found as well when the text goes on, unless it may go on as a longer word does. -/
lemma word?_append {α : Type} {words : List (String × α)} {w : String}
    (hw : noneGoesOn words w = true) (hs : GoesOn comesAfterWord s) :
    word? words (w.toList ++ s) = (word? words w.toList).map fun x => (x.1, x.2 ++ s) := by
  -- each word is a prefix of the text exactly when it is one of the word that is written
  induction words with
  | nil => rfl
  | cons x words ih =>
    rw [noneGoesOn, List.all_cons, Bool.and_eq_true] at hw
    have hx : x.1.toList.isPrefixOf? (w.toList ++ s) =
        (x.1.toList.isPrefixOf? w.toList).map (· ++ s) := by
      apply isPrefixOf?_append
      intro c hc r hr
      have hnot := hw.1
      rw [hr] at hnot
      simp [hs c hc] at hnot
    have ih := ih hw.2
    simp only [word?] at ih
    simp only [word?, List.findSome?_cons, hx]
    cases x.1.toList.isPrefixOf? w.toList with
    | none => exact ih
    | some r => rfl

/-! ### Suffixes -/

section Suffix

variable {α : Type} {words : List (String × α)} {meaning : α} {spellings : List String}

/-- The characters that a word may start with. -/
def startsWord (c : Char) : Bool := isNoDigit c && (!isSeparator c && c != '+')

/-- Whether words find some spellings whole, and none of them goes on after one of the spellings. -/
structure Spells (words : List (String × α)) (meaning : α) (spellings : List String) : Prop where
  found : ∀ w ∈ spellings, word? words w.toList = some (meaning, [])
  alone : ∀ w ∈ spellings, noneGoesOn words w = true

/-- Whether words start with a letter of some kind. -/
def StartWith (p : Char → Bool) (spellings : List String) : Prop :=
  ∀ w ∈ spellings, w.toList.head?.any p = true

instance : Decidable (StartWith p spellings) :=
  inferInstanceAs (Decidable (∀ w ∈ spellings, w.toList.head?.any p = true))

lemma StartWith.exists_eq_cons (h : StartWith p spellings) {w : String} (hw : w ∈ spellings) :
    ∃ c r, w.toList = c :: r ∧ p c = true := by
  obtain ⟨c, hc, hp⟩ := (Option.any_eq_true _ _).mp (h w hw)
  obtain ⟨r, hr⟩ := List.head?_eq_some_iff.mp hc
  exact ⟨c, r, hr, hp⟩

lemma StartWith.goesOn (h : StartWith p spellings) {w : String} (hw : w ∈ spellings)
    (t : List Char) : GoesOn p (w.toList ++ t) := by
  obtain ⟨c, r, hr, hp⟩ := h.exists_eq_cons hw
  rw [hr]
  exact .cons hp _

lemma skipSeparator_suffix (h : StartWith startsWord spellings) (x : Suffix spellings)
    (t : List Char) :
    skipSeparator (x.text ++ t) = x.word.toList ++ (Count.text? x.count ++ t) := by
  rw [Suffix.text, List.append_assoc, List.append_assoc]
  refine skipSeparator_append _ ((h.goesOn x.word_mem _).mono fun c hc => ?_)
  exact (Bool.and_eq_true_iff.mp (Bool.and_eq_true_iff.mp hc).2).1

lemma goesOn_suffix {letters : List Char} (h : StartWith letters.contains spellings)
    (x : Suffix spellings) (t : List Char) : GoesOn (startsSuffix letters) (x.text ++ t) := by
  obtain ⟨sep, w, hw, n⟩ := x
  cases sep with
  | none =>
    rw [Suffix.text, separatorText, List.nil_append, List.append_assoc]
    exact (h.goesOn hw _).mono fun c hc => by rw [startsSuffix, hc, Bool.or_true]
  | some c => exact .cons (by rw [startsSuffix, c.2, Bool.true_or]) _

/-- No number stands where a suffix with a word does. -/
lemma noCount_suffix (h : StartWith startsWord spellings) (x : Suffix spellings)
    (t : List Char) : NoCount (x.text ++ t) := by
  have hword (t : List Char) : GoesOn isNoDigit (x.word.toList ++ t) :=
    (h.goesOn x.word_mem t).mono fun c hc => (Bool.and_eq_true_iff.mp hc).1
  rw [noCount_iff, skipSeparator_suffix h]
  refine ⟨?_, hword _⟩
  obtain ⟨sep, w, hw, n⟩ := x
  cases sep with
  | none =>
    rw [Suffix.text, separatorText, List.nil_append, List.append_assoc]
    exact hword _
  | some c => exact .cons (isNoDigit_of_isSeparator c.2) _

lemma goesOn_text? (n : Option Count) (h : GoesOn comesAfterWord t) :
    GoesOn comesAfterWord (Count.text? n ++ t) := by
  cases n with
  | none => exact h
  | some n =>
    obtain ⟨sep, m⟩ := n
    obtain ⟨d, ds, hdigits, hd⟩ := m.exists_digits_eq_cons
    cases sep with
    | none =>
      simp only [Count.text?, Option.elim_some, Count.text, separatorText, hdigits,
        List.nil_append, List.cons_append]
      exact .cons (by rw [comesAfterWord, hd, Bool.true_or]) _
    | some c => exact .cons (by simp [comesAfterWord, startsSuffix, c.2]) _

/-- A suffix is read where it takes its number. -/
lemma readSuffix?_text (hwords : Spells words meaning spellings)
    (hstart : StartWith startsWord spellings) {x : Suffix spellings} (hearly : x.IsEarly rest)
    (hrest : GoesOn (startsSuffix ['p', 'r', 'd', '+']) rest) :
    readSuffix? words (x.text ++ rest) = .ok (some (meaning, x.value), rest) := by
  have hafter : GoesOn comesAfterWord rest := hrest.mono fun c => comesAfterWord_of_startsSuffix
  have hdigit : GoesOn isNoDigit rest :=
    hrest.mono fun c => isNoDigit_of_startsSuffix (by decide)
  rw [readSuffix?, skipSeparator_suffix hstart,
    word?_append (hwords.alone _ x.word_mem) (goesOn_text? _ hafter), hwords.found _ x.word_mem]
  simp only [Option.map_some, List.nil_append]
  rw [readSuffixNumber_text? hearly hdigit]
  rfl

/-- Words are not found where a suffix with another word stands. -/
lemma word?_suffix_eq_none
    (hwords : ∀ w ∈ spellings, word? words w.toList = none ∧ noneGoesOn words w = true)
    (hstart : StartWith startsWord spellings) (x : Suffix spellings)
    (ht : GoesOn (startsSuffix ['p', 'r', 'd', '+']) t) :
    word? words (skipSeparator (x.text ++ t)) = none := by
  have hafter : GoesOn comesAfterWord t := ht.mono fun c => comesAfterWord_of_startsSuffix
  obtain ⟨hnone, halone⟩ := hwords _ x.word_mem
  rw [skipSeparator_suffix hstart, word?_append halone (goesOn_text? _ hafter), hnone]
  rfl

/-- Words are not found where none can start. -/
lemma word?_of_goesOn (hstart : StartWith startsWord (words.map Prod.fst))
    (ht : GoesOn (fun c => !startsWord c) t) : word? words t = none := by
  rw [word?, List.findSome?_eq_none_iff]
  intro x hx
  rw [Option.map_eq_none_iff]
  cases hprefix : x.1.toList.isPrefixOf? t with
  | none => rfl
  | some r =>
    obtain ⟨c, w, hw, hc⟩ := hstart.exists_eq_cons (List.mem_map_of_mem hx)
    rw [← List.isPrefixOf?_eq_some_iff_append_eq.mp hprefix, hw] at ht
    have hnot : (!startsWord c) = true := ht c rfl
    rw [hc] at hnot
    cases hnot

lemma readSuffix?_of_word?_eq_none (h : word? words (skipSeparator s) = none) :
    readSuffix? words s = .ok (none, s) := by
  rw [readSuffix?, h]

end Suffix

lemma spells_phaseWords (phase : Phase) : Spells phaseWords phase (spellingsOf phase) := by
  cases phase <;> constructor <;> decide

lemma spells_postWords : Spells postWords () postSpellings := by
  constructor <;> decide

lemma spells_devWords : Spells devWords () devSpellings := by
  constructor <;> decide

lemma startWith_spellingsOf (phase : Phase) : StartWith startsWord (spellingsOf phase) := by
  cases phase <;> decide

lemma startWith_postSpellings : StartWith startsWord postSpellings := by
  decide

lemma startWith_devSpellings : StartWith startsWord devSpellings := by
  decide

/-- Where no number comes after a hyphen, a post-release has a word. -/
lemma readPost?_of_goesOn (h : ∀ t, s = '-' :: t → GoesOn isNoDigit t) :
    readPost? s = readSuffix? postWords s >>= fun x => .ok (x.1.map Prod.snd, x.2) := by
  unfold readPost?
  split
  · rw [readNumber?_of_goesOn (h _ rfl)]
    rfl
  · rfl

/-! ### Local labels -/

lemma labelPartOf_chars (x : Segment) : labelPartOf x.chars = x.part := by
  rw [labelPartOf, Segment.part, Text.Numeral.number?]
  by_cases hfits : Nat.ofDigitChars 10 x.chars 0 < UInt64.size
  · by_cases hdigits : x.chars.all Char.isDigit = true
    · simp only [dif_pos hfits, if_pos hdigits, dif_pos (And.intro hdigits hfits)]
    · simp only [dif_pos hfits, if_neg hdigits, dif_neg fun h => hdigits (And.left h)]
  · simp only [dif_neg hfits, dif_neg fun h => hfits (And.right h)]

lemma goesOn_othersText (others : List (Separator × Segment)) :
    GoesOn isSeparator (LabelReading.othersText others) := by
  cases others with
  | nil => exact .nil
  | cons other others => exact .cons other.1.2 _

lemma readLabelParts_eq (s : List Char) :
    readLabelParts s =
      if (s.takeWhile isLabelChar).isEmpty then .error .emptyLocalSegment
      else match s.dropWhile isLabelChar with
        | c :: r =>
          if isSeparator c then
            readLabelParts r >>= fun x =>
              .ok (labelPartOf (s.takeWhile isLabelChar) :: x.1, x.2)
          else .ok ([labelPartOf (s.takeWhile isLabelChar)], c :: r)
        | [] => .ok ([labelPartOf (s.takeWhile isLabelChar)], []) := by
  rw [readLabelParts]
  split_ifs
  · rfl
  · split
    · rename_i h
      rw [h]
      rfl
    · rename_i h
      rw [h]

/-- A label is read run by run, up to the end of the text. -/
lemma readLabelParts_text (first : Segment) (others : List (Separator × Segment)) :
    readLabelParts (first.chars ++ LabelReading.othersText others) =
      .ok (first.part :: others.map fun other => other.2.part, []) := by
  induction others generalizing first with
  | nil =>
    have hstop : GoesOn (fun c => !isLabelChar c) (LabelReading.othersText []) := .nil
    rw [readLabelParts_eq, takeWhile_append_of_goesOn first.isLabelChar hstop,
      dropWhile_append_of_goesOn first.isLabelChar hstop, labelPartOf_chars]
    simp [first.chars_ne_nil, LabelReading.othersText]
  | cons other others ih =>
    have hstop : GoesOn (fun c => !isLabelChar c) (LabelReading.othersText (other :: others)) :=
      (goesOn_othersText _).mono fun c hc => by rw [isLabelChar_of_isSeparator hc]; rfl
    rw [readLabelParts_eq, takeWhile_append_of_goesOn first.isLabelChar hstop,
      dropWhile_append_of_goesOn first.isLabelChar hstop, labelPartOf_chars]
    have hothers : LabelReading.othersText (other :: others) =
        other.1.1 :: (other.2.chars ++ LabelReading.othersText others) := rfl
    simp only [hothers, other.1.2, if_true, ih, List.isEmpty_iff, first.chars_ne_nil, if_false]
    rfl

end ProjectScope.Version

import ProjectScope.Proofs.Version.Parts

/-!
# Texts of the grammar are read

No part of a version can be mistaken for another one: each reader takes the part that it reads for,
or nothing where a reading has no such part. So the text of an early reading is read, and as the
version of the reading.
-/

namespace ProjectScope.Version

variable {s : List Char}

namespace Reading

variable {r : Reading}

/-! ### How the rest of a reading starts -/

lemma goesOn_labelText (r : Reading) {p : Char → Bool} (hp : p '+' = true) :
    GoesOn p r.labelText := by
  cases h : r.label with
  | none =>
    rw [labelText, h]
    exact .nil
  | some x =>
    rw [labelText, h]
    exact .cons hp x.text

lemma skipSeparator_labelText (r : Reading) : skipSeparator r.labelText = r.labelText :=
  skipSeparator_of_goesOn (r.goesOn_labelText (by decide))

lemma noCount_labelText (r : Reading) : NoCount r.labelText := by
  rw [noCount_iff, skipSeparator_labelText, and_self]
  exact r.goesOn_labelText (by decide)

lemma noCount_devText (r : Reading) : NoCount r.devText := by
  cases h : r.dev with
  | none =>
    rw [devText, h]
    exact r.noCount_labelText
  | some x =>
    rw [devText, h]
    exact noCount_suffix startWith_devSpellings x _

lemma goesOn_devText (r : Reading) : GoesOn (startsSuffix ['d', '+']) r.devText := by
  cases h : r.dev with
  | none =>
    rw [devText, h]
    exact r.goesOn_labelText (by decide)
  | some x =>
    rw [devText, h]
    have hstart : StartWith ['d'].contains devSpellings := by decide
    exact (goesOn_suffix hstart x _).mono fun c => startsSuffix_mono (by simp)

lemma goesOn_postText (r : Reading) : GoesOn (startsSuffix ['p', 'r', 'd', '+']) r.postText := by
  cases h : r.post with
  | none =>
    rw [postText, h]
    exact r.goesOn_devText.mono fun c => startsSuffix_mono (by simp)
  | some p =>
    rw [postText, h]
    cases p with
    | hyphen n => exact .cons (by decide) _
    | word x =>
      have hstart : StartWith ['p', 'r'].contains postSpellings := by decide
      exact (goesOn_suffix hstart x _).mono fun c => startsSuffix_mono (by simp)

lemma goesOn_preText (r : Reading) :
    GoesOn (startsSuffix ['a', 'b', 'c', 'p', 'r', 'd', '+']) r.preText := by
  cases h : r.pre with
  | none =>
    rw [preText, h]
    exact r.goesOn_postText.mono fun c => startsSuffix_mono (by simp)
  | some p =>
    rw [preText, h]
    have hstart : StartWith ['a', 'b', 'c', 'p', 'r'].contains (spellingsOf p.phase) := by
      cases p.phase <;> decide
    exact (goesOn_suffix hstart p.suffix _).mono fun c => startsSuffix_mono (by simp)

/-! ### Suffixes that are not there -/

section

variable {α : Type} {words : List (String × α)}
  (hstart : StartWith startsWord (words.map Prod.fst))
include hstart

lemma word?_labelText (r : Reading) : word? words (skipSeparator r.labelText) = none := by
  rw [skipSeparator_labelText]
  exact word?_of_goesOn hstart (r.goesOn_labelText (by decide))

lemma word?_devText
    (hdev : ∀ w ∈ devSpellings, word? words w.toList = none ∧ noneGoesOn words w = true)
    (r : Reading) : word? words (skipSeparator r.devText) = none := by
  cases h : r.dev with
  | none =>
    rw [devText, h]
    exact word?_labelText hstart r
  | some x =>
    rw [devText, h]
    exact word?_suffix_eq_none hdev startWith_devSpellings x (r.goesOn_labelText (by decide))

end

lemma word?_postText (r : Reading) : word? phaseWords (skipSeparator r.postText) = none := by
  have hstart : StartWith startsWord (phaseWords.map Prod.fst) := by decide
  cases h : r.post with
  | none =>
    rw [postText, h]
    exact word?_devText hstart (by decide) r
  | some p =>
    rw [postText, h]
    cases p with
    | hyphen n =>
      obtain ⟨d, ds, hdigits, hd⟩ := n.exists_digits_eq_cons
      have hskip : skipSeparator ('-' :: (n.digits ++ r.devText)) = n.digits ++ r.devText :=
        skipSeparator_of_isSeparator (by decide) _
      rw [Option.elim_some, PostReading.text, List.cons_append, hskip, hdigits]
      exact word?_of_goesOn hstart (.cons (by simp [startsWord, isNoDigit, hd]) _)
    | word x =>
      exact word?_suffix_eq_none (by decide) startWith_postSpellings x
        (r.goesOn_devText.mono fun c => startsSuffix_mono (by simp))

/-! ### Parts -/

lemma readLabel_labelText (r : Reading) :
    readLabel r.labelText = .ok (r.label.elim [] LabelReading.parts, []) := by
  cases h : r.label with
  | none =>
    rw [labelText, h]
    rfl
  | some x =>
    rw [labelText, h]
    exact readLabelParts_text x.first x.others

lemma readDev?_devText (h : ∀ x ∈ r.dev, x.IsEarly r.labelText) :
    readDev? r.devText = .ok (r.dev.map Suffix.value, r.labelText) := by
  cases hdev : r.dev with
  | none =>
    have hstart : StartWith startsWord (devWords.map Prod.fst) := by decide
    rw [devText, hdev, readDev?, Option.elim_none, List.nil_append,
      readSuffix?_of_word?_eq_none (word?_labelText hstart r)]
    rfl
  | some x =>
    rw [devText, hdev, readDev?, Option.elim_some,
      readSuffix?_text spells_devWords startWith_devSpellings (h x hdev)
        (r.goesOn_labelText (by decide))]
    rfl

lemma readPost?_postText (h : ∀ p ∈ r.post, p.IsEarly r.devText) :
    readPost? r.postText = .ok (r.post.map PostReading.value, r.devText) := by
  cases hpost : r.post with
  | none =>
    have hstart : StartWith startsWord (postWords.map Prod.fst) := by decide
    rw [postText, hpost, Option.elim_none, List.nil_append,
      readPost?_of_goesOn fun t => r.noCount_devText.goesOn_of_cons (by decide),
      readSuffix?_of_word?_eq_none (word?_devText hstart (by decide) r)]
    rfl
  | some p =>
    rw [postText, hpost, Option.elim_some]
    cases p with
    | hyphen n =>
      have hdigit : GoesOn isNoDigit r.devText :=
        r.goesOn_devText.mono fun c => isNoDigit_of_startsSuffix (by decide)
      rw [PostReading.text, List.cons_append, readPost?, readNumber?_append n hdigit]
      rfl
    | word x =>
      rw [PostReading.text,
        readPost?_of_goesOn fun t =>
          (noCount_suffix startWith_postSpellings x r.devText).goesOn_of_cons (by decide),
        readSuffix?_text spells_postWords startWith_postSpellings (h _ hpost)
          (r.goesOn_devText.mono fun c => startsSuffix_mono (by simp))]
      rfl

lemma readPre?_preText (h : ∀ p ∈ r.pre, p.suffix.IsEarly r.postText) :
    readPre? r.preText = .ok (r.pre.map fun p => (p.phase, p.suffix.value), r.postText) := by
  cases hpre : r.pre with
  | none =>
    rw [preText, hpre, Option.elim_none, List.nil_append, readPre?,
      readSuffix?_of_word?_eq_none r.word?_postText]
    rfl
  | some p =>
    rw [preText, hpre, Option.elim_some, readPre?,
      readSuffix?_text (spells_phaseWords p.phase) (startWith_spellingsOf p.phase) (h p hpre)
        r.goesOn_postText]
    rfl

/-- No release segment comes after the release. -/
lemma goesOn_of_preText (r : Reading) : ∀ t, r.preText = '.' :: t → GoesOn isNoDigit t := by
  intro t h
  have hcount {s} (hs : NoCount s) : s = '.' :: t → GoesOn isNoDigit t :=
    hs.goesOn_of_cons (by decide)
  cases hpre : r.pre with
  | some p =>
    rw [preText, hpre] at h
    exact hcount (noCount_suffix (startWith_spellingsOf p.phase) p.suffix _) h
  | none =>
    rw [preText, hpre, Option.elim_none, List.nil_append, postText] at h
    cases hpost : r.post with
    | none =>
      rw [hpost] at h
      exact hcount r.noCount_devText h
    | some p =>
      rw [hpost] at h
      cases p with
      | hyphen n => cases h
      | word x => exact hcount (noCount_suffix startWith_postSpellings x _) h

lemma goesOn_minorsText (minors : List Numeral) {q : Char → Bool} (hdot : q '.' = true)
    (hs : GoesOn q s) : GoesOn q (minorsText minors ++ s) := by
  cases minors with
  | nil => exact hs
  | cons m minors => exact .cons hdot _

lemma isNoDigit_of_preText (r : Reading) : GoesOn isNoDigit r.preText :=
  r.goesOn_preText.mono fun c => isNoDigit_of_startsSuffix (by decide)

lemma readSegments_preText (r : Reading) (minors : List Numeral) :
    readSegments (minorsText minors ++ r.preText) =
      .ok (minors.map Numeral.value, r.preText) := by
  induction minors with
  | nil =>
    rw [minorsText, List.flatMap_nil, List.nil_append]
    unfold readSegments
    split
    · rename_i t h
      have htake : t.takeWhile Char.isDigit = [] :=
        takeWhile_append_of_goesOn (u := []) (by simp) (r.goesOn_of_preText t h)
      simp [htake]
    · rfl
  | cons m minors ih =>
    have hcons : minorsText (m :: minors) ++ r.preText =
        '.' :: (m.digits ++ (minorsText minors ++ r.preText)) := by
      simp [minorsText]
    have hstop : GoesOn isNoDigit (minorsText minors ++ r.preText) :=
      goesOn_minorsText minors (by decide) r.isNoDigit_of_preText
    rw [hcons, readSegments, takeWhile_append_of_goesOn m.isDigit hstop,
      dropWhile_append_of_goesOn m.isDigit hstop, ih]
    simp only [List.isEmpty_iff, m.digits_ne_nil, if_false, number?_digits_numeral]
    rfl

lemma readEpochAndMajor_text (r : Reading) :
    readEpochAndMajor (r.epoch.elim [] (fun m => m.digits ++ ['!']) ++ r.releaseText) =
      .ok ((r.epoch.elim 0 Numeral.value, r.major.value), minorsText r.minors ++ r.preText) := by
  have hdigit : GoesOn isNoDigit (minorsText r.minors ++ r.preText) :=
    goesOn_minorsText r.minors (by decide) r.isNoDigit_of_preText
  have hmajor : readNumber? r.releaseText =
      .ok (some r.major.value, minorsText r.minors ++ r.preText) :=
    readNumber?_append r.major hdigit
  cases r.epoch with
  -- a first number that no mark comes after is not an epoch
  | none =>
    have hmark : ∀ t, minorsText r.minors ++ r.preText ≠ '!' :: t := by
      intro t h
      have hno : GoesOn (· != '!') (minorsText r.minors ++ r.preText) :=
        goesOn_minorsText r.minors (by decide) (r.goesOn_preText.mono fun c hc => by
          rw [bne_iff_ne]
          rintro rfl
          cases hc)
      rw [h] at hno
      exact absurd (hno '!' rfl) (by decide)
    rw [Option.elim_none, List.nil_append, readEpochAndMajor, hmajor]
    generalize minorsText r.minors ++ r.preText = s at hmark
    dsimp only [bind, Except.bind]
    split
    · rename_i heq
      cases heq
    · rename_i heq
      cases heq
      exact absurd rfl (hmark _)
    · rename_i heq
      cases heq
      rfl
  | some m =>
    have hepoch : readNumber? (m.digits ++ '!' :: r.releaseText) =
        .ok (some m.value, '!' :: r.releaseText) := readNumber?_append m (.cons (by decide) _)
    rw [Option.elim_some, List.append_assoc, readEpochAndMajor]
    change readNumber? (m.digits ++ '!' :: r.releaseText) >>= _ = _
    rw [hepoch]
    change readNumber? r.releaseText >>= _ = _
    rw [hmajor]
    rfl

lemma skipV_numeral (m : Numeral) (t : List Char) : skipV (m.digits ++ t) = m.digits ++ t := by
  obtain ⟨d, ds, hdigits, hd⟩ := m.exists_digits_eq_cons
  rw [hdigits, List.cons_append, skipV]
  rintro r' ⟨⟩
  exact absurd hd (by decide)

lemma text_ne_nil (r : Reading) : r.text ≠ [] := by
  simp [text, releaseText, r.major.digits_ne_nil]

lemma skipV_text (r : Reading) :
    skipV r.text = r.epoch.elim [] (fun m => m.digits ++ ['!']) ++ r.releaseText := by
  rw [text]
  cases r.marked with
  | true => rfl
  | false =>
    rw [if_neg Bool.false_ne_true, List.nil_append]
    cases r.epoch with
    | none => exact skipV_numeral r.major _
    | some m =>
      rw [Option.elim_some, List.append_assoc]
      exact skipV_numeral m _

end Reading

/-! ### Whole versions -/

/-- A version is read part by part. -/
lemma ofLowered_eq_ok {v : Version} : ofLowered s = .ok v ↔ s ≠ [] ∧
    ∃ epoch major s₁ minors s₂ pre s₃ post s₄ dev s₅ label,
      readEpochAndMajor (skipV s) = .ok ((epoch, major), s₁) ∧
      readSegments s₁ = .ok (minors, s₂) ∧ readPre? s₂ = .ok (pre, s₃) ∧
      readPost? s₃ = .ok (post, s₄) ∧ readDev? s₄ = .ok (dev, s₅) ∧
      readLabel s₅ = .ok (label, []) ∧
      v = { epoch, release := major :: minors, pre, post, dev, label } := by
  constructor
  · intro h
    dsimp only [ofLowered] at h
    split at h
    · cases h
    · rename_i hne
      obtain ⟨⟨⟨epoch, major⟩, s₁⟩, h₁, h⟩ := bind_eq_ok.mp h
      obtain ⟨⟨minors, s₂⟩, h₂, h⟩ := bind_eq_ok.mp h
      obtain ⟨⟨pre, s₃⟩, h₃, h⟩ := bind_eq_ok.mp h
      obtain ⟨⟨post, s₄⟩, h₄, h⟩ := bind_eq_ok.mp h
      obtain ⟨⟨dev, s₅⟩, h₅, h⟩ := bind_eq_ok.mp h
      obtain ⟨⟨label, rest⟩, h₆, h⟩ := bind_eq_ok.mp h
      cases rest with
      | nil =>
        cases h
        exact ⟨by simpa using hne, epoch, major, s₁, minors, s₂, pre, s₃, post, s₄, dev, s₅, label,
          h₁, h₂, h₃, h₄, h₅, h₆, rfl⟩
      | cons c rest => cases h
  · rintro ⟨hne, epoch, major, s₁, minors, s₂, pre, s₃, post, s₄, dev, s₅, label, h₁, h₂, h₃, h₄,
      h₅, h₆, rfl⟩
    have hempty : s.isEmpty = false := by simpa using hne
    simp only [ofLowered, hempty, h₁]
    change readSegments s₁ >>= _ = _
    rw [h₂]
    change readPre? s₂ >>= _ = _
    rw [h₃]
    change readPost? s₃ >>= _ = _
    rw [h₄]
    change readDev? s₄ >>= _ = _
    rw [h₅]
    change readLabel s₅ >>= _ = _
    rw [h₆]
    rfl

/-- The text of an early reading is read as the version of the reading. -/
lemma Reading.ofLowered_text (r : Reading) (h : r.IsEarly) : ofLowered r.text = .ok r.version := by
  refine ofLowered_eq_ok.mpr ⟨r.text_ne_nil, _, _, _, _, _, _, _, _, _, _, _, _, ?_,
    r.readSegments_preText r.minors, readPre?_preText h.pre, readPost?_postText h.post,
    readDev?_devText h.dev, r.readLabel_labelText, rfl⟩
  rw [r.skipV_text]
  exact r.readEpochAndMajor_text

end ProjectScope.Version

import ProjectScope.Proofs.Version.Acceptance

/-!
# Readings of versions

What a reader takes is the text of its part of the grammar, spelled in one of the ways that the
grammar has, and the number of a suffix is taken where it can be. So a text is read as a version
exactly when the grammar has a reading of it, and the version is that of the early reading.
-/

namespace ProjectScope.Version

variable {s rest : List Char}

/-! ### Numbers -/

lemma exists_numeral_of_number? {u : List Char} {n : UInt64} (hne : u ≠ [])
    (hdigits : ∀ c ∈ u, c.isDigit = true) (h : Text.Numeral.number? u = some n) :
    ∃ m : Numeral, m.digits = u ∧ m.value = n := by
  by_cases hfits : Nat.ofDigitChars 10 u 0 < UInt64.size
  · rw [Text.Numeral.number?, dif_pos hfits] at h
    cases h
    exact ⟨⟨u, hne, hdigits, hfits⟩, rfl, rfl⟩
  · rw [Text.Numeral.number?, dif_neg hfits] at h
    cases h

/-- What the reader of numbers comes to: there is no digit, or it takes a number. -/
lemma readNumber?_cases {found : Option UInt64} (h : readNumber? s = .ok (found, rest)) :
    (found = none ∧ rest = s ∧ GoesOn isNoDigit s) ∨
      ∃ m : Numeral, found = some m.value ∧ s = m.digits ++ rest := by
  have hs : s.takeWhile Char.isDigit ++ s.dropWhile Char.isDigit = s :=
    List.takeWhile_append_dropWhile
  simp only [readNumber?] at h
  split_ifs at h with hempty
  · cases h
    refine .inl ⟨rfl, rfl, fun c hc => ?_⟩
    obtain ⟨t, rfl⟩ := List.head?_eq_some_iff.mp hc
    rw [List.isEmpty_iff, List.takeWhile_cons] at hempty
    split_ifs at hempty with hdigit
    simpa [isNoDigit] using hdigit
  · split at h
    · rename_i n hn
      cases h
      obtain ⟨m, hm, rfl⟩ := exists_numeral_of_number? (by simpa using hempty)
        (fun c => List.mem_takeWhile_imp) hn
      exact .inr ⟨m, rfl, by rw [hm, hs]⟩
    · cases h

/-! ### Suffixes -/

lemma exists_separator (s : List Char) :
    ∃ sep, s = separatorText sep ++ skipSeparator s := by
  cases s with
  | nil => exact ⟨none, rfl⟩
  | cons c s =>
    by_cases hc : isSeparator c = true
    · exact ⟨some ⟨c, hc⟩, by rw [skipSeparator_of_isSeparator hc]; rfl⟩
    · exact ⟨none, by rw [skipSeparator_of_goesOn (.cons (by simpa using hc) s)]; rfl⟩

/-- The number of a suffix is taken where there is one. -/
lemma exists_count {n : UInt64} (h : readSuffixNumber s = .ok (n, rest)) :
    ∃ x : Option Count, s = Count.text? x ++ rest ∧ Count.value? x = n ∧
      (x = none → NoCount rest) := by
  obtain ⟨⟨found, rest'⟩, hfound, h⟩ := bind_eq_ok.mp h
  cases h
  rcases skipSeparatorBeforeDigit_cases s with ⟨hskip, hcount⟩ | ⟨sep, d, t, hd, rfl, hskip⟩
  · rw [hskip] at hfound
    rcases readNumber?_cases hfound with ⟨rfl, rfl, hdigit⟩ | ⟨m, rfl, rfl⟩
    · exact ⟨none, rfl, rfl, fun _ => hcount hdigit⟩
    · exact ⟨some ⟨none, m⟩, rfl, rfl, by simp⟩
  · rw [hskip] at hfound
    rcases readNumber?_cases hfound with ⟨-, -, hdigit⟩ | ⟨m, rfl, ht⟩
    · exact absurd hdigit (not_goesOn_of_isDigit hd t)
    · exact ⟨some ⟨some sep, m⟩, by rw [ht]; rfl, rfl, by simp⟩

/-- What the reader of a suffix comes to: there is none of its words, or it takes a suffix. -/
lemma readSuffix?_cases {α : Type} {words : List (String × α)} {found : Option (α × UInt64)}
    (spellings : α → List String) (hwords : ∀ x ∈ words, x.1 ∈ spellings x.2)
    (h : readSuffix? words s = .ok (found, rest)) :
    (found = none ∧ rest = s) ∨ ∃ a, ∃ x : Suffix (spellings a), found = some (a, x.value) ∧
      s = x.text ++ rest ∧ x.IsEarly rest := by
  obtain ⟨sep, hs⟩ := exists_separator s
  unfold readSuffix? at h
  split at h
  · cases h
    exact .inl ⟨rfl, rfl⟩
  · rename_i a r hr
    obtain ⟨⟨n, rest'⟩, hn, h⟩ := bind_eq_ok.mp h
    cases h
    obtain ⟨count, rfl, rfl, hearly⟩ := exists_count hn
    obtain ⟨w, hw, hr⟩ := List.exists_of_findSome?_eq_some hr
    obtain ⟨u, hu, heq⟩ := Option.map_eq_some_iff.mp hr
    cases heq
    refine .inr ⟨w.2, ⟨sep, w.1, hwords w hw, count⟩, rfl, ?_, hearly⟩
    rw [hs, ← List.isPrefixOf?_eq_some_iff_append_eq.mp hu]
    simp [Suffix.text]

lemma exists_pre {pre : Option (Phase × UInt64)} (h : readPre? s = .ok (pre, rest)) :
    ∃ p : Option PreReading, s = p.elim [] (fun p => p.suffix.text) ++ rest ∧
      (p.map fun p => (p.phase, p.suffix.value)) = pre ∧ ∀ x ∈ p, x.suffix.IsEarly rest := by
  rcases readSuffix?_cases spellingsOf (by decide) h with
    ⟨rfl, rfl⟩ | ⟨phase, x, rfl, rfl, hearly⟩
  · exact ⟨none, rfl, rfl, by simp⟩
  · refine ⟨some ⟨phase, x⟩, rfl, rfl, ?_⟩
    rintro _ ⟨⟩
    exact hearly

lemma exists_dev {dev : Option UInt64} (h : readDev? s = .ok (dev, rest)) :
    ∃ x : Option (Suffix devSpellings), s = x.elim [] Suffix.text ++ rest ∧
      x.map Suffix.value = dev ∧ ∀ y ∈ x, y.IsEarly rest := by
  obtain ⟨⟨found, rest'⟩, hfound, h⟩ := bind_eq_ok.mp h
  cases h
  rcases readSuffix?_cases (fun _ => devSpellings) (by decide) hfound with
    ⟨rfl, rfl⟩ | ⟨-, x, rfl, rfl, hearly⟩
  · exact ⟨none, rfl, rfl, by simp⟩
  · refine ⟨some x, rfl, rfl, ?_⟩
    rintro _ ⟨⟩
    exact hearly

lemma exists_post {post : Option UInt64} (h : readPost? s = .ok (post, rest)) :
    ∃ p : Option PostReading, s = p.elim [] PostReading.text ++ rest ∧
      p.map PostReading.value = post ∧ ∀ x ∈ p, x.IsEarly rest := by
  have byWord {post} (h : (readSuffix? postWords s >>= fun x => .ok (x.1.map Prod.snd, x.2)) =
      .ok (post, rest)) : ∃ p : Option PostReading, s = p.elim [] PostReading.text ++ rest ∧
        p.map PostReading.value = post ∧ ∀ x ∈ p, x.IsEarly rest := by
    obtain ⟨⟨found, rest'⟩, hfound, h⟩ := bind_eq_ok.mp h
    cases h
    rcases readSuffix?_cases (fun _ => postSpellings) (by decide) hfound with
      ⟨rfl, rfl⟩ | ⟨-, x, rfl, rfl, hearly⟩
    · exact ⟨none, rfl, rfl, by simp⟩
    · refine ⟨some (.word x), rfl, rfl, ?_⟩
      rintro _ ⟨⟩
      exact hearly
  simp only [readPost?] at h
  split at h
  · obtain ⟨⟨n, rest'⟩, hn, h⟩ := bind_eq_ok.mp h
    rcases readNumber?_cases hn with ⟨rfl, -, -⟩ | ⟨m, rfl, rfl⟩
    · exact byWord h
    · cases h
      exact ⟨some (.hyphen m), rfl, rfl, by rintro _ ⟨⟩; trivial⟩
  · exact byWord h

/-! ### Releases and labels -/

lemma exists_minors {ns : List UInt64} (h : readSegments s = .ok (ns, rest)) :
    ∃ minors, s = Reading.minorsText minors ++ rest ∧ minors.map Numeral.value = ns := by
  fun_induction readSegments s generalizing ns with
  | case1 r =>
    cases h
    exact ⟨[], rfl, rfl⟩
  | case2 r =>
    rename_i hempty n hn ih
    obtain ⟨⟨ms, rest'⟩, hms, h⟩ := bind_eq_ok.mp h
    cases h
    obtain ⟨minors, hr, rfl⟩ := ih hms
    obtain ⟨m, hm, rfl⟩ := exists_numeral_of_number? (fun h => hempty (List.isEmpty_iff.mpr h))
      (fun c => List.mem_takeWhile_imp) hn
    have hm : m.digits = r.takeWhile Char.isDigit := hm
    refine ⟨m :: minors, ?_, rfl⟩
    calc '.' :: r = '.' :: (r.takeWhile Char.isDigit ++ r.dropWhile Char.isDigit) := by
          rw [List.takeWhile_append_dropWhile]
      _ = '.' :: (m.digits ++ (Reading.minorsText minors ++ rest)) := by rw [hr, hm]
      _ = Reading.minorsText (m :: minors) ++ rest := by simp [Reading.minorsText]
  | case3 r => cases h
  | case4 s hs =>
    cases h
    exact ⟨[], rfl, rfl⟩

lemma exists_segment (hne : s.takeWhile isLabelChar ≠ []) :
    ∃ x : Segment, s = x.chars ++ s.dropWhile isLabelChar ∧
      labelPartOf (s.takeWhile isLabelChar) = x.part := by
  let x : Segment := ⟨s.takeWhile isLabelChar, hne, fun c => List.mem_takeWhile_imp⟩
  exact ⟨x, List.takeWhile_append_dropWhile.symm, labelPartOf_chars x⟩

lemma exists_labelParts {parts : List LocalPart} (h : readLabelParts s = .ok (parts, [])) :
    ∃ x : LabelReading, s = x.text ∧ x.parts = parts := by
  fun_induction readLabelParts s generalizing parts with
  | case1 s => cases h
  | case2 s =>
    rename_i hempty c r hr hc ih
    obtain ⟨⟨ps, rest'⟩, hps, h⟩ := bind_eq_ok.mp h
    cases h
    obtain ⟨⟨first, others⟩, rfl, rfl⟩ := ih hps
    obtain ⟨x, hx, hpart⟩ := exists_segment fun h => hempty (List.isEmpty_iff.mpr h)
    refine ⟨⟨x, (⟨c, hc⟩, first) :: others⟩, ?_, ?_⟩
    · rw [hx, hr]
      simp [LabelReading.text, LabelReading.othersText]
    · rw [hpart]
      rfl
  | case3 s => cases h
  | case4 s =>
    rename_i hempty hr
    cases h
    obtain ⟨x, hx, hpart⟩ := exists_segment fun h => hempty (List.isEmpty_iff.mpr h)
    refine ⟨⟨x, []⟩, ?_, ?_⟩
    · rw [hx, hr]
      rfl
    · rw [hpart]
      rfl

lemma exists_label {label : List LocalPart} (h : readLabel s = .ok (label, [])) :
    ∃ x : Option LabelReading, s = x.elim [] (fun x => '+' :: x.text) ∧
      x.elim [] LabelReading.parts = label := by
  unfold readLabel at h
  split at h
  · obtain ⟨x, rfl, rfl⟩ := exists_labelParts h
    exact ⟨some x, rfl, rfl⟩
  · cases h
    exact ⟨none, rfl, rfl⟩

lemma exists_epochAndMajor {numbers : UInt64 × UInt64}
    (h : readEpochAndMajor s = .ok (numbers, rest)) : ∃ (epoch : Option Numeral) (major : Numeral),
      s = epoch.elim [] (fun m => m.digits ++ ['!']) ++ (major.digits ++ rest) ∧
        (epoch.elim 0 Numeral.value, major.value) = numbers := by
  obtain ⟨⟨found, r⟩, hfound, hnext⟩ := bind_eq_ok.mp h
  rcases readNumber?_cases hfound with ⟨rfl, -, -⟩ | ⟨m, rfl, rfl⟩
  · cases hnext
  split at hnext
  · cases hnext
  · rename_i heq
    cases heq
    obtain ⟨⟨found', r'⟩, hfound', hlast⟩ := bind_eq_ok.mp hnext
    rcases readNumber?_cases hfound' with ⟨rfl, -, -⟩ | ⟨major, rfl, rfl⟩
    · cases hlast
    · cases hlast
      exact ⟨some m, major, by simp, rfl⟩
  · rename_i heq
    cases heq
    cases hnext
    exact ⟨none, m, rfl, rfl⟩

lemma exists_marked (s : List Char) :
    ∃ marked : Bool, s = (if marked then ['v'] else []) ++ skipV s := by
  unfold skipV
  split
  · exact ⟨true, rfl⟩
  · exact ⟨false, rfl⟩

/-! ### Whole versions -/

/-- A text that is read as a version has an early reading, which stands for the version. -/
lemma exists_reading {v : Version} (h : ofLowered s = .ok v) :
    ∃ r : Reading, r.text = s ∧ r.IsEarly ∧ r.version = v := by
  obtain ⟨-, epoch, major, s₁, minors, s₂, pre, s₃, post, s₄, dev, s₅, label, h₁, h₂, h₃, h₄, h₅,
    h₆, rfl⟩ := ofLowered_eq_ok.mp h
  obtain ⟨marked, hv⟩ := exists_marked s
  obtain ⟨epoch', major', hepoch, hnumbers⟩ := exists_epochAndMajor h₁
  obtain ⟨minors', rfl, rfl⟩ := exists_minors h₂
  obtain ⟨pre', rfl, rfl, hpre⟩ := exists_pre h₃
  obtain ⟨post', rfl, rfl, hpost⟩ := exists_post h₄
  obtain ⟨dev', rfl, rfl, hdev⟩ := exists_dev h₅
  obtain ⟨label', rfl, rfl⟩ := exists_label h₆
  cases hnumbers
  refine ⟨⟨marked, epoch', major', minors', pre', post', dev', label'⟩, ?_, ⟨hpre, hpost, hdev⟩,
    rfl⟩
  rw [hv, hepoch]
  rfl

namespace Reading

/-- Only a pre-release can leave a number to what comes after it. -/
lemma isEarly_of_pre {r : Reading} (h : ∀ p ∈ r.pre, p.suffix.IsEarly r.postText) : r.IsEarly := by
  refine ⟨h, fun p _ => ?_, fun x _ _ => r.noCount_labelText⟩
  cases p with
  | hyphen m => trivial
  | word x => exact fun _ => r.noCount_devText

/-- The number of a post-release with a hyphen may be that of the pre-release as well. -/
def takeEarly (r : Reading) (p : PreReading) (m : Numeral) : Reading :=
  { r with
    pre := some ⟨p.phase, { p.suffix with count := some ⟨some ⟨'-', by decide⟩, m⟩ }⟩
    post := none }

/-- Each text with a reading has an early one. -/
lemma exists_isEarly (r : Reading) : ∃ r' : Reading, r'.text = r.text ∧ r'.IsEarly := by
  by_cases h : ∃ p m, r.pre = some p ∧ p.suffix.count = none ∧ r.post = some (.hyphen m)
  -- the hyphen of the post-release is a separator before a number as well
  · obtain ⟨p, m, hpre, hcount, hpost⟩ := h
    refine ⟨r.takeEarly p m, ?_, isEarly_of_pre ?_⟩
    · have htext : (r.takeEarly p m).preText = r.preText := by
        simp [takeEarly, preText, postText, devText, labelText, hpre, hpost, Suffix.text, hcount,
          Count.text?, Count.text, separatorText, PostReading.text]
      rw [text, text, releaseText, releaseText, htext]
      rfl
    · rintro _ ⟨⟩ hnone
      cases hnone
  -- every other part that may come next starts with a word or a plus sign
  · refine ⟨r, rfl, isEarly_of_pre fun p hp hcount => ?_⟩
    rw [postText]
    cases hpost : r.post with
    | none => exact r.noCount_devText
    | some q =>
      cases q with
      | hyphen m => exact absurd ⟨p, m, hp, hcount, hpost⟩ h
      | word x => exact noCount_suffix startWith_postSpellings x _

end Reading

lemma ofLowered_iff_reading {v : Version} :
    ofLowered s = .ok v ↔ ∃ r : Reading, r.text = s ∧ r.IsEarly ∧ r.version = v := by
  refine ⟨exists_reading, ?_⟩
  rintro ⟨r, rfl, hearly, rfl⟩
  exact r.ofLowered_text hearly

/-! ### Main statement -/

/-- A text is read as a version exactly when the grammar has a reading of it, trimmed and in lower
case, and the version is what the early reading stands for. Every other text is refused as an
invalid version. -/
theorem parse_iff_reading (s : String) :
    ((∃ v, parse s = .ok v) ↔ ∃ r : Reading, r.text = Text.lower (Text.trim s.toList)) ∧
      (∀ v, parse s = .ok v ↔
        ∃ r : Reading, r.text = Text.lower (Text.trim s.toList) ∧ r.IsEarly ∧ r.version = v) ∧
      ∀ e, parse s = .error e → ∃ reason, e = .invalidVersion s reason := by
  have hparse (v : Version) : parse s = .ok v ↔
      ∃ r : Reading, r.text = Text.lower (Text.trim s.toList) ∧ r.IsEarly ∧ r.version = v := by
    rw [parse, mapError_eq_ok, ofText, ofLowered_iff_reading]
  refine ⟨⟨?_, ?_⟩, hparse, ?_⟩
  · rintro ⟨v, hv⟩
    obtain ⟨r, hr, -⟩ := (hparse v).mp hv
    exact ⟨r, hr⟩
  · rintro ⟨r, hr⟩
    obtain ⟨r', hr', hearly⟩ := r.exists_isEarly
    exact ⟨r'.version, (hparse _).mpr ⟨r', hr'.trans hr, hearly, rfl⟩⟩
  · intro e he
    rw [parse] at he
    cases hread : ofText s with
    | ok v =>
      rw [hread] at he
      cases he
    | error fault =>
      rw [hread] at he
      cases he
      exact ⟨fault.message, rfl⟩

/-- A number after a hyphen belongs to the pre-release, if that has none yet. -/
example : ofLowered "1.0a-1-2".toList =
    .ok { release := [1, 0], pre := some (.alpha, 1), post := some 2 } := by
  decide +kernel

end ProjectScope.Version

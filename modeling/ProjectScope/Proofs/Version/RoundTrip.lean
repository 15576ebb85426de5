import ProjectScope.Proofs.Version.Reading

/-!
# Printed versions are read back

A version that has been read, or made from release segments, has one canonical reading: the one
whose text is printed, with the shortest words, dots for separators and numbers without leading
zeros. There every suffix carries its number, so the reading is early, and what is printed is read
as the version again.
-/

namespace ProjectScope.Version

open Text.Numeral (digits)

variable {v : Version}

/-! ### Parts as they are printed -/

/-- The dot as a separator. -/
def dot : Separator := ⟨'.', by decide⟩

/-- A suffix as it is printed: with its number, and nothing between the word and the number. -/
def Suffix.printed {spellings : List String} (separator : Option Separator) (word : String)
    (word_mem : word ∈ spellings) (n : UInt64) : Suffix spellings :=
  ⟨separator, word, word_mem, some ⟨none, .ofNumber n⟩⟩

section

variable {spellings : List String} {separator : Option Separator} {word : String}
  {word_mem : word ∈ spellings} {n : UInt64}

@[simp] lemma Suffix.text_printed : (printed separator word word_mem n).text =
    separatorText separator ++ (word.toList ++ digits n) := rfl

@[simp] lemma Suffix.value_printed : (printed separator word word_mem n).value = n :=
  Numeral.value_ofNumber n

end

/-- A number in a local label, as it is printed. -/
def Segment.ofNumber (n : UInt64) : Segment where
  chars := digits n
  chars_ne_nil := (Numeral.ofNumber n).digits_ne_nil
  isLabelChar c hc := by
    simp [Version.isLabelChar, (Numeral.ofNumber n).isDigit c hc]

lemma Segment.part_ofNumber (n : UInt64) : (ofNumber n).part = .number n := by
  have hdigits : (digits n).all Char.isDigit = true :=
    List.all_eq_true.mpr (Numeral.ofNumber n).isDigit
  rw [part, dif_pos ⟨hdigits, (Numeral.ofNumber n).fits⟩]
  exact congrArg LocalPart.number (Numeral.value_ofNumber n)

/-! ### Printable versions -/

/-- Whether a part of a local label is what its own spelling stands for. -/
def IsPlain (p : LocalPart) : Prop := ∃ x : Segment, x.chars = p.spelling ∧ x.part = p

/-- Whether a version has release segments, and a local label of plain parts. -/
structure IsPrintable (v : Version) : Prop where
  release : v.release ≠ []
  label : ∀ p ∈ v.label, IsPlain p

/-- What a run of letters and digits stands for is plain, be it printed with fewer zeros. -/
lemma isPlain_part (x : Segment) : IsPlain x.part := by
  by_cases h : x.chars.all Char.isDigit = true ∧ Nat.ofDigitChars 10 x.chars 0 < UInt64.size
  · rw [Segment.part, dif_pos h]
    exact ⟨.ofNumber _, rfl, Segment.part_ofNumber _⟩
  · have hpart : x.part = .text (String.ofList x.chars) := by rw [Segment.part, dif_neg h]
    refine ⟨x, ?_, rfl⟩
    rw [hpart]
    exact String.toList_ofList.symm

lemma isPrintable_version (r : Reading) : r.version.IsPrintable where
  release := List.cons_ne_nil _ _
  label p hp := by
    simp only [Reading.version] at hp
    cases hlabel : r.label with
    | none =>
      rw [hlabel] at hp
      cases hp
    | some x =>
      rw [hlabel, Option.elim_some, LabelReading.parts, List.mem_cons, List.mem_map] at hp
      rcases hp with rfl | ⟨other, -, rfl⟩
      · exact isPlain_part _
      · exact isPlain_part _

/-- The versions that come about: those that are read, those made from release segments, and what
is left of others without their local labels. -/
inductive Arises : Version → Prop
  | read {s : String} {v : Version} (h : parse s = .ok v) : Arises v
  | release (segments : List UInt64) : Arises (ofRelease segments)
  | withoutLocal {v : Version} (h : Arises v) : Arises v.withoutLocal

lemma Arises.of_ofText {s : String} (h : ofText s = .ok v) : v.Arises := by
  refine .read (s := s) ?_
  rw [parse, mapError_eq_ok]
  exact h

lemma Arises.isPrintable (h : v.Arises) : v.IsPrintable := by
  induction h with
  | read h =>
    rw [parse, mapError_eq_ok] at h
    obtain ⟨r, -, -, rfl⟩ := exists_reading h
    exact isPrintable_version r
  | release segments => exact ⟨release_ofRelease_ne_nil segments, by simp [ofRelease]⟩
  | withoutLocal _ ih => exact ⟨ih.release, by simp⟩

/-! ### The canonical reading -/

lemma exists_printed_others {parts : List LocalPart} (h : ∀ p ∈ parts, IsPlain p) :
    ∃ others, LabelReading.othersText others = (parts.map LocalPart.spelling).flatMap ('.' :: ·) ∧
      (others.map fun other => other.2.part) = parts := by
  induction parts with
  | nil => exact ⟨[], rfl, rfl⟩
  | cons p parts ih =>
    obtain ⟨⟨x, hchars, hpart⟩, hparts⟩ := List.forall_mem_cons.mp h
    obtain ⟨others, htext, hothers⟩ := ih hparts
    refine ⟨(dot, x) :: others, ?_, by rw [List.map_cons, hpart, hothers]⟩
    rw [LabelReading.othersText] at htext ⊢
    rw [List.map_cons, List.flatMap_cons, List.flatMap_cons, htext, hchars]
    rfl

lemma exists_printed_label {parts : List LocalPart} (h : ∀ p ∈ parts, IsPlain p) :
    ∃ x : Option LabelReading, x.elim [] (fun x => '+' :: x.text) = labelPart parts ∧
      x.elim [] LabelReading.parts = parts := by
  cases parts with
  | nil => exact ⟨none, rfl, rfl⟩
  | cons p parts =>
    obtain ⟨⟨x, hchars, hpart⟩, hparts⟩ := List.forall_mem_cons.mp h
    obtain ⟨others, htext, hothers⟩ := exists_printed_others hparts
    refine ⟨some ⟨x, others⟩, ?_, by simp [LabelReading.parts, hpart, hothers]⟩
    rw [labelPart, List.map_cons, intercalate_cons, Option.elim_some, LabelReading.text, htext,
      hchars]
    exact List.cons_ne_nil p parts

/-- A version as it is printed, given its release segments and how its local label is read. -/
def Reading.printed (v : Version) (n : UInt64) (ns : List UInt64) (label : Option LabelReading) :
    Reading where
  marked := false
  epoch := if v.epoch = 0 then none else some (.ofNumber v.epoch)
  major := .ofNumber n
  minors := ns.map .ofNumber
  pre := v.pre.map fun p =>
    ⟨p.1, .printed none (String.ofList p.1.tag) (by cases p.1 <;> decide) p.2⟩
  post := v.post.map fun n => .word (.printed (some dot) "post" (by decide) n)
  dev := v.dev.map fun n => .printed (some dot) "dev" (by decide) n
  label := label

section

variable {n : UInt64} {ns : List UInt64} {label : Option LabelReading}

lemma Reading.text_printed (hrelease : v.release = n :: ns)
    (hlabel : label.elim [] (fun x => '+' :: x.text) = labelPart v.label) :
    (printed v n ns label).text = v.render := by
  have hepoch : (printed v n ns label).epoch.elim [] (fun m => m.digits ++ ['!']) =
      epochPart v.epoch := by
    rw [printed, epochPart]
    split_ifs <;> rfl
  have hpre : (printed v n ns label).pre.elim [] (fun p => p.suffix.text) = prePart v.pre := by
    cases hp : v.pre <;> simp [printed, prePart, separatorText, hp]
  have hpost : (printed v n ns label).post.elim [] PostReading.text = postPart v.post := by
    cases hp : v.post <;> simp [printed, postPart, PostReading.text, separatorText, dot, hp]
  have hdev : (printed v n ns label).dev.elim [] Suffix.text = devPart v.dev := by
    cases hp : v.dev <;> simp [printed, devPart, separatorText, dot, hp]
  have hrest : (printed v n ns label).label.elim [] (fun x => '+' :: x.text) =
      labelPart v.label := hlabel
  rw [text, releaseText, preText, postText, devText, labelText, hepoch, hpre, hpost, hdev, hrest,
    render, hrelease, dotted_cons]
  simp [printed, Numeral.ofNumber]

/-- Every suffix is printed with its number. -/
lemma Reading.isEarly_printed : (printed v n ns label).IsEarly := by
  refine isEarly_of_pre fun p hp hcount => ?_
  obtain ⟨q, -, rfl⟩ := Option.map_eq_some_iff.mp hp
  cases hcount

lemma Reading.version_printed (hrelease : v.release = n :: ns)
    (hlabel : label.elim [] LabelReading.parts = v.label) : (printed v n ns label).version = v := by
  have hepoch : (printed v n ns label).epoch.elim 0 Numeral.value = v.epoch := by
    rw [printed]
    split_ifs with h
    · exact h.symm
    · exact Numeral.value_ofNumber v.epoch
  obtain ⟨epoch, release, pre, post, dev, parts⟩ := v
  cases hrelease
  rw [version, hepoch]
  simp [printed, PostReading.value, Function.comp_def, Numeral.value_ofNumber, hlabel]

end

/-- What is printed of a version is the text of an early reading of it. -/
lemma IsPrintable.exists_reading (h : v.IsPrintable) :
    ∃ r : Reading, r.text = v.render ∧ r.IsEarly ∧ r.version = v := by
  obtain ⟨n, ns, hrelease⟩ := List.exists_cons_of_ne_nil h.release
  obtain ⟨label, htext, hparts⟩ := exists_printed_label h.label
  exact ⟨.printed v n ns label, Reading.text_printed hrelease htext, Reading.isEarly_printed,
    Reading.version_printed hrelease hparts⟩

/-! ### Trimming and lowering -/

/-- The characters of the grammar are neither capitals nor blanks. -/
lemma toNat_of_isGrammarChar {c : Char} (h : isGrammarChar c = true) :
    (33 ≤ c.toNat ∧ c.toNat < 65) ∨ (91 ≤ c.toNat ∧ c.toNat ≤ 122) := by
  simp only [isGrammarChar, isLabelChar, isSeparator, Bool.or_eq_true, Bool.and_eq_true,
    decide_eq_true_eq, beq_iff_eq] at h
  rcases h with (((⟨hlow, hhigh⟩ | hdigit) | ((rfl | rfl) | rfl)) | rfl) | rfl
  · have hlow : 97 ≤ c.toNat := hlow
    have hhigh : c.toNat ≤ 122 := hhigh
    omega
  · rw [Char.isDigit_iff_toNat] at hdigit
    have hlow : 48 ≤ c.toNat := hdigit.1
    have hhigh : c.toNat ≤ 57 := hdigit.2
    omega
  all_goals decide

lemma lower_of_inGrammar {s : List Char} (h : InGrammar s) : Text.lower s = s := by
  have low : ∀ c ∈ s, c.toLower = c := by
    intro c hc
    have := toNat_of_isGrammarChar (h c hc)
    rw [← Char.toNat_inj, Text.toNat_toLower, if_neg (by omega)]
  rw [Text.lower, List.map_congr_left low, List.map_id']

lemma not_isBlank_of_isGrammarChar_toLower {c : Char} (h : isGrammarChar c.toLower = true) :
    Text.isBlank c = false := by
  have := toNat_of_isGrammarChar h
  rw [Text.toNat_toLower] at this
  simp only [Text.isBlank, Bool.or_eq_false_iff, Bool.and_eq_false_iff, decide_eq_false_iff_not,
    beq_eq_false_iff_ne]
  split_ifs at this <;> omega

/-! ### Main statement -/

lemma IsPrintable.inGrammar_render (h : v.IsPrintable) : InGrammar v.render := by
  obtain ⟨r, hr, -⟩ := h.exists_reading
  rw [← hr]
  exact inGrammar_text r

/-- Whatever is spelled like a printed version, up to the case of letters, is read as it. -/
lemma IsPrintable.ofText_of_lower_eq {s : String} (h : v.IsPrintable)
    (hs : Text.lower v.render = Text.lower s.toList) : ofText s = .ok v := by
  obtain ⟨r, htext, hearly, hversion⟩ := h.exists_reading
  rw [lower_of_inGrammar h.inGrammar_render] at hs
  have bare : ∀ c ∈ s.toList, Text.isBlank c = false := by
    intro c hc
    apply not_isBlank_of_isGrammarChar_toLower
    apply h.inGrammar_render
    rw [hs]
    exact List.mem_map_of_mem hc
  rw [ofText, Text.trim_eq_self bare, ← hs, ← htext, r.ofLowered_text hearly, hversion]

lemma Arises.parse_of_lower_eq {s : String} (h : v.Arises)
    (hs : Text.lower v.render = Text.lower s.toList) : parse s = .ok v := by
  rw [parse, mapError_eq_ok]
  exact h.isPrintable.ofText_of_lower_eq hs

lemma Arises.parse_toText (h : v.Arises) : parse v.toText = .ok v :=
  h.parse_of_lower_eq (by rw [toText, String.toList_ofList])

/-- What is printable comes about: it is read from what is printed of it. -/
lemma IsPrintable.arises (h : v.IsPrintable) : v.Arises :=
  .of_ofText (h.ofText_of_lower_eq (s := v.toText) (by rw [toText, String.toList_ofList]))

/-- Every version that comes about is read back from what is printed of it, with all its parts. So
the printed text is a canonical form: reading and printing it once more changes nothing, and no two
versions have it in common. -/
theorem parse_toText_of_arises :
    (∀ v : Version, v.Arises → parse v.toText = .ok v) ∧
      (∀ (s : String) (v : Version), parse s = .ok v →
        (parse v.toText).map toText = .ok v.toText) ∧
      ∀ v w : Version, v.Arises → w.Arises → v.toText = w.toText → v = w := by
  refine ⟨fun v h => h.parse_toText, fun s v h => ?_, fun v w hv hw h => ?_⟩
  · rw [(Arises.read h).parse_toText]
    rfl
  · have hread := hv.parse_toText
    rw [h, hw.parse_toText] at hread
    exact (Except.ok.inj hread).symm

/-- Another spelling, with a run of digits in the local label that is too long for a number, is the
version of the canonical text. -/
theorem parse_toText_of_arises_preview :
    ∃ v w : Version, parse " V1!03.8.0-Preview_2.REV.dev07+Ubuntu-01_18446744073709551616" = .ok v ∧
      parse "1!3.8.0rc2.post0.dev7+ubuntu.1.18446744073709551616" = .ok w ∧ v.toText = w.toText ∧
      parse v.toText = .ok v ∧ (parse v.toText).map toText = .ok v.toText ∧ v = w := by
  have spelled : parse " V1!03.8.0-Preview_2.REV.dev07+Ubuntu-01_18446744073709551616" = .ok
      { epoch := 1, release := [3, 8, 0], pre := some (.candidate, 2), post := some 0, dev := some 7
        label := [.text "ubuntu", .number 1, .text "18446744073709551616"] } := by decide +kernel
  have canonical : parse "1!3.8.0rc2.post0.dev7+ubuntu.1.18446744073709551616" = .ok
      { epoch := 1, release := [3, 8, 0], pre := some (.candidate, 2), post := some 0, dev := some 7
        label := [.text "ubuntu", .number 1, .text "18446744073709551616"] } := by decide +kernel
  obtain ⟨back, again, unique⟩ := parse_toText_of_arises
  exact ⟨_, _, spelled, canonical, rfl, back _ (.read spelled), again _ _ spelled,
    unique _ _ (.read spelled) (.read canonical) rfl⟩

end ProjectScope.Version

import ProjectScope.Proofs.Version.Cursor
import ProjectScope.Proofs.Version.Unambiguous

/-!
# Versions are read within their bytes

Each part of a version has a scan that moves over its bytes. The scans follow the readers of the
grammar one by one, with the same lookahead and the same marks to go back to. So to scan the bytes
of a version is to read it, and nothing but a fault of the text ever stops the scan.
-/

namespace ProjectScope.Version

namespace Scan

variable {α : Type} {text s : List Char}

/-! ### ASCII -/

lemma isAscii_of_isDigit {c : Char} (h : c.isDigit = true) : c.isAscii = true := by
  have hdigit := Char.isDigit_iff_toNat.mp h
  have hlast : '9'.toNat = 57 := rfl
  rw [Text.isAscii_iff]
  omega

lemma isAscii_of_isSeparator {c : Char} (h : isSeparator c = true) : c.isAscii = true := by
  simp only [isSeparator, Bool.or_eq_true, beq_iff_eq] at h
  rcases h with (rfl | rfl) | rfl <;> rfl

lemma isAscii_of_isLabelChar {c : Char} (h : isLabelChar c = true) : c.isAscii = true := by
  simp only [isLabelChar, Bool.or_eq_true, Bool.and_eq_true, decide_eq_true_eq] at h
  rcases h with ⟨-, h⟩ | h
  · have hlast : c.toNat ≤ 122 := h
    rw [Text.isAscii_iff]
    omega
  · exact isAscii_of_isDigit h

lemma all_isAscii_phaseWords : ∀ x ∈ phaseWords, x.1.toList.all Char.isAscii = true := by decide

lemma all_isAscii_postWords : ∀ x ∈ postWords, x.1.toList.all Char.isAscii = true := by decide

lemma all_isAscii_devWords : ∀ x ∈ devWords, x.1.toList.all Char.isAscii = true := by decide

lemma follows_eat?_of_isAscii {c : Char} (hc : c.isAscii = true) :
    Follows text (eat? (· == c)) (readChar? (· == c)) :=
  follows_eat? fun d hd => by rwa [beq_iff_eq.mp hd]

/-! ### Numbers -/

/-- A number, if one stands here. -/
def number? : Scan (Option UInt64) := do
  let digits ← run Char.isDigit
  if digits.isEmpty then return none
  else match Text.Numeral.number? digits with
    | some n => return some n
    | none => throw (.fault (.tooLarge (String.ofList digits)))

lemma readNumber?_eq_bind (s : List Char) : readNumber? s = (do
      let digits ← readRun Char.isDigit
      if digits.isEmpty then return none
      else match Text.Numeral.number? digits with
        | some n => return some n
        | none => throw (.tooLarge (String.ofList digits)) : Reader (Option UInt64)) s := by
  rw [readRun_bind]
  dsimp only [readNumber?]
  split_ifs with hempty
  · rw [dropWhile_of_takeWhile_isEmpty hempty]
    rfl
  · cases Text.Numeral.number? (s.takeWhile Char.isDigit) <;> rfl

lemma follows_number? : Follows text number? readNumber? := by
  refine Follows.congr ?_ readNumber?_eq_bind
  refine (follows_run fun _ => isAscii_of_isDigit).bind fun digits => ?_
  split_ifs
  · exact follows_pure none
  · cases Text.Numeral.number? digits with
    | some n => exact follows_pure (some n)
    | none => exact follows_fault _

/-- A number that has to stand here. -/
def number (missing : VersionFault) : Scan UInt64 := do
  match ← number? with
  | some n => return n
  | none => throw (.fault missing)

/-- Take a number that has to stand here. -/
def readNumber (missing : VersionFault) : Reader UInt64 := do
  match ← readNumber? with
  | some n => return n
  | none => throw missing

lemma follows_number (missing : VersionFault) :
    Follows text (number missing) (readNumber missing) := by
  refine follows_number?.bind fun n => ?_
  cases n with
  | some n => exact follows_pure n
  | none => exact follows_fault missing

/-- A number after some character. -/
def numberAfter? (c : Char) : Scan (Option UInt64) := backtrack do
  match ← eat? (· == c) with
  | some _ => number?
  | none => return none

/-- Take a number after some character. -/
def readNumberAfter? (c : Char) : Reader (Option UInt64) := backtracking do
  match ← readChar? (· == c) with
  | some _ => readNumber?
  | none => return none

lemma readNumberAfter?_cons (c : Char) (r : List Char) :
    readNumberAfter? c (c :: r) =
      readNumber? r >>= fun x => .ok (x.1, if x.1.isSome then x.2 else c :: r) := by
  rw [readNumberAfter?, backtracking, read_bind_of_ok (readChar?_self c r)]

lemma readNumberAfter?_of_ne {c : Char} (h : ∀ r, s ≠ c :: r) :
    readNumberAfter? c s = .ok (none, s) := by
  rw [readNumberAfter?, backtracking, read_bind_of_ok (readChar?_of_ne h)]
  rfl

lemma follows_numberAfter? {c : Char} (hc : c.isAscii = true) :
    Follows text (numberAfter? c) (readNumberAfter? c) := by
  refine follows_backtrack ((follows_eat?_of_isAscii hc).bind fun found => ?_)
  cases found with
  | some d => exact follows_number?
  | none => exact follows_pure none

/-! ### Suffixes -/

/-- The first of the words that stands here, by its meaning. -/
def eatWords? : List (String × α) → Scan (Option α)
  | [] => return none
  | (word, meaning) :: words => do
    if ← eatWord word then return some meaning
    else eatWords? words

/-- Take the first of the words that the text starts with. -/
def readWords? (words : List (String × α)) : Reader (Option α) := fun s =>
  match word? words s with
  | some (meaning, r) => .ok (some meaning, r)
  | none => .ok (none, s)

lemma readWords?_cons_eq_bind (word : String) (meaning : α) (words : List (String × α))
    (s : List Char) : readWords? ((word, meaning) :: words) s = (do
      if ← readWord word then return some meaning
      else readWords? words : Reader (Option α)) s := by
  rw [read_bind, readWords?, readWord, word?, List.findSome?_cons]
  dsimp only
  cases word.toList.isPrefixOf? s <;> rfl

lemma follows_eatWords? {words : List (String × α)}
    (hwords : ∀ x ∈ words, x.1.toList.all Char.isAscii = true) :
    Follows text (eatWords? words) (readWords? words) := by
  induction words with
  | nil => exact follows_pure none
  | cons x words ih =>
    obtain ⟨word, meaning⟩ := x
    obtain ⟨hword, hwords⟩ := List.forall_mem_cons.mp hwords
    refine Follows.congr ?_ (readWords?_cons_eq_bind word meaning words)
    refine (follows_eatWord (List.all_eq_true.mp hword)).bind fun found => ?_
    cases found with
    | true => exact follows_pure (some meaning)
    | false => exact ih hwords

/-- Move over a separator that a digit comes after. -/
def eatSeparatorBeforeDigit : Scan Unit := do
  let pos ← get
  let first ← charAt? pos
  let second ← charAt? (pos + 1)
  if first.any isSeparator && second.any Char.isDigit then advance 1

/-- Take a separator that a digit comes after. -/
def readSeparatorBeforeDigit : Reader Unit := fun s => .ok ((), skipSeparatorBeforeDigit s)

lemma follows_eatSeparatorBeforeDigit :
    Follows text eatSeparatorBeforeDigit readSeparatorBeforeDigit := by
  intro pos s hs
  unfold eatSeparatorBeforeDigit readSeparatorBeforeDigit
  rw [run_get_bind, run_charAt?_bind, run_charAt?_bind,
    hs.any_getElem? fun _ => isAscii_of_isSeparator]
  cases s with
  | nil => exact .ok hs
  | cons c r =>
    rw [List.head?_cons, Option.any_some]
    cases hc : isSeparator c with
    | false =>
      have hskip : skipSeparatorBeforeDigit (c :: r) = c :: r := by
        cases r <;> simp [skipSeparatorBeforeDigit, hc]
      rw [hskip]
      exact .ok hs
    | true =>
      have hnext : Stands text (pos + 1) r := hs.next (isAscii_of_isSeparator hc)
      rw [hnext.any_getElem? fun _ => isAscii_of_isDigit, Bool.true_and]
      cases r with
      | nil => exact .ok hs
      | cons d r =>
        rw [List.head?_cons, Option.any_some, skipSeparatorBeforeDigit.eq_def]
        dsimp only
        rw [hc, Bool.true_and]
        split_ifs
        · rw [hnext.advance_eq]
          exact .ok hnext
        · exact .ok hs

/-- The number of a suffix; a missing one is zero. -/
def suffixNumber : Scan UInt64 := do
  eatSeparatorBeforeDigit
  return (← number?).getD 0

lemma follows_suffixNumber : Follows text suffixNumber readSuffixNumber :=
  follows_eatSeparatorBeforeDigit.bind fun _ => follows_number?.map fun n => n.getD 0

/-- A suffix that starts with one of the given words. -/
def suffix? (words : List (String × α)) : Scan (Option (α × UInt64)) := backtrack do
  let _ ← eat? isSeparator
  match ← eatWords? words with
  | some meaning => return some (meaning, ← suffixNumber)
  | none => return none

lemma exists_readChar?_isSeparator (s : List Char) :
    ∃ c, readChar? isSeparator s = .ok (c, skipSeparator s) := by
  cases s with
  | nil => exact ⟨none, rfl⟩
  | cons c r =>
    rw [readChar?, skipSeparator]
    split_ifs
    · exact ⟨some c, rfl⟩
    · exact ⟨none, rfl⟩

lemma readSuffix?_eq_bind (words : List (String × α)) (s : List Char) :
    readSuffix? words s = backtracking (do
      let _ ← readChar? isSeparator
      match ← readWords? words with
      | some meaning => return some (meaning, ← readSuffixNumber)
      | none => return none) s := by
  obtain ⟨c, hc⟩ := exists_readChar?_isSeparator s
  rw [readSuffix?, backtracking, read_bind_of_ok hc, read_bind, readWords?]
  cases word? words (skipSeparator s) with
  | none => rfl
  | some x =>
    obtain ⟨meaning, r⟩ := x
    change (readSuffixNumber r >>= _) = ((readSuffixNumber r >>= _) >>= _)
    cases readSuffixNumber r <;> rfl

lemma follows_suffix? {words : List (String × α)}
    (hwords : ∀ x ∈ words, x.1.toList.all Char.isAscii = true) :
    Follows text (suffix? words) (readSuffix? words) := by
  refine Follows.congr (follows_backtrack ?_) (readSuffix?_eq_bind words)
  refine (follows_eat? fun _ => isAscii_of_isSeparator).bind fun _ => ?_
  refine (follows_eatWords? hwords).bind fun found => ?_
  cases found with
  | some meaning => exact follows_suffixNumber.map fun n => some (meaning, n)
  | none => exact follows_pure none

/-- A post-release: a hyphen and a number, or one of the words. -/
def post? : Scan (Option UInt64) := do
  match ← numberAfter? '-' with
  | some n => return some n
  | none => return (← suffix? postWords).map Prod.snd

lemma readPost?_eq_bind (s : List Char) : readPost? s = (do
      match ← readNumberAfter? '-' with
      | some n => return some n
      | none => return (← readSuffix? postWords).map Prod.snd : Reader (Option UInt64)) s := by
  unfold readPost?
  split
  · rename_i r
    rw [read_bind, readNumberAfter?_cons]
    cases readNumber? r with
    | error f => rfl
    | ok x =>
      obtain ⟨n, rest⟩ := x
      cases n <;> rfl
  · rename_i hne
    rw [read_bind_of_ok (readNumberAfter?_of_ne hne)]
    rfl

lemma follows_post? : Follows text post? readPost? := by
  refine Follows.congr ?_ readPost?_eq_bind
  refine (follows_numberAfter? (by rfl)).bind fun found => ?_
  cases found with
  | some n => exact follows_pure (some n)
  | none => exact (follows_suffix? all_isAscii_postWords).map fun x => x.map Prod.snd

/-- A development release. -/
def dev? : Scan (Option UInt64) := do
  return (← suffix? devWords).map Prod.snd

lemma follows_dev? : Follows text dev? readDev? :=
  (follows_suffix? all_isAscii_devWords).map fun x => x.map Prod.snd

/-! ### Releases -/

lemma length_lt_of_readNumberAfter? {c : Char} {n : UInt64} {rest : List Char}
    (h : readNumberAfter? c s = .ok (some n, rest)) : rest.length < s.length := by
  by_cases hs : ∃ r, s = c :: r
  · obtain ⟨r, rfl⟩ := hs
    rw [readNumberAfter?_cons] at h
    obtain ⟨⟨found, rest'⟩, hfound, h⟩ := bind_eq_ok.mp h
    cases h
    rcases readNumber?_cases hfound with ⟨h, -, -⟩ | ⟨m, -, rfl⟩
    · cases h
    · change rest'.length < (c :: (m.digits ++ rest')).length
      rw [List.length_cons, List.length_append]
      omega
  · rw [readNumberAfter?_of_ne fun r hr => hs ⟨r, hr⟩] at h
    cases h

lemma follows_segments : Follows text (many (numberAfter? '.')) readSegments := by
  refine follows_many (follows_numberAfter? (by rfl))
    (fun _ _ _ => length_lt_of_readNumberAfter?) fun s => ?_
  rw [readSegments.eq_def, readOnce]
  split
  · rename_i r
    rw [read_bind, readNumberAfter?_cons, readNumber?]
    dsimp only
    split_ifs
    · rfl
    · cases Text.Numeral.number? (r.takeWhile Char.isDigit) <;> rfl
  · rename_i hne
    rw [read_bind_of_ok (readNumberAfter?_of_ne hne)]
    rfl

/-- The epoch, if one is written, and the first release segment. -/
def epochAndMajor : Scan (UInt64 × UInt64) := do
  let n ← number .noRelease
  match ← eat? (· == '!') with
  | some _ => return (n, ← number .noReleaseAfterEpoch)
  | none => return (0, n)

lemma readEpochAndMajor_eq_bind (s : List Char) : readEpochAndMajor s = (do
      let n ← readNumber .noRelease
      match ← readChar? (· == '!') with
      | some _ => return (n, ← readNumber .noReleaseAfterEpoch)
      | none => return (0, n) : Reader (UInt64 × UInt64)) s := by
  unfold readEpochAndMajor
  change _ = ((readNumber? s >>= _) >>= _)
  cases readNumber? s with
  | error f => rfl
  | ok x =>
    obtain ⟨n, rest⟩ := x
    cases n with
    | none => rfl
    | some n =>
      by_cases hrest : ∃ r, rest = '!' :: r
      · obtain ⟨r, rfl⟩ := hrest
        change (readNumber? r >>= _) = ((readNumber? r >>= _) >>= _)
        cases readNumber? r with
        | error f => rfl
        | ok x =>
          obtain ⟨m, rest⟩ := x
          cases m <;> rfl
      · have hchar := readChar?_of_ne fun r hr => hrest ⟨r, hr⟩
        change _ = (readChar? (· == '!') rest >>= _)
        rw [hchar]
        dsimp only [bind, Except.bind]
        split
        · rename_i heq
          cases heq
        · rename_i heq
          cases heq
          exact absurd ⟨_, rfl⟩ hrest
        · rename_i heq
          cases heq
          rfl

lemma follows_epochAndMajor : Follows text epochAndMajor readEpochAndMajor := by
  refine Follows.congr ?_ readEpochAndMajor_eq_bind
  refine (follows_number .noRelease).bind fun n => ?_
  refine (follows_eat?_of_isAscii (by rfl)).bind fun found => ?_
  cases found with
  | some c => exact (follows_number .noReleaseAfterEpoch).map fun m => (n, m)
  | none => exact follows_pure (0, n)

/-! ### Local labels -/

/-- A part of a local label. -/
def labelPart : Scan LocalPart := do
  let chars ← run isLabelChar
  if chars.isEmpty then throw (.fault .emptyLocalSegment)
  else return labelPartOf chars

/-- Take a part of a local label. -/
def readLabelPart : Reader LocalPart := do
  let chars ← readRun isLabelChar
  if chars.isEmpty then throw .emptyLocalSegment
  else return labelPartOf chars

lemma follows_labelPart : Follows text labelPart readLabelPart := by
  refine (follows_run fun _ => isAscii_of_isLabelChar).bind fun chars => ?_
  split_ifs
  · exact follows_fault _
  · exact follows_pure _

/-- A further part of a local label. -/
def nextPart? : Scan (Option LocalPart) := do
  match ← eat? isSeparator with
  | some _ => return some (← labelPart)
  | none => return none

/-- Take a further part of a local label. -/
def readNextPart? : Reader (Option LocalPart) := do
  match ← readChar? isSeparator with
  | some _ => return some (← readLabelPart)
  | none => return none

lemma follows_nextPart? : Follows text nextPart? readNextPart? := by
  refine (follows_eat? fun _ => isAscii_of_isSeparator).bind fun found => ?_
  cases found with
  | some c => exact follows_labelPart.map some
  | none => exact follows_pure none

/-- Take the parts of a local label after the first. -/
def readMoreParts : Reader (List LocalPart)
  | c :: r => if isSeparator c then readLabelParts r else .ok ([], c :: r)
  | [] => .ok ([], [])

lemma readLabelParts_eq_bind (s : List Char) : readLabelParts s = (do
      let part ← readLabelPart
      return part :: (← readMoreParts) : Reader (List LocalPart)) s := by
  rw [readLabelParts_eq]
  rw [read_bind, readLabelPart, readRun_bind]
  split_ifs
  · rfl
  · change _ = (readMoreParts (s.dropWhile isLabelChar) >>= _)
    unfold readMoreParts
    cases s.dropWhile isLabelChar with
    | nil => rfl
    | cons c r =>
      dsimp only
      split_ifs <;> rfl

lemma length_lt_of_readNextPart? {part : LocalPart} {rest : List Char}
    (h : readNextPart? s = .ok (some part, rest)) : rest.length < s.length := by
  cases s with
  | nil => cases h
  | cons c r =>
    cases hc : isSeparator c with
    | false =>
      rw [readNextPart?, read_bind_of_ok (readChar?_cons_of_not hc r)] at h
      cases h
    | true =>
      rw [readNextPart?, read_bind_of_ok (readChar?_cons hc r)] at h
      obtain ⟨⟨part', rest'⟩, hpart, h⟩ := bind_eq_ok.mp h
      cases h
      rw [readLabelPart, readRun_bind] at hpart
      split_ifs at hpart
      · cases hpart
      · cases hpart
        exact Nat.lt_succ_of_le (length_dropWhile_le isLabelChar r)

lemma follows_moreParts : Follows text (many nextPart?) readMoreParts := by
  refine follows_many follows_nextPart? (fun _ _ _ => length_lt_of_readNextPart?) fun s => ?_
  cases s with
  | nil => rfl
  | cons c r =>
    rw [readMoreParts, readOnce, read_bind]
    cases hc : isSeparator c with
    | false =>
      rw [readNextPart?, read_bind_of_ok (readChar?_cons_of_not hc r)]
      rfl
    | true =>
      rw [readNextPart?, read_bind_of_ok (readChar?_cons hc r), if_pos rfl, readLabelParts_eq_bind]
      change (readLabelPart r >>= _) = ((readLabelPart r >>= _) >>= _)
      cases readLabelPart r <;> rfl

/-- The local label, if one stands here. -/
def label : Scan (List LocalPart) := do
  match ← eat? (· == '+') with
  | some _ => return (← labelPart) :: (← many nextPart?)
  | none => return []

lemma readLabel_eq_bind (s : List Char) : readLabel s = (do
      match ← readChar? (· == '+') with
      | some _ => return (← readLabelPart) :: (← readMoreParts)
      | none => return [] : Reader (List LocalPart)) s := by
  unfold readLabel
  split
  · rw [read_bind_of_ok (readChar?_self '+' _)]
    exact readLabelParts_eq_bind _
  · rename_i hne
    rw [read_bind_of_ok (readChar?_of_ne hne)]
    rfl

lemma follows_label : Follows text label readLabel := by
  refine Follows.congr ?_ readLabel_eq_bind
  refine (follows_eat?_of_isAscii (by rfl)).bind fun found => ?_
  cases found with
  | some c =>
    exact follows_labelPart.bind fun part => follows_moreParts.map fun parts => part :: parts
  | none => exact follows_pure []

/-! ### Whole versions -/

/-- The parts of a version, one after the other. -/
def parts : Scan Version := do
  let _ ← eat? (· == 'v')
  let (epoch, major) ← epochAndMajor
  let minors ← many (numberAfter? '.')
  let pre ← suffix? phaseWords
  let post ← post?
  let dev ← dev?
  let label ← label
  return { epoch, release := major :: minors, pre, post, dev, label }

/-- Take the parts of a version, one after the other. -/
def readParts : Reader Version := do
  let _ ← readChar? (· == 'v')
  let (epoch, major) ← readEpochAndMajor
  let minors ← readSegments
  let pre ← readPre?
  let post ← readPost?
  let dev ← readDev?
  let label ← readLabel
  return { epoch, release := major :: minors, pre, post, dev, label }

lemma follows_parts : Follows text parts readParts := by
  refine (follows_eat?_of_isAscii (by rfl)).bind fun _ => ?_
  refine follows_epochAndMajor.bind ?_
  rintro ⟨epoch, major⟩
  refine follows_segments.bind fun minors => ?_
  refine (follows_suffix? all_isAscii_phaseWords).bind fun pre => ?_
  refine follows_post?.bind fun post => ?_
  refine follows_dev?.bind fun dev => ?_
  exact follows_label.map fun label => _

/-- A version that has been read, if it ends with the text. -/
def complete (v : Version) : Scan Version := do
  let pos ← get
  if pos = (← read).length then return v
  else throw (.fault (.unexpectedText pos))

/-- A version that has been read from a text, if nothing is left. -/
def readComplete (text : List Char) (v : Version) : Reader Version := fun rest =>
  if rest.isEmpty then .ok (v, rest)
  else .error (.unexpectedText (text.length - rest.length))

lemma map_fst_readComplete (text : List Char) (v : Version) (rest : List Char) :
    Prod.fst <$> readComplete text v rest =
      if rest.isEmpty then pure v else throw (.unexpectedText (text.length - rest.length)) := by
  unfold readComplete
  split_ifs <;> rfl

lemma follows_complete (v : Version) : Follows text (complete v) (readComplete text v) := by
  intro pos rest hs
  unfold complete readComplete
  rw [run_get_bind, run_read_bind, ← hs.eq_sub]
  by_cases hrest : rest = []
  · rw [if_pos (List.isEmpty_iff.mpr hrest), if_pos (hs.eq_length_iff.mpr hrest)]
    exact .ok hs
  · rw [if_neg (mt List.isEmpty_iff.mp hrest), if_neg (mt hs.eq_length_iff.mp hrest)]
    exact .fault _

/-- A version that takes up the whole of a trimmed text in lower case. -/
def version : Scan Version := do
  if (← read).isEmpty then throw (.fault .empty)
  else complete (← parts)

lemma ofLowered_of_ne_nil (hne : s ≠ []) :
    ofLowered s = Prod.fst <$> (readParts >>= readComplete s) s := by
  have hmark : ∃ c, readChar? (· == 'v') s = .ok (c, skipV s) := by
    unfold skipV
    split
    · exact ⟨some 'v', readChar?_self 'v' _⟩
    · rename_i hmark
      exact ⟨none, readChar?_of_ne hmark⟩
  obtain ⟨c, hc⟩ := hmark
  have hempty : s.isEmpty = false := by simpa using hne
  dsimp only [ofLowered]
  rw [hempty, read_bind, readParts, read_bind_of_ok hc]
  simp only [read_bind, bind_assoc, map_bind, map_fst_readComplete]
  rfl

lemma ofBytes_version (s : List Char) :
    version.ofBytes (Text.utf8 s) = (ofLowered s).mapError .fault := by
  cases s with
  | nil => rfl
  | cons c s =>
    have hbytes : (Text.utf8 (c :: s)).isEmpty = false := by
      have hle := Text.length_le_length_utf8 (c :: s)
      rw [List.length_cons] at hle
      rw [List.isEmpty_eq_false_iff, ← List.length_pos_iff]
      omega
    have hagrees := (follows_parts.bind follows_complete) 0 (c :: s) (.start _)
    rw [ofLowered_of_ne_nil (List.cons_ne_nil c s), ← hagrees.map_fst]
    unfold ofBytes version
    rw [run_read_bind, hbytes]
    rfl

end Scan

/-- Scan the bytes of a version; blanks around it and the case of its letters do not matter. -/
def scan (s : String) : Except Stop Version :=
  Scan.version.ofBytes (Text.bytes (String.ofList (Text.lower (Text.trim s.toList))))

/-- To scan a version is to read it, and only a fault of the text stops the scan. -/
theorem scan_eq (s : String) : scan s = (ofText s).mapError .fault := by
  rw [scan, Text.bytes_ofList, Scan.ofBytes_version, ofText]

theorem scan_ne_outOfRange (s : String) : scan s ≠ .error .outOfRange := by
  rw [scan_eq]
  cases ofText s with
  | error f => exact fun h => nomatch h
  | ok v => exact fun h => nomatch h

end ProjectScope.Version

import Mathlib.Data.List.TakeWhile
import ProjectScope.Proofs.Text.Ascii
import ProjectScope.Version.Parser

/-!
# Positions in the bytes of a text

A text can be read with no more than a position in its bytes. The position moves on over what is
read and goes back to a mark where nothing is found, and a run of characters is the slice between
two positions. A scan reads in this way and checks each step: a position or a slice that is out of
range stops it, and so does a loop of more rounds than there are bytes.

A reader takes characters from the front of a text instead. A scan follows a reader if, wherever
it stands, both come to the same answer or to the same fault. What looks for ASCII only stands
between two characters after each step.
-/

namespace ProjectScope

/-- The elements from one position up to another, if the list has both. -/
def slice? {α : Type} (l : List α) (start stop : ℕ) : Option (List α) :=
  if start ≤ stop ∧ stop ≤ l.length then some ((l.take stop).drop start) else none

lemma slice?_append {α : Type} (l₁ l₂ l₃ : List α) :
    slice? (l₁ ++ (l₂ ++ l₃)) l₁.length (l₁.length + l₂.length) = some l₂ := by
  rw [slice?, if_pos (by simp), ← List.append_assoc, List.take_left' List.length_append,
    List.drop_left]

namespace Version

/-- Why a scan stops. -/
inductive Stop where
  /-- The text is not what is scanned for. -/
  | fault (f : VersionFault)
  /-- A position or a slice is not within the bytes. -/
  | outOfRange
  /-- A loop has more rounds than there are bytes. -/
  | endless
  deriving DecidableEq

/-- A computation that moves a position in some bytes. -/
abbrev Scan := ReaderT (List UInt8) (StateT ℕ (Except Stop))

namespace Scan

variable {α β : Type}

/-! ### Steps -/

/-- The byte at a position, as a character. -/
def charAt? (pos : ℕ) : Scan (Option Char) := do
  return (← read)[pos]?.map Char.ofUInt8

/-- Go to a position. -/
def moveTo (pos : ℕ) : Scan Unit := do
  if pos ≤ (← read).length then set pos else throw .outOfRange

/-- Move over some bytes. -/
def advance (n : ℕ) : Scan Unit := do moveTo ((← get) + n)

/-- The bytes between two positions. -/
def slice (start stop : ℕ) : Scan (List UInt8) := do
  match slice? (← read) start stop with
  | some bytes => return bytes
  | none => throw .outOfRange

/-- Move over a character of some kind, if one stands here. -/
def eat? (p : Char → Bool) : Scan (Option Char) := do
  match (← charAt? (← get)).filter p with
  | some c =>
    advance 1
    return some c
  | none => return none

/-- Move over a word, if it stands here. -/
def eatWord (word : String) : Scan Bool := do
  let rest ← slice (← get) (← read).length
  if (Text.utf8 word.toList).isPrefixOf rest then
    advance (Text.utf8 word.toList).length
    return true
  else return false

/-- Go back to where a scan began, unless it finds something. -/
def backtrack (scan : Scan (Option α)) : Scan (Option α) := do
  let mark ← get
  match ← scan with
  | some a => return some a
  | none =>
    moveTo mark
    return none

/-- Repeat a scan for as long as it finds something, for fewer rounds than given. -/
def repeatFor (item : Scan (Option α)) : ℕ → Scan (List α)
  | 0 => throw .endless
  | rounds + 1 => do
    match ← item with
    | some a => return a :: (← repeatFor item rounds)
    | none => return []

/-- Repeat a scan for as long as it finds something. -/
def many (item : Scan (Option α)) : Scan (List α) := do
  repeatFor item ((← read).length + 1)

/-- A run of characters of some kind. -/
def run (p : Char → Bool) : Scan (List Char) := do
  let start ← get
  let _ ← many (eat? p)
  return Text.decode (← slice start (← get))

/-- Scan some bytes from their start. -/
def ofBytes (scan : Scan α) (bytes : List UInt8) : Except Stop α :=
  Prod.fst <$> scan bytes 0

example : (advance 2).ofBytes [49] = .error .outOfRange := rfl

/-! ### Where a scan stands -/

/-- What is left of a text at a position in its bytes, where only ASCII comes before. -/
def Stands (text : List Char) (pos : ℕ) (rest : List Char) : Prop :=
  ∃ before, (∀ c ∈ before, c.isAscii = true) ∧ before.length = pos ∧ text = before ++ rest

variable {text s u : List Char} {pos pos' : ℕ} {p : Char → Bool}

namespace Stands

lemma start (text : List Char) : Stands text 0 text := ⟨[], by simp, rfl, rfl⟩

lemma utf8_eq (h : Stands text pos s) :
    ∃ before, before.length = pos ∧ Text.utf8 text = before ++ Text.utf8 s := by
  obtain ⟨before, hascii, rfl, rfl⟩ := h
  exact ⟨Text.utf8 before, Text.length_utf8_of_isAscii hascii, Text.utf8_append before s⟩

lemma le_length (h : Stands text pos s) : pos + s.length ≤ (Text.utf8 text).length := by
  obtain ⟨before, rfl, hbytes⟩ := h.utf8_eq
  rw [hbytes, List.length_append]
  exact Nat.add_le_add_left (Text.length_le_length_utf8 s) _

lemma advance (h : Stands text pos (u ++ s)) (hu : ∀ c ∈ u, c.isAscii = true) :
    Stands text (pos + u.length) s := by
  obtain ⟨before, hascii, rfl, rfl⟩ := h
  exact ⟨before ++ u, List.forall_mem_append.mpr ⟨hascii, hu⟩, List.length_append, by simp⟩

lemma next {c : Char} (h : Stands text pos (c :: s)) (hc : c.isAscii = true) :
    Stands text (pos + 1) s :=
  h.advance (u := [c]) (List.forall_mem_singleton.mpr hc)

/-- A position is determined by what is left there. -/
lemma eq_add (h : Stands text pos (u ++ s)) (h' : Stands text pos' s) : pos' = pos + u.length := by
  obtain ⟨before, -, rfl, rfl⟩ := h
  obtain ⟨before', -, rfl, heq⟩ := h'
  rw [← List.append_assoc, List.append_cancel_right_eq] at heq
  rw [← heq, List.length_append]

lemma eq_sub (h : Stands text pos s) : pos = text.length - s.length := by
  obtain ⟨before, -, rfl, rfl⟩ := h
  rw [List.length_append, Nat.add_sub_cancel]

/-- A scan is at the end of the bytes when no character is left. -/
lemma eq_length_iff (h : Stands text pos s) : pos = (Text.utf8 text).length ↔ s = [] := by
  obtain ⟨before, rfl, hbytes⟩ := h.utf8_eq
  have hle := Text.length_le_length_utf8 s
  rw [hbytes, List.length_append, ← List.length_eq_zero_iff]
  constructor
  · omega
  · intro hs
    rw [List.length_eq_zero_iff.mp hs]
    rfl

lemma filter_getElem? (h : Stands text pos s) (hp : ∀ c, p c = true → c.isAscii = true) :
    ((Text.utf8 text)[pos]?.map Char.ofUInt8).filter p = s.head?.filter p := by
  obtain ⟨before, rfl, hbytes⟩ := h.utf8_eq
  rw [hbytes, List.getElem?_append_right (Nat.le_refl _), Nat.sub_self, ← List.head?_eq_getElem?,
    Text.filter_head?_utf8 hp]

lemma any_getElem? (h : Stands text pos s) (hp : ∀ c, p c = true → c.isAscii = true) :
    ((Text.utf8 text)[pos]?.map Char.ofUInt8).any p = s.head?.any p := by
  rw [← Option.isSome_filter, h.filter_getElem? hp, Option.isSome_filter]

end Stands

/-! ### Scans and readers -/

/-- A computation that takes characters from the front of a text. -/
abbrev Reader := StateT (List Char) (Except VersionFault)

/-- Whether a scan of a text comes out as a reader does: with the same answer where the reader's rest
is left, or with the same fault. -/
inductive Agrees (text : List Char) :
    Except VersionFault (α × List Char) → Except Stop (α × ℕ) → Prop
  | ok {a : α} {pos : ℕ} {rest : List Char} (h : Stands text pos rest) :
    Agrees text (.ok (a, rest)) (.ok (a, pos))
  | fault (f : VersionFault) : Agrees text (.error f) (.error (.fault f))

/-- Whether a scan follows a reader from wherever it stands. -/
def Follows (text : List Char) (scan : Scan α) (reader : Reader α) : Prop :=
  ∀ pos s, Stands text pos s → Agrees text (reader s) (scan (Text.utf8 text) pos)

lemma Agrees.exists_of_ok {a : α} {rest : List Char} {r : Except Stop (α × ℕ)}
    (h : Agrees text (.ok (a, rest)) r) : ∃ pos, Stands text pos rest ∧ r = .ok (a, pos) := by
  cases h with
  | ok h => exact ⟨_, h, rfl⟩

lemma Agrees.map_fst {r : Except VersionFault (α × List Char)} {r' : Except Stop (α × ℕ)}
    (h : Agrees text r r') : Prod.fst <$> r' = (Prod.fst <$> r).mapError .fault := by
  cases h <;> rfl

lemma Agrees.bind {r : Except VersionFault (α × List Char)} {r' : Except Stop (α × ℕ)}
    {k : α × List Char → Except VersionFault (β × List Char)}
    {k' : α × ℕ → Except Stop (β × ℕ)} (h : Agrees text r r')
    (hk : ∀ a pos rest, Stands text pos rest → Agrees text (k (a, rest)) (k' (a, pos))) :
    Agrees text (r >>= k) (r' >>= k') := by
  cases h with
  | ok h => exact hk _ _ _ h
  | fault f => exact .fault f

lemma follows_pure (a : α) : Follows text (pure a) (pure a) := fun _ _ hs => .ok hs

lemma follows_fault (f : VersionFault) :
    Follows (α := α) text (throw (.fault f)) (throw f) := fun _ _ _ => .fault f

namespace Follows

variable {scan : Scan α} {reader reader' : Reader α}

lemma bind {k : α → Scan β} {k' : α → Reader β} (h : Follows text scan reader)
    (hk : ∀ a, Follows text (k a) (k' a)) : Follows text (scan >>= k) (reader >>= k') :=
  fun pos s hs => (h pos s hs).bind fun a => hk a

lemma map (f : α → β) (h : Follows text scan reader) :
    Follows text (scan >>= fun a => pure (f a)) (reader >>= fun a => pure (f a)) :=
  h.bind fun a => follows_pure (f a)

/-- A reader that does the same may stand in for another one. -/
lemma congr (h : Follows text scan reader) (heq : ∀ s, reader' s = reader s) :
    Follows text scan reader' := by
  intro pos s hs
  rw [heq]
  exact h pos s hs

end Follows

lemma read_bind (reader : Reader α) (k : α → Reader β) (s : List Char) :
    (reader >>= k) s = reader s >>= fun x => k x.1 x.2 := rfl

lemma read_bind_of_ok {reader : Reader α} {k : α → Reader β} {a : α} {rest : List Char}
    (h : reader s = .ok (a, rest)) : (reader >>= k) s = k a rest := by
  rw [read_bind, h]
  rfl

section

variable {bytes : List UInt8}

lemma run_bind (scan : Scan α) (k : α → Scan β) :
    (scan >>= k) bytes pos = scan bytes pos >>= fun x => k x.1 bytes x.2 := rfl

lemma run_bind_of_ok {scan : Scan α} {k : α → Scan β} {a : α}
    (h : scan bytes pos = .ok (a, pos')) : (scan >>= k) bytes pos = k a bytes pos' := by
  rw [run_bind, h]
  rfl

lemma run_read_bind (k : List UInt8 → Scan β) :
    ((read : Scan (List UInt8)) >>= k) bytes pos = k bytes bytes pos := rfl

lemma run_get_bind (k : ℕ → Scan β) :
    ((get : Scan ℕ) >>= k) bytes pos = k pos bytes pos := rfl

lemma run_charAt?_bind (k : Option Char → Scan β) :
    (charAt? pos' >>= k) bytes pos = k (bytes[pos']?.map Char.ofUInt8) bytes pos := rfl

end

/-! ### Positions and slices -/

namespace Stands

lemma moveTo_eq (h : Stands text pos' s) :
    moveTo pos' (Text.utf8 text) pos = .ok ((), pos') := by
  have hle : pos' ≤ (Text.utf8 text).length := (Nat.le_add_right _ _).trans h.le_length
  unfold moveTo
  rw [run_read_bind, if_pos hle]
  rfl

lemma advance_eq {n : ℕ} (h : Stands text (pos + n) s) :
    Scan.advance n (Text.utf8 text) pos = .ok ((), pos + n) := h.moveTo_eq

lemma slice_eq (h : Stands text pos (u ++ s)) (hu : ∀ c ∈ u, c.isAscii = true) :
    slice pos (pos + u.length) (Text.utf8 text) pos' = .ok (Text.utf8 u, pos') := by
  obtain ⟨before, rfl, hbytes⟩ := h.utf8_eq
  have hslice := slice?_append before (Text.utf8 u) (Text.utf8 s)
  rw [← Text.utf8_append, ← hbytes, Text.length_utf8_of_isAscii hu] at hslice
  unfold slice
  rw [run_read_bind, hslice]
  rfl

/-- The slice up to the end is what is left. -/
lemma slice_length_eq (h : Stands text pos s) :
    slice pos (Text.utf8 text).length (Text.utf8 text) pos' = .ok (Text.utf8 s, pos') := by
  obtain ⟨before, rfl, hbytes⟩ := h.utf8_eq
  have hslice := slice?_append before (Text.utf8 s) []
  rw [List.append_nil, ← hbytes, ← List.length_append, ← hbytes] at hslice
  unfold slice
  rw [run_read_bind, hslice]
  rfl

end Stands

/-! ### Characters -/

/-- Take a character of some kind, if one stands here. -/
def readChar? (p : Char → Bool) : Reader (Option Char)
  | c :: r => if p c then .ok (some c, r) else .ok (none, c :: r)
  | [] => .ok (none, [])

lemma readChar?_cons {c : Char} (hc : p c = true) (r : List Char) :
    readChar? p (c :: r) = .ok (some c, r) := by
  rw [readChar?, if_pos hc]

lemma readChar?_cons_of_not {c : Char} (hc : p c = false) (r : List Char) :
    readChar? p (c :: r) = .ok (none, c :: r) := by
  rw [readChar?, hc]
  rfl

lemma readChar?_self (c : Char) (r : List Char) :
    readChar? (· == c) (c :: r) = .ok (some c, r) :=
  readChar?_cons (beq_self_eq_true c) r

lemma readChar?_of_ne {c : Char} (h : ∀ r, s ≠ c :: r) : readChar? (· == c) s = .ok (none, s) := by
  cases s with
  | nil => rfl
  | cons d r =>
    apply readChar?_cons_of_not
    rw [beq_eq_false_iff_ne]
    rintro rfl
    exact h r rfl

lemma follows_eat? (hp : ∀ c, p c = true → c.isAscii = true) :
    Follows text (eat? p) (readChar? p) := by
  intro pos s hs
  unfold eat?
  rw [run_get_bind, run_charAt?_bind, hs.filter_getElem? hp]
  cases s with
  | nil => exact .ok hs
  | cons c r =>
    rw [List.head?_cons, Option.filter_some, readChar?]
    split_ifs with hc
    · have hnext : Stands text (pos + 1) r := hs.next (hp c hc)
      dsimp only
      rw [run_bind_of_ok hnext.advance_eq]
      exact .ok hnext
    · exact .ok hs

/-! ### Words -/

/-- Take a word, if the text starts with it. -/
def readWord (word : String) : Reader Bool := fun s =>
  match word.toList.isPrefixOf? s with
  | some r => .ok (true, r)
  | none => .ok (false, s)

lemma follows_eatWord {word : String} (hword : ∀ c ∈ word.toList, c.isAscii = true) :
    Follows text (eatWord word) (readWord word) := by
  intro pos s hs
  unfold eatWord readWord
  rw [run_get_bind, run_read_bind, run_bind_of_ok hs.slice_length_eq]
  cases hfound : word.toList.isPrefixOf? s with
  | some r =>
    have happend := List.isPrefixOf?_eq_some_iff_append_eq.mp hfound
    have hnext : Stands text (pos + (Text.utf8 word.toList).length) r := by
      rw [Text.length_utf8_of_isAscii hword]
      rw [← happend] at hs
      exact hs.advance hword
    rw [if_pos, run_bind_of_ok hnext.advance_eq]
    · exact .ok hnext
    · rw [List.isPrefixOf_iff_prefix, Text.utf8_prefix_utf8_iff hword]
      exact ⟨r, happend⟩
  | none =>
    rw [if_neg]
    · exact .ok hs
    · rw [List.isPrefixOf_iff_prefix, Text.utf8_prefix_utf8_iff hword]
      rintro ⟨r, happend⟩
      rw [List.isPrefixOf?_eq_some_iff_append_eq.mpr happend] at hfound
      cases hfound

/-! ### Going back and going on -/

/-- Leave the text as it is, unless a reader finds something. -/
def backtracking (reader : Reader (Option α)) : Reader (Option α) := fun s =>
  reader s >>= fun x => .ok (x.1, if x.1.isSome then x.2 else s)

lemma follows_backtrack {scan : Scan (Option α)} {reader : Reader (Option α)}
    (h : Follows text scan reader) : Follows text (backtrack scan) (backtracking reader) := by
  intro pos s hs
  refine (h pos s hs).bind fun found pos' rest hrest => ?_
  cases found with
  | some a => exact .ok hrest
  | none =>
    dsimp only
    rw [run_bind_of_ok hs.moveTo_eq]
    exact .ok hs

section

variable {item : Scan (Option α)} {readItem : Reader (Option α)} {reader : Reader (List α)}

/-- One round of a loop of readers. -/
def readOnce (readItem : Reader (Option α)) (reader : Reader (List α)) : Reader (List α) := do
  match ← readItem with
  | some a => return a :: (← reader)
  | none => return []

/-- Rounds that each move on come to their end before the text does. -/
lemma agrees_repeatFor (h : Follows text item readItem)
    (hshort : ∀ s a rest, readItem s = .ok (some a, rest) → rest.length < s.length)
    (hreader : ∀ s, reader s = readOnce readItem reader s)
    (rounds : ℕ) (hs : Stands text pos s) (hrounds : s.length < rounds) :
    Agrees text (reader s) (repeatFor item rounds (Text.utf8 text) pos) := by
  induction rounds generalizing pos s with
  | zero => cases hrounds
  | succ rounds ih =>
    -- more rounds are left than characters, and a round that finds something takes a character
    have hitem := h pos s hs
    have hless := hshort s
    rw [hreader, readOnce, read_bind, repeatFor, run_bind]
    generalize readItem s = r at hitem hless ⊢
    generalize item (Text.utf8 text) pos = r' at hitem ⊢
    cases hitem with
    | fault f => exact .fault f
    | @ok found pos' rest hrest =>
      cases found with
      | none => exact .ok hrest
      | some a =>
        have hlt := hless a rest rfl
        exact (ih hrest (by omega)).bind fun as pos rest hs => .ok hs

lemma follows_many (h : Follows text item readItem)
    (hshort : ∀ s a rest, readItem s = .ok (some a, rest) → rest.length < s.length)
    (hreader : ∀ s, reader s = readOnce readItem reader s) :
    Follows text (many item) reader := by
  intro pos s hs
  have hle := hs.le_length
  exact agrees_repeatFor h hshort hreader _ hs (by omega)

end

/-! ### Runs of characters -/

/-- Take a run of characters of some kind. -/
def readRun (p : Char → Bool) : Reader (List Char) := fun s => .ok (s.takeWhile p, s.dropWhile p)

lemma readRun_bind (k : List Char → Reader β) :
    (readRun p >>= k) s = k (s.takeWhile p) (s.dropWhile p) := rfl

lemma dropWhile_of_takeWhile_isEmpty (h : (s.takeWhile p).isEmpty = true) :
    s.dropWhile p = s := by
  conv_rhs => rw [← List.takeWhile_append_dropWhile (p := p) (l := s), List.isEmpty_iff.mp h]
  rfl

lemma length_lt_of_readChar? {c : Char} {rest : List Char}
    (h : readChar? p s = .ok (some c, rest)) : rest.length < s.length := by
  cases s with
  | nil => cases h
  | cons d r =>
    rw [readChar?] at h
    split_ifs at h
    · cases h
      exact Nat.lt_succ_self _
    · cases h

lemma follows_run (hp : ∀ c, p c = true → c.isAscii = true) : Follows text (run p) (readRun p) := by
  have hmany : Follows text (many (eat? p)) (readRun p) := by
    refine follows_many (follows_eat? hp) (fun _ _ _ => length_lt_of_readChar?) fun s => ?_
    cases s with
    | nil => rfl
    | cons c r =>
      rw [readRun, readOnce, read_bind, readChar?, List.takeWhile_cons, List.dropWhile_cons]
      split_ifs <;> rfl
  intro pos s hs
  obtain ⟨pos', hrest, hmoved⟩ := (hmany pos s hs).exists_of_ok
  have htaken : ∀ c ∈ s.takeWhile p, c.isAscii = true :=
    fun c hc => hp c (List.mem_takeWhile_imp hc)
  rw [← List.takeWhile_append_dropWhile (p := p) (l := s)] at hs
  unfold run
  rw [run_get_bind, run_bind_of_ok hmoved, run_get_bind, hs.eq_add hrest,
    run_bind_of_ok (hs.slice_eq htaken), Text.decode_utf8]
  exact .ok (hs.advance htaken)
end Scan

end Version

end ProjectScope

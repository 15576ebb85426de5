import Mathlib.Tactic.Common
import ProjectScope.Proofs.Text.Bytes

/-!
# Texts of ASCII among bytes

A character of ASCII is one byte in UTF-8, and no other character has a byte that could be taken for
one of ASCII. So what looks for ASCII only finds the same in the bytes of a text as in its
characters, and as many bytes go by as characters do.
-/

namespace ProjectScope.Text

variable {c : Char} {s word : List Char}

/-- The bytes of some characters. -/
def utf8 (s : List Char) : List UInt8 := s.flatMap String.utf8EncodeChar

/-- The characters that bytes stand for; bytes that are no UTF-8 stand for none. -/
def decode (bs : List UInt8) : List Char := (bs.toByteArray.utf8Decode?.getD #[]).toList

lemma bytes_ofList (s : List Char) : bytes (String.ofList s) = utf8 s := by
  rw [bytes_eq, String.toList_ofList, utf8]

lemma decode_utf8 (s : List Char) : decode (utf8 s) = s := by
  have h : (utf8 s).toByteArray.utf8Decode? = some s.toArray := List.utf8Decode?_utf8Encode
  rw [decode, h]
  rfl

lemma utf8_append (s t : List Char) : utf8 (s ++ t) = utf8 s ++ utf8 t := List.flatMap_append

lemma utf8_cons (c : Char) (s : List Char) : utf8 (c :: s) = String.utf8EncodeChar c ++ utf8 s :=
  List.flatMap_cons

/-! ### Single characters -/

lemma toNat_val (c : Char) : c.val.toNat = c.toNat := rfl

lemma isAscii_iff : c.isAscii = true ↔ c.toNat < 128 := decide_eq_true_iff

lemma utf8EncodeChar_of_isAscii (h : c.isAscii = true) :
    String.utf8EncodeChar c = [c.toUInt8] := by
  have hlt := isAscii_iff.mp h
  apply String.utf8EncodeChar_eq_singleton
  rw [Char.utf8Size_eq_one_iff, UInt32.le_iff_toNat_le, toNat_val]
  exact Nat.le_of_lt_succ hlt

lemma ofUInt8_toUInt8 (h : c.isAscii = true) : Char.ofUInt8 c.toUInt8 = c := by
  have hlt := isAscii_iff.mp h
  rw [← Char.toNat_inj]
  change c.val.toUInt8.toUInt32.toNat = c.toNat
  rw [UInt8.toNat_toUInt32, UInt32.toNat_toUInt8, toNat_val]
  omega

/-- The bytes of a character beyond ASCII start with a byte beyond ASCII. -/
lemma exists_utf8EncodeChar_eq_cons (h : c.isAscii = false) :
    ∃ b r, String.utf8EncodeChar c = b :: r ∧ (Char.ofUInt8 b).isAscii = false := by
  have hge : 128 ≤ c.val.toNat := by
    rw [toNat_val, ← Nat.not_lt, ← isAscii_iff, h]
    exact Bool.false_ne_true
  have hlead (n : ℕ) (hlow : 192 ≤ n) (hhigh : n < 256) :
      (Char.ofUInt8 (UInt8.ofNat n)).isAscii = false := by
    rw [← Bool.not_eq_true, isAscii_iff]
    change ¬(UInt8.ofNat n).toUInt32.toNat < 128
    rw [UInt8.toNat_toUInt32, UInt8.toNat_ofNat']
    omega
  simp only [String.utf8EncodeChar]
  split_ifs with h₁ h₂ h₃
  · omega
  all_goals exact ⟨_, _, rfl, hlead _ (by omega) (by omega)⟩

/-! ### Texts -/

lemma utf8_of_isAscii (h : ∀ c ∈ s, c.isAscii = true) : utf8 s = s.map Char.toUInt8 := by
  induction s with
  | nil => rfl
  | cons c s ih =>
    obtain ⟨hc, hs⟩ := List.forall_mem_cons.mp h
    rw [utf8_cons, utf8EncodeChar_of_isAscii hc, ih hs]
    rfl

lemma length_utf8_of_isAscii (h : ∀ c ∈ s, c.isAscii = true) : (utf8 s).length = s.length := by
  rw [utf8_of_isAscii h, List.length_map]

lemma length_le_length_utf8 (s : List Char) : s.length ≤ (utf8 s).length := by
  induction s with
  | nil => exact Nat.le_refl _
  | cons c s ih =>
    have hc := c.utf8Size_pos
    rw [utf8_cons, List.length_append, String.length_utf8EncodeChar, List.length_cons]
    omega

/-- A search for characters of ASCII finds the first byte where it finds the first character. -/
lemma filter_head?_utf8 {p : Char → Bool} (hp : ∀ c, p c = true → c.isAscii = true)
    (s : List Char) : ((utf8 s).head?.map Char.ofUInt8).filter p = s.head?.filter p := by
  cases s with
  | nil => rfl
  | cons c s =>
    cases hc : c.isAscii with
    | true =>
      rw [utf8_cons, utf8EncodeChar_of_isAscii hc]
      exact congrArg (fun c => (some c).filter p) (ofUInt8_toUInt8 hc)
    | false =>
      obtain ⟨b, r, hbytes, hb⟩ := exists_utf8EncodeChar_eq_cons hc
      have hnot {d : Char} (hd : d.isAscii = false) : (some d).filter p = none := by
        rw [Option.filter_some, if_neg]
        intro h
        rw [hp d h] at hd
        cases hd
      rw [utf8_cons, hbytes]
      exact (hnot hb).trans (hnot hc).symm

/-- The bytes of a word of ASCII stand first where the word does. -/
lemma utf8_prefix_utf8_iff (hword : ∀ c ∈ word, c.isAscii = true) :
    utf8 word <+: utf8 s ↔ word <+: s := by
  induction word generalizing s with
  | nil => exact iff_of_true List.nil_prefix List.nil_prefix
  | cons d word ih =>
    obtain ⟨hd, hword⟩ := List.forall_mem_cons.mp hword
    rw [utf8_cons, utf8EncodeChar_of_isAscii hd, List.singleton_append]
    cases s with
    | nil => exact iff_of_false (by simp [utf8]) (by simp)
    | cons c s =>
      rw [utf8_cons]
      cases hc : c.isAscii with
      | true =>
        have hbyte : d.toUInt8 = c.toUInt8 ↔ d = c := by
          constructor
          · intro h
            rw [← ofUInt8_toUInt8 hd, h, ofUInt8_toUInt8 hc]
          · rintro rfl
            rfl
        rw [utf8EncodeChar_of_isAscii hc, List.singleton_append, List.cons_prefix_cons,
          List.cons_prefix_cons, hbyte, ih hword]
      | false =>
        obtain ⟨b, r, hbytes, hb⟩ := exists_utf8EncodeChar_eq_cons hc
        rw [hbytes, List.cons_append, List.cons_prefix_cons, List.cons_prefix_cons]
        apply iff_of_false
        · rintro ⟨rfl, -⟩
          rw [ofUInt8_toUInt8 hd, hd] at hb
          cases hb
        · rintro ⟨rfl, -⟩
          rw [hd] at hc
          cases hc

end ProjectScope.Text

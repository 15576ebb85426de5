import Mathlib.Order.Nat
import ProjectScope.Proofs.Specifier.Narrowing
import ProjectScope.Proofs.Specifier.RoundTrip

/-!
# Wildcards are half-open intervals

The least version of a release is its development release 0. A wildcard compares the segments that
it names, whatever comes after them, so it admits what is neither before the least version of its
release nor from the least version of the next one on, which is the release with its last segment
increased.
-/

namespace ProjectScope

/-! ### Releases between two others -/

section

variable {n : UInt64} {r : List UInt64}

/-- A release is compared by its first segment, and then by what is left. -/
lemma compareRelease_cons (a : UInt64) (as r : List UInt64) :
    compareRelease (a :: as) r = (compare a (r.head?.getD 0)).then (compareRelease as r.tail) := by
  cases r <;> simp [compareRelease]

lemma compareRelease_nil_ne_gt (r : List UInt64) : compareRelease [] r ≠ .gt :=
  (compares_significant [] r).ne_gt.mpr (not_lt.mp (List.not_lt_nil _))

lemma compareRelease_singleton_ne_gt : compareRelease [n] r ≠ .gt ↔ n ≤ r.head?.getD 0 := by
  rw [compareRelease_cons, ne_eq, Ordering.then_eq_gt, not_or, Std.compare_eq_gt, UInt64.not_lt,
    and_iff_left]
  exact fun h => compareRelease_nil_ne_gt _ h.2

/-- What is not before a release, and before the release with its last segment increased, begins
like the release. -/
lemma compareRelease_between_iff (hn : n.toNat < 2 ^ 64 - 1) (init r : List UInt64) :
    compareRelease (init ++ [n]) r ≠ .gt ∧ compareRelease (init ++ [n + 1]) r = .gt ↔
      r.takeD (init ++ [n]).length 0 = init ++ [n] := by
  induction init generalizing r with
  | nil =>
    have hsucc : (n + 1).toNat = n.toNat + 1 := by
      rw [UInt64.toNat_add, UInt64.toNat_one, Nat.mod_eq_of_lt (by omega)]
    have hnext : compareRelease [n + 1] r = .gt ↔ r.head?.getD 0 < n + 1 := by
      rw [← UInt64.not_le, ← compareRelease_singleton_ne_gt, ne_eq, not_not]
    rw [List.nil_append, List.nil_append, compareRelease_singleton_ne_gt, hnext,
      UInt64.le_iff_toNat_le, UInt64.lt_iff_toNat_lt, hsucc]
    simp only [List.length_singleton, List.takeD_succ, List.takeD_zero, List.cons_eq_cons, and_true,
      ← UInt64.toNat_inj]
    omega
  | cons a init ih =>
    rw [List.cons_append, List.cons_append, compareRelease_cons, compareRelease_cons,
      List.length_cons, List.takeD_succ, List.cons_eq_cons, ← ih]
    by_cases hhead : r.head?.getD 0 = a
    · simp [hhead]
    · -- both bounds decide by the first segment, and alike
      have hne : compare a (r.head?.getD 0) ≠ .eq := fun h => hhead (eq_of_compare_word h).symm
      cases hcmp : compare a (r.head?.getD 0) with
      | lt => simp [hhead]
      | eq => exact absurd hcmp hne
      | gt => simp [hhead]

end

namespace Version

variable {v w : Version} {epoch : UInt64} {release : List UInt64}

/-- A release begins with segments when they are left of it after it is continued with zeros and cut
to their number. -/
lemma startsWith_iff_takeD {segments : List UInt64} :
    v.startsWith segments = true ↔ v.release.takeD segments.length 0 = segments := by
  rw [startsWith_iff]
  simp only [segment]
  generalize v.release = r
  induction segments generalizing r with
  | nil => simp
  | cons a as ih =>
    simp only [List.length_cons, List.takeD_succ, List.cons_eq_cons, ← ih]
    constructor
    · intro h
      refine ⟨?_, fun i hi => ?_⟩
      · simpa [List.head?_eq_getElem?] using h 0 (Nat.succ_pos _)
      · simpa using h (i + 1) (Nat.succ_lt_succ hi)
    · rintro ⟨hhead, htail⟩ i hi
      cases i with
      | zero => simpa [List.head?_eq_getElem?] using hhead
      | succ i => simpa using htail i (Nat.lt_of_succ_lt_succ hi)

/-! ### The least version of a release -/

/-- The place of a version among those of its release. -/
def suffixPlace (v : Version) :
    WithBot (WithTop (ℕ ×ₗ ℕ)) ×ₗ WithBot ℕ ×ₗ WithTop ℕ ×ₗ List (String ⊕ₗ ℕ) :=
  toLex (v.prePlace, toLex (v.postPlace, toLex (v.devPlace, v.label.map LocalPart.place)))

/-- Epochs are compared first, releases second, and suffixes last. -/
lemma place_le_place_iff : v.place ≤ w.place ↔
    v.epoch < w.epoch ∨ v.epoch = w.epoch ∧ (significant v.release < significant w.release ∨
      significant v.release = significant w.release ∧ v.suffixPlace ≤ w.suffixPlace) := by
  rw [place, place, Prod.Lex.toLex_le_toLex, Prod.Lex.toLex_le_toLex, UInt64.lt_iff_toNat_lt,
    ← UInt64.toNat_inj]
  rfl

/-- The development release 0 of a release. -/
def first (epoch : UInt64) (release : List UInt64) : Version := { epoch, release, dev := some 0 }

lemma suffixPlace_first_le : (first epoch release).suffixPlace ≤ v.suffixPlace := by
  have hdev : (first epoch release).devPlace ≤ v.devPlace := by
    show (⊥ : WithTop ℕ) ≤ v.devPlace
    exact bot_le
  have hlabel : (first epoch release).label.map LocalPart.place ≤ v.label.map LocalPart.place :=
    not_lt.mp (List.not_lt_nil _)
  exact Prod.Lex.toLex_mono ⟨bot_le, Prod.Lex.toLex_mono ⟨bot_le,
    Prod.Lex.toLex_mono ⟨hdev, hlabel⟩⟩⟩

/-- No version of a release is before its development release 0. -/
lemma first_atMost_iff : (first epoch release).atMost v = true ↔
    epoch < v.epoch ∨ epoch = v.epoch ∧ compareRelease release v.release ≠ .gt := by
  rw [atMost_iff_place_le, place_le_place_iff, and_iff_left suffixPlace_first_le, ← le_iff_lt_or_eq,
    (compares_significant _ _).ne_gt]
  rfl

lemma before_iff_not_atMost : v.before w = true ↔ ¬ w.atMost v = true := by
  rw [before_iff_place_lt, atMost_iff_place_le, not_le]

/-- From the least version of a release up to the least one of the next release are the versions
whose release begins like the first. -/
lemma between_first_iff (init : List UInt64) {n : UInt64} (hn : n.toNat < 2 ^ 64 - 1) :
    (first epoch (init ++ [n])).atMost v = true ∧ v.before (first epoch (init ++ [n + 1])) = true ↔
      v.epoch = epoch ∧ v.startsWith (init ++ [n]) = true := by
  rw [before_iff_not_atMost, first_atMost_iff, first_atMost_iff, startsWith_iff_takeD,
    ← compareRelease_between_iff hn]
  constructor
  · rintro ⟨hlow | ⟨rfl, hlow⟩, hhigh⟩
    · exact absurd (.inl hlow) hhigh
    · refine ⟨rfl, hlow, ?_⟩
      by_contra h
      exact hhigh (.inr ⟨rfl, h⟩)
  · rintro ⟨rfl, hlow, hhigh⟩
    simp [hlow, hhigh]

/-! ### How a release is written -/

/-- The texts of a release in an epoch. The epoch 0 can be left out. -/
inductive Writes (epoch : UInt64) (release : List UInt64) : String → Prop
  | full : Writes epoch release
      (String.ofList (Text.Numeral.digits epoch ++ '!' :: dotted release))
  | bare (h : epoch = 0) : Writes epoch release (String.ofList (dotted release))

/-- What is printed of a version in the epoch 0 can be read with the epoch before it. -/
lemma IsPrintable.exists_reading_zero (h : v.IsPrintable) (hepoch : v.epoch = 0) :
    ∃ r : Reading, r.text = '0' :: '!' :: v.render ∧ r.IsEarly ∧ r.version = v := by
  obtain ⟨n, ns, hrelease⟩ := List.exists_cons_of_ne_nil h.release
  obtain ⟨label, htext, hparts⟩ := exists_printed_label h.label
  let r := Reading.printed v n ns label
  have hnone : r.epoch = none := if_pos hepoch
  have hearly : r.IsEarly := Reading.isEarly_printed
  have hversion : r.version = v := Reading.version_printed hrelease hparts
  refine ⟨{ r with epoch := some (.ofNumber 0) }, ?_, ⟨hearly.pre, hearly.post, hearly.dev⟩, ?_⟩
  · rw [← Reading.text_printed hrelease htext]
    show _ = '0' :: '!' :: (_ ++ (r.epoch.elim [] _ ++ r.releaseText))
    rw [hnone]
    rfl
  · rw [← hversion, Reading.version, Reading.version, hnone]
    simp [Numeral.value_ofNumber]

section

variable {s : String} {suffix : List Char}

/-- However its release is written, a version is read from the text and the suffixes after it. -/
lemma Writes.exists_reading (h : Writes v.epoch v.release s) (hv : v.IsPrintable)
    (hrender : v.render = epochPart v.epoch ++ (dotted v.release ++ suffix)) :
    ∃ r : Reading, r.text = s.toList ++ suffix ∧ r.IsEarly ∧ r.version = v := by
  by_cases hepoch : v.epoch = 0
  · rw [hepoch, epochPart, if_pos rfl, List.nil_append] at hrender
    cases h with
    | full =>
      obtain ⟨r, htext, hr⟩ := hv.exists_reading_zero hepoch
      refine ⟨r, ?_, hr⟩
      rw [htext, hrender, hepoch, String.toList_ofList]
      rfl
    | bare =>
      obtain ⟨r, htext, hr⟩ := hv.exists_reading
      exact ⟨r, by rw [htext, hrender, String.toList_ofList], hr⟩
  · rw [epochPart, if_neg hepoch] at hrender
    cases h with
    | full =>
      obtain ⟨r, htext, hr⟩ := hv.exists_reading
      refine ⟨r, ?_, hr⟩
      rw [htext, hrender, String.toList_ofList]
      simp
    | bare h => exact absurd h hepoch

lemma Reading.ofText_text (r : Reading) (h : r.IsEarly) :
    ofText (String.ofList r.text) = .ok r.version := by
  have bare : ∀ c ∈ r.text, Text.isBlank c = false :=
    fun c hc => not_isBlank_of_isGrammarChar (inGrammar_text r c hc)
  rw [ofText, String.toList_ofList, Text.trim_eq_self bare, lower_of_inGrammar (inGrammar_text r),
    r.ofLowered_text h]

lemma Writes.exists_reading_release (h : Writes epoch release s) (hne : release ≠ []) :
    ∃ r : Reading, r.text = s.toList ∧ r.IsEarly ∧ r.version = { epoch, release } := by
  have hv : IsPrintable { epoch, release } := ⟨hne, by simp⟩
  have hrender : render { epoch, release } = epochPart epoch ++ (dotted release ++ []) := by
    simp [render, prePart, postPart, devPart, labelPart]
  obtain ⟨r, htext, hr⟩ := exists_reading h hv hrender
  exact ⟨r, by rw [htext, List.append_nil], hr⟩

lemma Writes.parse_first (h : Writes epoch release s) (hne : release ≠ []) :
    Version.parse (s ++ ".dev0") = .ok (first epoch release) := by
  have hv : (first epoch release).IsPrintable := ⟨hne, by simp [first]⟩
  have hrender : (first epoch release).render =
      epochPart epoch ++ (dotted release ++ ".dev0".toList) := by
    simp [render, first, prePart, postPart, devPart, labelPart]
    rfl
  obtain ⟨r, htext, hearly, hversion⟩ := exists_reading h hv hrender
  rw [← String.toList_append] at htext
  rw [Version.parse, mapError_eq_ok, ← hversion, ← r.ofText_text hearly, htext,
    String.ofList_toList]

end

end Version

namespace Specifier

variable {epoch : UInt64} {release : List UInt64} {shared : ℕ}

/-! ### Wildcards -/

lemma contains_equal_wildcard (c : Version) :
    contains ⟨.equal, .wildcard epoch release, shared⟩ c = true ↔
      c.epoch = epoch ∧ c.startsWith release = true := by
  simp [contains]

lemma contains_notEqual_wildcard (c : Version) :
    contains ⟨.notEqual, .wildcard epoch release, shared⟩ c =
      !contains ⟨.equal, .wildcard epoch release, shared⟩ c := by
  simp [contains]

/-- However it is spelled, a wildcard asks for a version that it admits or for any other. -/
lemma eq_of_parse_wildcard {t : String} {x : Specifier} (h : Specifier.parse t = .ok x)
    (hx : x.operand = .wildcard epoch release) :
    x = ⟨.equal, .wildcard epoch release, 0⟩ ∨ x = ⟨.notEqual, .wildcard epoch release, 0⟩ := by
  obtain ⟨op, rest, -, -, -, shape⟩ := exists_operandShape_of_parse h
  cases shape with
  | text | compatible | version => cases hx
  | wildcard stem v hop =>
    cases hx
    cases op with
    | equal => exact .inl rfl
    | notEqual => exact .inr rfl
    | _ => cases hop

/-- However the release of a wildcard is written, it is read with the mark after it. -/
lemma parse_of_writes (op : Operator) {s : String} (hop : op.isEquality = true)
    (h : Version.Writes epoch release s) (hne : release ≠ []) :
    Specifier.parse (op.symbol ++ s ++ ".*") = .ok ⟨op, .wildcard epoch release, 0⟩ := by
  obtain ⟨r, htext, hearly, hversion⟩ := h.exists_reading_release hne
  have hstem : readVersion r.text = .ok { epoch, release } := by
    rw [readVersion, mapError_eq_ok, r.ofText_text hearly, hversion]
  have hparse := parse_wildcard op hop (Version.inGrammar_text r) hstem
  rwa [htext, String.ofList_toList] at hparse

/-! ### Main statement -/

/-- A wildcard `==E!R.*` admits the versions from `E!R.dev0` on that are before `E!R'.dev0`, where
`R'` is `R` with its last segment increased by one; and `!=E!R.*` admits all others. There are no
other clauses with this wildcard. -/
theorem contains_wildcard_iff (epoch : UInt64) (init : List UInt64) {n : UInt64}
    (hn : n.toNat < 2 ^ 64 - 1) :
    ∃ x y low high,
      (∀ s, Version.Writes epoch (init ++ [n]) s →
        Specifier.parse ("==" ++ s ++ ".*") = .ok x ∧
        Specifier.parse ("!=" ++ s ++ ".*") = .ok y ∧
        Version.parse (s ++ ".dev0") = .ok low) ∧
      (∀ s, Version.Writes epoch (init ++ [n + 1]) s → Version.parse (s ++ ".dev0") = .ok high) ∧
      (∀ c : Version,
        (x.contains c = true ↔
          low.atMost c.withoutLocal = true ∧ c.withoutLocal.before high = true) ∧
        (y.contains c = true ↔ x.contains c = false)) ∧
      ∀ t z, Specifier.parse t = .ok z → z.operand = .wildcard epoch (init ++ [n]) →
        z = x ∨ z = y := by
  have hne (m : UInt64) : init ++ [m] ≠ [] := by simp
  refine ⟨_, _, .first epoch (init ++ [n]), .first epoch (init ++ [n + 1]),
    fun s hs => ⟨?_, ?_, ?_⟩, fun s hs => hs.parse_first (hne _), fun c => ⟨?_, ?_⟩,
    fun t z => eq_of_parse_wildcard⟩
  · exact parse_of_writes .equal rfl hs (hne n)
  · exact parse_of_writes .notEqual rfl hs (hne n)
  · exact hs.parse_first (hne n)
  · rw [contains_equal_wildcard, Version.between_first_iff init hn, Version.startsWith_withoutLocal,
      Version.epoch_withoutLocal]
  · rw [contains_notEqual_wildcard, Bool.not_eq_true']

/-- A zero at the end of a wildcard need not be written in a candidate, and the candidate's local
label does not count. The least version of the next release is no longer admitted. -/
theorem contains_wildcard_iff_zeros :
    ∃ x y low high c, Specifier.parse "==0!3.0.*" = .ok x ∧ Specifier.parse "==3.0.*" = .ok x ∧
      Specifier.parse "!=3.0.*" = .ok y ∧ Version.parse "3.0.dev0" = .ok low ∧
      Version.parse "0!3.1.dev0" = .ok high ∧ Version.parse "3.dev0+ubuntu" = .ok c ∧
      (0 : UInt64).toNat < 2 ^ 64 - 1 ∧ (x.contains c = true ∧ y.contains c = false) ∧
      x.contains high = false ∧ y.contains high = true := by
  have hlast : (0 : UInt64).toNat < 2 ^ 64 - 1 := by decide
  have hbare : Version.Writes 0 [3, 0] "3.0" := .bare rfl
  have hfull : Version.Writes 0 [3, 0] "0!3.0" := .full
  have hnext : Version.Writes 0 [3, 1] "0!3.1" := .full
  obtain ⟨x, y, low, high, hclauses, hhigh, hcontains, -⟩ := contains_wildcard_iff 0 [3] hlast
  obtain ⟨hx, hy, hlow⟩ := hclauses "3.0" hbare
  obtain rfl : .first 0 [3, 0] = low :=
    Except.ok.inj ((hbare.parse_first (by simp)).symm.trans hlow)
  obtain rfl : .first 0 [3, 1] = high :=
    Except.ok.inj ((hnext.parse_first (by simp)).symm.trans (hhigh "0!3.1" hnext))
  let c : Version := { release := [3], dev := some 0, label := [.text "ubuntu"] }
  have admitted : x.contains c = true :=
    (hcontains c).1.mpr ((Version.between_first_iff [3] hlast).mpr ⟨rfl, by decide⟩)
  have excluded : x.contains (.first 0 [3, 1]) = false := by
    rw [← Bool.not_eq_true, (hcontains _).1, not_and]
    intro _
    rw [Version.before_iff_not_atMost, not_not]
    exact Version.atMost_self _
  refine ⟨x, y, _, _, c, (hclauses "0!3.0" hfull).1, hx, hy, hlow, hhigh "0!3.1" hnext,
    by decide +kernel, hlast, ⟨admitted, ?_⟩, excluded, (hcontains _).2.mpr excluded⟩
  rw [← Bool.not_eq_true, (hcontains c).2, admitted]
  decide

end Specifier

end ProjectScope

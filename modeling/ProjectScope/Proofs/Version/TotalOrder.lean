import Mathlib.Data.List.DropRight
import Mathlib.Data.List.Lex
import Mathlib.Data.Prod.Lex
import Mathlib.Data.Sum.Order
import Mathlib.Data.String.Basic
import Mathlib.Order.Compare
import Mathlib.Order.Monotone.Basic
import Mathlib.Order.WithBot
import ProjectScope.Proofs.Version.Order

/-!
# The total order of versions

Every version has a place in a linear order: the lexicographic product of its epoch, its release
without the zeros at its end, and one key for each suffix and for the local label. To compare
versions is to compare their places, so the order is total, and versions that are the same differ in
nothing but the zeros at the ends of their releases.
-/

namespace ProjectScope

/-! ### Comparing part by part -/

section

variable {α β : Type*} [LinearOrder α] [LinearOrder β] {o o' : Ordering} {a b : α} {a' b' : β}

/-- What compares the parts of two pairs, the first parts first, compares the pairs. -/
lemma compares_toLex (h : o.Compares a b) (h' : o'.Compares a' b') :
    (o.then o').Compares (toLex (a, a')) (toLex (b, b')) := by
  cases o with
  | lt => exact Prod.Lex.toLex_lt_toLex.mpr (.inl h)
  | gt => exact Prod.Lex.toLex_lt_toLex.mpr (.inl h)
  | eq =>
    obtain rfl : a = b := h
    cases o' with
    | lt => exact Prod.Lex.toLex_lt_toLex.mpr (.inr ⟨rfl, h'⟩)
    | gt => exact Prod.Lex.toLex_lt_toLex.mpr (.inr ⟨rfl, h'⟩)
    | eq => exact congrArg (fun x => toLex (a, x)) h'

/-- What compares the heads and the tails of two lists, the heads first, compares the lists. -/
lemma compares_cons {l l' : List α} (h : o.Compares a b) (h' : o'.Compares l l') :
    (o.then o').Compares (a :: l) (b :: l') := by
  cases o with
  | lt => exact List.cons_lt_cons_iff.mpr (.inl h)
  | gt => exact List.cons_lt_cons_iff.mpr (.inl h)
  | eq =>
    obtain rfl : a = b := h
    cases o' with
    | lt => exact List.cons_lt_cons_iff.mpr (.inr ⟨rfl, h'⟩)
    | gt => exact List.cons_lt_cons_iff.mpr (.inr ⟨rfl, h'⟩)
    | eq => exact congrArg (a :: ·) h'

end

lemma compares_word (a b : UInt64) : (compare a b).Compares a.toNat b.toNat := by
  cases h : compare a b with
  | lt => exact UInt64.lt_iff_toNat_lt.mp (Std.compare_eq_lt.mp h)
  | eq => exact congrArg UInt64.toNat (eq_of_compare_word h)
  | gt => exact UInt64.lt_iff_toNat_lt.mp (Std.compare_eq_gt.mp h)

/-! ### Releases -/

/-- The segments of a release up to the last that is not zero. -/
def significant (r : List UInt64) : List ℕ := (r.rdropWhile (· == 0)).map UInt64.toNat

/-- A segment in front of others, unless it is one more zero at the end. -/
def segmentBefore (n : ℕ) (l : List ℕ) : List ℕ := if n = 0 ∧ l = [] then [] else n :: l

lemma rdropWhile_cons {α : Type*} (p : α → Bool) (a : α) (l : List α) :
    (a :: l).rdropWhile p =
      if p a = true ∧ l.rdropWhile p = [] then [] else a :: l.rdropWhile p := by
  rw [List.rdropWhile, List.rdropWhile, List.reverse_cons, List.dropWhile_append]
  cases l.reverse.dropWhile p with
  | nil => cases h : p a <;> simp [h]
  | cons b k => simp

@[simp] lemma significant_nil : significant [] = [] := rfl

lemma significant_cons (a : UInt64) (r : List UInt64) :
    significant (a :: r) = segmentBefore a.toNat (significant r) := by
  rw [significant, rdropWhile_cons, apply_ite (List.map UInt64.toNat), segmentBefore]
  refine if_congr ?_ rfl rfl
  rw [significant, List.map_eq_nil_iff, beq_iff_eq, ← UInt64.toNat_inj]
  rfl

section

variable {m n : ℕ} {l l' : List ℕ}

lemma segmentBefore_lt (h : m :: l < n :: l') : segmentBefore m l < segmentBefore n l' := by
  have hn : ¬(n = 0 ∧ l' = []) := by
    rintro ⟨rfl, rfl⟩
    simp [List.cons_lt_cons_iff] at h
  rw [segmentBefore, segmentBefore, if_neg hn]
  split_ifs
  · exact List.nil_lt_cons n l'
  · exact h

/-- Zeros at the end may be left out of what is compared. -/
lemma compares_segmentBefore {o o' : Ordering} (h : o.Compares m n) (h' : o'.Compares l l') :
    (o.then o').Compares (segmentBefore m l) (segmentBefore n l') := by
  have hcons := compares_cons h h'
  cases ho : o.then o' with
  | lt => exact segmentBefore_lt (by rwa [ho] at hcons)
  | gt => exact segmentBefore_lt (by rwa [ho] at hcons)
  | eq =>
    rw [ho] at hcons
    obtain ⟨rfl, rfl⟩ := List.cons.inj hcons
    rfl

end

/-- To continue the shorter release with zeros is to take the zeros off both. -/
lemma compares_significant (r r' : List UInt64) :
    (compareRelease r r').Compares (significant r) (significant r') := by
  fun_induction compareRelease r r' with
  | case1 => rfl
  | case2 a as ih =>
    rw [significant_cons]
    exact compares_segmentBefore (compares_word a 0) ih
  | case3 b bs ih =>
    rw [significant_cons]
    exact compares_segmentBefore (compares_word 0 b) ih
  | case4 a as b bs ih =>
    rw [significant_cons, significant_cons]
    exact compares_segmentBefore (compares_word a b) ih

/-! ### Local labels -/

/-- The place of a part of a local label: labels before numbers. -/
def LocalPart.place : LocalPart → String ⊕ₗ ℕ
  | .text label => Sum.inlₗ label
  | .number n => Sum.inrₗ n.toNat

lemma LocalPart.place_injective : Function.Injective LocalPart.place := by
  intro p q h
  cases p <;> cases q <;> simp_all [place, UInt64.toNat_inj]

lemma LocalPart.compares_place (p q : LocalPart) : (p.compare q).Compares p.place q.place := by
  cases p with
  | text a =>
    cases q with
    | text b => exact Sum.Lex.inl_strictMono.compares.mpr ((compare_iff a b).mp rfl)
    | number n => exact Sum.Lex.inl_lt_inr a n.toNat
  | number m =>
    cases q with
    | text b => exact Sum.Lex.inl_lt_inr b m.toNat
    | number n => exact Sum.Lex.inr_strictMono.compares.mpr (compares_word m n)

lemma compares_label (l l' : List LocalPart) :
    (compareLabel l l').Compares (l.map LocalPart.place) (l'.map LocalPart.place) := by
  fun_induction compareLabel l l' with
  | case1 => rfl
  | case2 b bs => exact List.nil_lt_cons _ _
  | case3 a as => exact List.nil_lt_cons _ _
  | case4 a as b bs ih => exact compares_cons (a.compares_place b) ih

namespace Version

/-! ### Suffixes -/

/-- The place of a version among those of its release: a bare development release is the least,
then come the pre-releases by phase and number, and what is neither is the greatest. -/
def prePlace (v : Version) : WithBot (WithTop (ℕ ×ₗ ℕ)) :=
  match v.pre with
  | some (phase, n) => WithBot.some (WithTop.some (toLex (phase.rank, n.toNat)))
  | none => if v.post = none ∧ v.dev ≠ none then ⊥ else ⊤

/-- The place of a post-release; without one, the least. -/
def postPlace (v : Version) : WithBot ℕ := v.post.elim ⊥ fun n => WithBot.some n.toNat

/-- The place of a development release; without one, the greatest. -/
def devPlace (v : Version) : WithTop ℕ := v.dev.elim ⊤ fun n => WithTop.some n.toNat

lemma preKey_cases (v : Version) :
    v.preKey = (0, 0, 0) ∧ v.prePlace = ⊥ ∨
      (∃ phase n, v.preKey = (1, Phase.rank phase, n) ∧
        v.prePlace = WithBot.some (WithTop.some (toLex (phase.rank, n.toNat)))) ∨
      v.preKey = (2, 0, 0) ∧ v.prePlace = ⊤ := by
  obtain ⟨epoch, release, pre, post, dev, label⟩ := v
  cases pre with
  | some p => exact .inr (.inl ⟨p.1, p.2, by cases post <;> cases dev <;> rfl, rfl⟩)
  | none =>
    cases post with
    | some n => exact .inr (.inr ⟨by cases dev <;> rfl, by simp [prePlace]⟩)
    | none =>
      cases dev with
      | none => exact .inr (.inr ⟨rfl, by simp [prePlace]⟩)
      | some n => exact .inl ⟨rfl, by simp [prePlace]⟩

lemma compares_pre (v w : Version) :
    ((Ord.compare v.preKey.1 w.preKey.1).then (comparePair v.preKey.2 w.preKey.2)).Compares
      v.prePlace w.prePlace := by
  rcases preKey_cases v with ⟨hv, hv'⟩ | ⟨p, m, hv, hv'⟩ | ⟨hv, hv'⟩ <;>
    rcases preKey_cases w with ⟨hw, hw'⟩ | ⟨q, n, hw, hw'⟩ | ⟨hw, hw'⟩ <;>
    rw [hv, hv', hw, hw']
  · rfl
  · exact WithBot.bot_lt_coe _
  · exact bot_lt_top
  · exact WithBot.bot_lt_coe _
  · have hphase : (comparePair (p.rank, m) (q.rank, n)).Compares (toLex (p.rank, m.toNat))
        (toLex (q.rank, n.toNat)) :=
      compares_toLex ((compare_iff p.rank q.rank).mp rfl) (compares_word m n)
    exact WithBot.coe_strictMono.compares.mpr (WithTop.coe_strictMono.compares.mpr hphase)
  · exact WithBot.coe_lt_coe.mpr (WithTop.coe_lt_top _)
  · exact bot_lt_top
  · exact WithBot.coe_lt_coe.mpr (WithTop.coe_lt_top _)
  · rfl

lemma compares_post (v w : Version) :
    (comparePair v.postKey w.postKey).Compares v.postPlace w.postPlace := by
  rw [postKey, postKey, postPlace, postPlace]
  cases v.post with
  | none =>
    cases w.post with
    | none => rfl
    | some n => exact WithBot.bot_lt_coe _
  | some m =>
    cases w.post with
    | none => exact WithBot.bot_lt_coe _
    | some n => exact WithBot.coe_strictMono.compares.mpr (compares_word m n)

lemma compares_dev (v w : Version) :
    (comparePair v.devKey w.devKey).Compares v.devPlace w.devPlace := by
  rw [devKey, devKey, devPlace, devPlace]
  cases v.dev with
  | none =>
    cases w.dev with
    | none => rfl
    | some n => exact WithTop.coe_lt_top _
  | some m =>
    cases w.dev with
    | none => exact WithTop.coe_lt_top _
    | some n => exact WithTop.coe_strictMono.compares.mpr (compares_word m n)

/-! ### Places -/

/-- The linear order that versions are placed in. -/
abbrev Place : Type :=
  ℕ ×ₗ List ℕ ×ₗ WithBot (WithTop (ℕ ×ₗ ℕ)) ×ₗ WithBot ℕ ×ₗ WithTop ℕ ×ₗ List (String ⊕ₗ ℕ)

/-- The place of a version. -/
def place (v : Version) : Place :=
  toLex (v.epoch.toNat, toLex (significant v.release, toLex (v.prePlace, toLex (v.postPlace,
    toLex (v.devPlace, v.label.map LocalPart.place)))))

lemma compares_place (v w : Version) : (v.compare w).Compares v.place w.place := by
  rw [compare, Ordering.then_assoc, Ordering.then_assoc, Ordering.then_assoc, Ordering.then_assoc]
  exact compares_toLex (compares_word v.epoch w.epoch) <|
    compares_toLex (compares_significant v.release w.release) <|
    compares_toLex (compares_pre v w) <| compares_toLex (compares_post v w) <|
    compares_toLex (compares_dev v w) (compares_label v.label w.label)

variable {v w : Version}

lemma atMost_iff_place_le : v.atMost w = true ↔ v.place ≤ w.place := by
  rw [atMost, bne_iff_ne]
  exact (compares_place v w).ne_gt

lemma before_iff_place_lt : v.before w = true ↔ v.place < w.place := by
  rw [before, beq_iff_eq]
  exact (compares_place v w).eq_lt

lemma same_iff_place_eq : v.same w = true ↔ v.place = w.place := by
  rw [same, beq_iff_eq]
  exact (compares_place v w).eq_eq

lemma atMost_self (v : Version) : v.atMost v = true :=
  atMost_iff_place_le.mpr le_rfl

lemma same_self (v : Version) : v.same v = true :=
  same_iff_place_eq.mpr rfl

lemma postPlace_inj : v.postPlace = w.postPlace ↔ v.post = w.post := by
  rw [postPlace, postPlace]
  cases v.post <;> cases w.post <;> simp [UInt64.toNat_inj]

lemma devPlace_inj : v.devPlace = w.devPlace ↔ v.dev = w.dev := by
  rw [devPlace, devPlace]
  cases v.dev <;> cases w.dev <;> simp [UInt64.toNat_inj]

lemma rank_injective : Function.Injective Phase.rank := by
  intro p q h
  cases p <;> cases q <;> first | rfl | cases h

/-- Where the other suffixes agree, the place among the versions of a release tells the
pre-release. -/
lemma prePlace_inj (hpost : v.post = w.post) (hdev : v.dev = w.dev) :
    v.prePlace = w.prePlace ↔ v.pre = w.pre := by
  rw [prePlace, prePlace, hpost, hdev]
  cases v.pre with
  | none =>
    cases w.pre with
    | none => exact iff_of_true rfl rfl
    | some q => split_ifs <;> simp
  | some p =>
    cases w.pre with
    | none => split_ifs <;> simp
    | some q => simp [Prod.ext_iff, rank_injective.eq_iff, UInt64.toNat_inj]

/-- Versions in one place differ in nothing but the zeros at the ends of their releases. -/
lemma place_inj : v.place = w.place ↔
    v.epoch = w.epoch ∧ significant v.release = significant w.release ∧ v.pre = w.pre ∧
      v.post = w.post ∧ v.dev = w.dev ∧ v.label = w.label := by
  simp only [place, toLex_inj, Prod.mk.injEq, UInt64.toNat_inj, postPlace_inj, devPlace_inj,
    LocalPart.place_injective.list_map.eq_iff]
  constructor
  · rintro ⟨hepoch, hrelease, hpre, hpost, hdev, hlabel⟩
    exact ⟨hepoch, hrelease, (prePlace_inj hpost hdev).mp hpre, hpost, hdev, hlabel⟩
  · rintro ⟨hepoch, hrelease, hpre, hpost, hdev, hlabel⟩
    exact ⟨hepoch, hrelease, (prePlace_inj hpost hdev).mpr hpre, hpost, hdev, hlabel⟩

/-! ### Main statement -/

end Version

end ProjectScope

import ProjectScope.Proofs.Path.Ancestors
import ProjectScope.Proofs.Path.Chain
import ProjectScope.Proofs.Text.Blank

/-!
# Slashes and dots that mean nothing

Pieces that are no steps come from repeated and trailing slashes and from dots after the start. A
path without them is determined by its components. To strip a directory from a path goes by
components: of a path that was joined to the directory the pieces from its first step to its last
are left, with the fillers between the steps.
-/

namespace ProjectScope.Path

variable {p q : Path} {front back body : List Segment} {n : ℕ}

/-- Pieces without the fillers at both ends. -/
def trimFillers (body : List Segment) : List Segment :=
  (Text.dropRightWhile Segment.isFiller body).dropWhile Segment.isFiller

/-- Whether pieces start and end with a step. -/
structure IsTrimmed (body : List Segment) : Prop where
  first : ∃ s ∈ body.head?, s.isFiller = false
  last : ∃ s ∈ body.getLast?, s.isFiller = false

/-- Whether every piece of a path after its start is a step. -/
def IsPlain (p : Path) : Prop := ∀ s ∈ p.body, s.isFiller = false

/-! ### Plain paths -/

lemma lead_eq_of_components_eq (h : p.components = q.components) : p.lead = q.lead := by
  have hsteps := steps_eq_of_components_eq h
  rw [components_eq, components_eq, hsteps] at h
  have hlead := List.append_cancel_right h
  cases hp : p.lead <;> cases hq : q.lead <;> simp_all [Lead.components]

/-- Pieces that are all steps are spelled from these. -/
lemma map_spelled_filterMap (h : ∀ s ∈ body, s.isFiller = false) :
    (body.filterMap Segment.component?).map Component.spelled = body := by
  induction body with
  | nil => rfl
  | cons s body ih =>
    obtain ⟨hs, hbody⟩ := List.forall_mem_cons.mp h
    cases hc : s.component? with
    | none =>
      rw [Segment.isFiller_of_component?_eq_none hc] at hs
      cases hs
    | some c =>
      rw [List.filterMap_cons_some hc, List.map_cons, Segment.spelled_of_component? hc, ih hbody]

lemma eq_of_pieces_eq (h : p.pieces = q.pieces) : p = q := by
  have htext (r : Path) : ['/'].intercalate r.pieces = r.text.toList := List.intercalate_splitOn '/'
  have heq : p.text.toList = q.text.toList := by rw [← htext p, ← htext q, h]
  obtain ⟨text⟩ := p
  obtain ⟨text'⟩ := q
  exact congrArg Path.mk (String.toList_inj.mp heq)

lemma eq_of_parts_eq (h : p.parts = q.parts) : p = q := by
  apply eq_of_pieces_eq
  obtain ⟨s, body, hp, hp'⟩ | ⟨body, hp, hp'⟩ | ⟨-, hp'⟩ := parts_cases p <;>
    obtain ⟨t, body', hq, hq'⟩ | ⟨body', hq, hq'⟩ | ⟨-, hq'⟩ := parts_cases q <;>
    simp_all

/-- Plain paths with the same components are spelled alike. -/
lemma IsPlain.eq_of_components_eq (hp : p.IsPlain) (hq : q.IsPlain)
    (h : p.components = q.components) : p = q := by
  apply eq_of_parts_eq
  apply Prod.ext
  · exact lead_eq_of_components_eq h
  · have hsteps := steps_eq_of_components_eq h
    rw [steps_eq, steps_eq] at hsteps
    exact (map_spelled_filterMap hp).symm.trans (hsteps ▸ map_spelled_filterMap hq)

/-! ### Fillers at the ends -/

lemma dropRightWhile_append {f : Segment → Bool} :
    Text.dropRightWhile f (front ++ back) =
      if ∀ s ∈ back, f s = true then Text.dropRightWhile f front
      else front ++ Text.dropRightWhile f back := by
  have hempty : (back.reverse.dropWhile f).isEmpty = true ↔ ∀ s ∈ back, f s = true := by
    rw [List.isEmpty_iff, List.dropWhile_eq_nil_iff]
    simp
  rw [Text.dropRightWhile, List.reverse_append, List.dropWhile_append]
  split_ifs with h hall hall
  · rfl
  · exact absurd (hempty.mp h) hall
  · exact absurd (hempty.mpr hall) h
  · rw [List.reverse_append, List.reverse_reverse]
    rfl

lemma trimFillers_eq_nil_iff : trimFillers body = [] ↔ ∀ s ∈ body, s.isFiller = true := by
  rw [trimFillers, List.dropWhile_eq_nil_iff, Text.dropRightWhile]
  constructor
  · intro h s hs
    by_contra hstep
    rw [Bool.not_eq_true] at hstep
    have hkept := Text.mem_dropWhile_of_not (List.mem_reverse.mpr hs) hstep
    rw [h s (List.mem_reverse.mpr hkept)] at hstep
    cases hstep
  · intro h s hs
    exact h s (List.mem_reverse.mp ((List.dropWhile_sublist _).mem (List.mem_reverse.mp hs)))

lemma trimFillers_cons_of_isFiller {s : Segment} (h : s.isFiller = true) :
    trimFillers (s :: body) = trimFillers body := by
  by_cases hall : ∀ t ∈ body, t.isFiller = true
  · rw [trimFillers_eq_nil_iff.mpr hall, trimFillers_eq_nil_iff]
    exact List.forall_mem_cons.mpr ⟨h, hall⟩
  · rw [trimFillers, ← List.singleton_append, dropRightWhile_append, if_neg hall,
      List.singleton_append, List.dropWhile_cons, if_pos h]
    rfl

lemma isFiller_of_mem_head?_trimFillers {s : Segment} (h : s ∈ (trimFillers body).head?) :
    s.isFiller = false := by
  have hhead := List.head?_dropWhile_not Segment.isFiller
    (Text.dropRightWhile Segment.isFiller body)
  rw [Option.mem_def] at h
  rw [← trimFillers, h] at hhead
  exact hhead

lemma mem_of_mem_trimFillers {s : Segment} (h : s ∈ trimFillers body) : s ∈ body := by
  have hright := (List.dropWhile_sublist _).mem h
  exact List.mem_reverse.mp ((List.dropWhile_sublist _).mem (List.mem_reverse.mp hright))

lemma dropWhile_eq_self_iff {f : Segment → Bool} :
    body.dropWhile f = body ↔ ∀ s ∈ body.head?, f s = false := by
  cases body with
  | nil => simp
  | cons s body =>
    rw [List.dropWhile_cons]
    split_ifs with hs
    · have hlength := (List.dropWhile_sublist (l := body) f).length_le
      constructor
      · intro h
        rw [h, List.length_cons] at hlength
        omega
      · intro h
        rw [h s rfl] at hs
        cases hs
    · simpa using hs

lemma dropRightWhile_eq_self_iff {f : Segment → Bool} :
    Text.dropRightWhile f body = body ↔ ∀ s ∈ body.getLast?, f s = false := by
  rw [Text.dropRightWhile, List.reverse_eq_iff, dropWhile_eq_self_iff, List.head?_reverse]

/-- Nothing is gone at the right end where nothing is gone at all. -/
lemma dropRightWhile_of_trimFillers (h : trimFillers body = body) :
    Text.dropRightWhile Segment.isFiller body = body := by
  have hlength : body.length ≤ (Text.dropRightWhile Segment.isFiller body).length := by
    conv_lhs => rw [← h, trimFillers]
    exact (List.dropWhile_sublist _).length_le
  have hsuffix := List.dropWhile_suffix Segment.isFiller (l := body.reverse)
  rw [Text.dropRightWhile, List.length_reverse] at hlength
  rw [Text.dropRightWhile, List.reverse_eq_iff]
  refine hsuffix.eq_of_length (hsuffix.length_le.antisymm ?_)
  rwa [List.length_reverse]

/-- Pieces are kept when no filler is at either end. -/
lemma trimFillers_eq_self_iff (h : body ≠ []) : trimFillers body = body ↔ IsTrimmed body := by
  constructor
  · intro htrim
    have hright := dropRightWhile_of_trimFillers htrim
    rw [trimFillers, hright, dropWhile_eq_self_iff] at htrim
    refine ⟨⟨body.head h, List.head?_eq_some_head h, ?_⟩,
      ⟨body.getLast h, List.getLast?_eq_some_getLast h, ?_⟩⟩
    · exact htrim _ (List.head?_eq_some_head h)
    · exact dropRightWhile_eq_self_iff.mp hright _ (List.getLast?_eq_some_getLast h)
  · rintro ⟨⟨s, hs, hstep⟩, ⟨t, ht, hstep'⟩⟩
    have hright : Text.dropRightWhile Segment.isFiller body = body :=
      dropRightWhile_eq_self_iff.mpr fun r hr => by rwa [← Option.mem_unique ht hr]
    rw [trimFillers, hright, dropWhile_eq_self_iff]
    intro r hr
    rwa [← Option.mem_unique hs hr]

/-! ### Joining and stripping -/

lemma dropSegments_zero (body : List Segment) :
    dropSegments 0 body = body.dropWhile Segment.isFiller := by
  cases body <;> rfl

/-- To drop the steps of the first pieces leads to the next step. -/
lemma dropSegments_append (h : (front.filterMap Segment.component?).length = n) :
    dropSegments n (front ++ back) = back.dropWhile Segment.isFiller := by
  induction front generalizing n with
  | nil =>
    obtain rfl := h
    exact dropSegments_zero back
  | cons s front ih =>
    cases hs : s.component? with
    | none =>
      rw [List.filterMap_cons_none hs] at h
      have hfiller := Segment.isFiller_of_component?_eq_none hs
      rw [← ih h, List.cons_append]
      cases n with
      | zero => rw [dropSegments_zero, dropSegments_zero, List.dropWhile_cons, if_pos hfiller]
      | succ n => rw [dropSegments, if_pos hfiller]
    | some c =>
      rw [List.filterMap_cons_some hs, List.length_cons] at h
      subst h
      have hfiller : s.isFiller ≠ true := fun hfiller => by
        rw [Segment.component?_of_isFiller hfiller] at hs
        cases hs
      rw [← ih rfl, List.cons_append, dropSegments, if_neg hfiller]

/-- The pieces of a joined path are those of the other after some with the steps of the first. -/
lemma exists_body_join_eq (hp : p.isAbsolute = true) (hq : q.isAbsolute = false) :
    ∃ front, (p.join q).body = front ++ q.pieces ∧
      front.filterMap Segment.component? = p.steps := by
  obtain ⟨kept, back, hpieces, hjoin, hne, hback⟩ :=
    exists_pieces_join (isEmpty_of_isAbsolute hp) hq
  obtain ⟨first, front, rfl⟩ := List.exists_cons_of_ne_nil hne
  rw [pieces_of_isAbsolute (isAbsolute_join hp), List.cons_append] at hjoin
  obtain ⟨rfl, hbody⟩ := List.cons.inj hjoin
  refine ⟨front, hbody, ?_⟩
  have hfiller : back.filterMap Segment.component? = [] := by
    rcases hback with ⟨rfl, -⟩ | rfl <;> rfl
  rw [steps, hpieces, List.filterMap_append, hfiller, List.append_nil]
  rfl

/-- To strip a directory from what was joined to it leaves the other path without fillers at its
ends. -/
lemma stripBase?_join (hp : p.isAbsolute = true) (hq : q.isAbsolute = false) :
    p.stripBase? (p.join q) = some (ofParts .bare (trimFillers q.pieces)) := by
  obtain ⟨front, hbody, hfront⟩ := exists_body_join_eq hp hq
  have hbelow : dropSegments p.steps.length
      (Text.dropRightWhile Segment.isFiller (front ++ q.pieces)) = trimFillers q.pieces := by
    rw [dropRightWhile_append]
    split_ifs with hall
    · -- nothing is left when the other path has no step
      rw [trimFillers_eq_nil_iff.mpr hall, ← List.append_nil (Text.dropRightWhile _ _),
        dropSegments_append]
      · rfl
      · rw [Text.dropRightWhile, List.filterMap_reverse, filterMap_dropWhile_isFiller,
          ← List.filterMap_reverse, List.reverse_reverse, hfront]
    · exact dropSegments_append (congrArg List.length hfront)
  have hcomponents := components_join (isEmpty_of_isAbsolute hp) hq
  rw [stripBase?, hcomponents, if_pos (by simp), hbody, components_of_isAbsolute hp,
    isAbsolute_iff_lead.mp (isAbsolute_join hp), ← hbelow]
  rfl

end ProjectScope.Path

import Mathlib.Data.List.Infix
import Mathlib.Data.List.TakeWhile
import ProjectScope.Proofs.Path.Components

/-!
# The ancestors of an absolute path

They mean the prefixes of what the path means, longest first, down to the root alone.
-/

namespace ProjectScope.Path

variable {p d : Path}

/-- The steps that lead to a place and to those above it, longest first. -/
def upwards (cs : List Component) : List (List Component) := cs.inits.reverse

lemma upwards_concat (cs : List Component) (c : Component) :
    upwards (cs ++ [c]) = (cs ++ [c]) :: upwards cs := by
  simp [upwards, List.inits_append]

lemma mem_upwards {cs ds : List Component} : ds ∈ upwards cs ↔ ds <+: cs := by
  rw [upwards, List.mem_reverse, List.mem_inits]

lemma exists_upwards_eq (cs : List Component) : ∃ above, upwards cs = cs :: above := by
  obtain rfl | ⟨front, c, rfl⟩ := cs.eq_nil_or_concat'
  · exact ⟨[], rfl⟩
  · exact ⟨upwards front, upwards_concat front c⟩

lemma getLast?_upwards (cs : List Component) : (upwards cs).getLast? = some [] := by
  rw [upwards, List.getLast?_reverse]
  cases cs <;> simp

lemma filterMap_dropWhile_isFiller (body : List Segment) :
    (body.dropWhile Segment.isFiller).filterMap Segment.component? =
      body.filterMap Segment.component? := by
  induction body with
  | nil => rfl
  | cons s body ih =>
    rw [List.dropWhile_cons]
    split_ifs with hs
    · rw [ih, List.filterMap_cons_none (Segment.component?_of_isFiller hs)]
    · rfl

/-- The strict ancestors of an absolute path, whose pieces are given last first. -/
lemma map_components_above {back : List Segment} (h : ∀ s ∈ back, '/' ∉ s) :
    (above .root back).map components =
      (upwards (back.reverse.filterMap Segment.component?)).tail.map (.root :: ·) := by
  induction back with
  | nil => rfl
  | cons s back ih =>
    obtain ⟨-, hback⟩ := List.forall_mem_cons.mp h
    rw [above, List.reverse_cons, List.filterMap_append]
    split_ifs with hs
    · rw [List.filterMap_cons_none (Segment.component?_of_isFiller hs), List.filterMap_nil,
        List.append_nil, ih hback]
    · obtain ⟨c, hc⟩ : ∃ c, s.component? = some c := by
        rw [← Option.ne_none_iff_exists']
        exact fun hnone => hs (Segment.isFiller_of_component?_eq_none hnone)
      have slashes : ∀ s ∈ (back.dropWhile Segment.isFiller).reverse, '/' ∉ s := by
        intro s hs
        exact hback s ((List.dropWhile_sublist _).mem (List.mem_reverse.mp hs))
      obtain ⟨above, habove⟩ := exists_upwards_eq (back.reverse.filterMap Segment.component?)
      rw [List.filterMap_cons_some hc, List.filterMap_nil, upwards_concat, List.tail_cons,
        List.map_cons, ih hback, components_of_isAbsolute (isAbsolute_ofParts_root _),
        steps_ofParts_root slashes, List.filterMap_reverse, filterMap_dropWhile_isFiller,
        ← List.filterMap_reverse, habove]
      rfl

/-- What the ancestors of an absolute path mean. -/
lemma map_components_ancestors (h : p.isAbsolute = true) :
    p.ancestors.map components = (upwards p.steps).map (.root :: ·) := by
  have slashes : ∀ s ∈ p.body.reverse, '/' ∉ s := by
    intro s hs
    exact not_mem_of_mem_pieces (mem_pieces_of_mem_body (List.mem_reverse.mp hs))
  obtain ⟨above, habove⟩ := exists_upwards_eq p.steps
  rw [ancestors, List.map_cons, properAncestors, isAbsolute_iff_lead.mp h,
    map_components_above slashes, List.reverse_reverse, ← steps_eq, habove,
    components_of_isAbsolute h]
  rfl

lemma components_prefix_of_mem_ancestors (h : p.isAbsolute = true) (hd : d ∈ p.ancestors) :
    d.components <+: p.components := by
  have hmem := List.mem_map_of_mem (f := components) hd
  rw [map_components_ancestors h] at hmem
  obtain ⟨cs, hcs, heq⟩ := List.mem_map.mp hmem
  rw [← heq, components_of_isAbsolute h]
  exact List.cons_prefix_cons.mpr ⟨rfl, mem_upwards.mp hcs⟩

lemma isAbsolute_of_mem_ancestors (h : p.isAbsolute = true) (hd : d ∈ p.ancestors) :
    d.isAbsolute = true := by
  have hmem := List.mem_map_of_mem (f := components) hd
  rw [map_components_ancestors h] at hmem
  obtain ⟨cs, -, heq⟩ := List.mem_map.mp hmem
  rw [isAbsolute_iff_mem, ← heq]
  exact List.mem_cons_self

lemma top_mem_ancestors (p : Path) : p.top ∈ p.ancestors := by
  rw [top, ancestors]
  cases hlast : p.properAncestors.getLast? with
  | none => exact List.mem_cons_self
  | some d => exact List.mem_cons_of_mem p (List.mem_of_getLast? hlast)

/-- The last ancestor of an absolute path is the root. -/
lemma components_top (h : p.isAbsolute = true) : p.top.components = [.root] := by
  have hlast : p.ancestors.getLast? = some p.top := by
    rw [ancestors, List.getLast?_cons, top]
  have hmap : (p.ancestors.map components).getLast? = some p.top.components := by
    rw [List.getLast?_map, hlast]
    rfl
  rw [map_components_ancestors h, List.getLast?_map, getLast?_upwards] at hmap
  exact (Option.some.inj hmap).symm

/-! ### What stands between -/

/-- The pieces of an absolute path come after the empty one before its first slash. -/
lemma pieces_of_isAbsolute (h : p.isAbsolute = true) : p.pieces = [] :: p.body := by
  rw [isAbsolute_iff_lead, lead] at h
  rw [body]
  obtain ⟨s, body, hp, hparts⟩ | ⟨body, hp, hparts⟩ | ⟨-, hparts⟩ := parts_cases p
  · rw [hp, hparts]
  · rw [hparts] at h
    cases h
  · rw [hparts] at h
    cases h

/-- A strict ancestor is spelled from the first pieces of a path, and there is a step among the
others. -/
lemma exists_of_mem_above {back : List Segment} (h : d ∈ above .root back) :
    ∃ front more, d = ofParts .root front ∧ back.reverse = front ++ more ∧
      ∃ s ∈ more, s.isFiller = false := by
  induction back with
  | nil => cases h
  | cons s back ih =>
    have farther (h : d ∈ above .root back) : ∃ front more, d = ofParts .root front ∧
        (s :: back).reverse = front ++ more ∧ ∃ s ∈ more, s.isFiller = false := by
      obtain ⟨front, more, hd, hback, step, hstep, hs⟩ := ih h
      refine ⟨front, more ++ [s], hd, ?_, step, List.mem_append_left [s] hstep, hs⟩
      rw [List.reverse_cons, hback, List.append_assoc]
    rw [above] at h
    split_ifs at h with hs
    · exact farther h
    · rcases List.mem_cons.mp h with rfl | h
      · refine ⟨_, (back.takeWhile Segment.isFiller).reverse ++ [s], rfl, ?_, s, by simp,
          by simpa using hs⟩
        rw [List.reverse_cons, ← List.append_assoc, ← List.reverse_append,
          List.takeWhile_append_dropWhile]
      · exact farther h

/-- What is directly above a last step keeps every step before it. -/
lemma exists_parent?_eq {front more : List Segment} {s step : Segment} (h : p.isAbsolute = true)
    (hbody : p.body = front ++ more ++ [s]) (hs : s.isFiller = false) (hstep : step ∈ more)
    (hfiller : step.isFiller = false) :
    ∃ rest, rest ≠ [] ∧ rest ⊆ more ∧ p.parent? = some (ofParts .root (front ++ rest)) := by
  have hkept : more.reverse.dropWhile Segment.isFiller ≠ [] := by
    rw [ne_eq, List.dropWhile_eq_nil_iff]
    intro hall
    rw [hall step (List.mem_reverse.mpr hstep)] at hfiller
    cases hfiller
  refine ⟨(more.reverse.dropWhile Segment.isFiller).reverse, by simpa using hkept, fun s hs => ?_, ?_⟩
  · exact List.mem_reverse.mp ((List.dropWhile_sublist _).mem (List.mem_reverse.mp hs))
  rw [parent?, properAncestors, isAbsolute_iff_lead.mp h, hbody, List.reverse_append,
    List.reverse_singleton, List.singleton_append, above, if_neg (by simp [hs]), List.head?_cons,
    List.reverse_append, List.dropWhile_append, if_neg (by simpa using hkept), List.reverse_append,
    List.reverse_reverse]

/-- What is joined to an absolute path leads through every strict ancestor and farther. -/
lemma exists_body_join {s : Segment} {q : Path} (h : p.isAbsolute = true)
    (hq : q.isAbsolute = false) (hpieces : q.pieces = [s]) (hd : d ∈ p.properAncestors) :
    ∃ front more, d = ofParts .root front ∧ (p.join q).body = front ++ more ++ [s] ∧
      ∃ step ∈ more, step.isFiller = false := by
  rw [properAncestors, isAbsolute_iff_lead.mp h] at hd
  obtain ⟨front, more, hd, hbody, step, hstep, hfiller⟩ := exists_of_mem_above hd
  rw [List.reverse_reverse] at hbody
  obtain ⟨kept, back, hp, hjoin, -, hback⟩ := exists_pieces_join (isEmpty_of_isAbsolute h) hq
  rw [pieces_of_isAbsolute h, hbody] at hp
  rw [pieces_of_isAbsolute (isAbsolute_join h), hpieces] at hjoin
  rcases hback with ⟨rfl, -⟩ | rfl
  · rw [List.append_nil] at hp
    rw [← hp] at hjoin
    exact ⟨front, more, hd, (List.cons.inj hjoin).2, step, hstep, hfiller⟩
  · -- a slash at the end leaves an empty piece, in whose place the new one is put
    obtain ⟨others, last, rfl⟩ := (List.eq_nil_or_concat' more).resolve_left
      (List.ne_nil_of_mem hstep)
    rw [← List.append_assoc, ← List.cons_append] at hp
    obtain ⟨hkept, hlast⟩ := List.append_inj' hp rfl
    rw [← hkept] at hjoin
    refine ⟨front, others, hd, (List.cons.inj hjoin).2, step, ?_, hfiller⟩
    rcases List.mem_append.mp hstep with hstep | hstep
    · exact hstep
    · rw [hlast, List.mem_singleton] at hstep
      rw [hstep] at hfiller
      cases hfiller

end ProjectScope.Path

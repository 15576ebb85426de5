import ProjectScope.Proofs.Path.Folding

/-!
# Normal forms of paths

What is left of a path after folding is a start, the levels that a relative path climbs, and names.
Spelling it and folding it again changes nothing, so a path may be folded in stages: what is joined
to a folded path is folded on top of it.
-/

namespace ProjectScope

namespace Folded

variable {f : Folded}

lemma components_of_not_rooted (hrooted : f.rooted = false) :
    f.components = List.replicate f.climbs .up ++ f.names.reverse.map .name := by
  rw [components, hrooted]
  rfl

lemma IsReduced.isStep_names (h : f.IsReduced) :
    ∀ c ∈ f.names.reverse.map Component.name, c.IsStep :=
  Path.isStep_of_mem_map_name fun n hn => h.names n (List.mem_reverse.mp hn)

lemma IsReduced.isStep (h : f.IsReduced) (hrooted : f.rooted = false) :
    ∀ c ∈ f.components, c.IsStep := by
  rw [components_of_not_rooted hrooted]
  refine List.forall_mem_append.mpr ⟨fun c hc => ?_, h.isStep_names⟩
  rw [List.eq_of_mem_replicate hc]
  trivial

/-- A relative path that goes through no name yet climbs with every `..`. -/
lemma foldl_push_ups (k : Nat) (hrooted : f.rooted = false) (hnames : f.names = []) :
    (List.replicate k Component.up).foldl Folded.push f = { f with climbs := f.climbs + k } := by
  induction k generalizing f with
  | zero => rfl
  | succ k ih =>
    have hpush : f.push .up = { f with climbs := f.climbs + 1 } := by
      simp [push, hrooted, hnames]
    rw [List.replicate_succ, List.foldl_cons, hpush,
      ih (f := { f with climbs := f.climbs + 1 }) hrooted hnames]
    simp [Nat.add_comm 1 k, Nat.add_assoc]

/-- What is left after folding is left when it is folded again. -/
lemma IsReduced.foldl_components (h : f.IsReduced) : f.components.foldl Folded.push {} = f := by
  cases hrooted : f.rooted with
  | true =>
    have start : Folded.push {} .root = { rooted := f.rooted, climbs := f.climbs } := by
      rw [hrooted, h.climbs hrooted]
      rfl
    rw [components_of_rooted h hrooted, List.foldl_cons, start, foldl_push_names,
      List.reverse_reverse, List.append_nil]
  | false =>
    rw [components_of_not_rooted hrooted, List.foldl_append,
      foldl_push_ups f.climbs (f := {}) rfl rfl, foldl_push_names, List.reverse_reverse,
      List.append_nil, Nat.zero_add, ← hrooted]

end Folded

namespace Path

variable {p a b : Path}

/-! ### Relative paths -/

/-- Steps are spelled one piece each; without any, an empty piece is left. -/
lemma pieces_ofComponents_steps {cs : List Component} (h : ∀ c ∈ cs, c.IsStep) :
    (ofComponents cs).pieces = if cs = [] then [[]] else cs.map Component.spelled := by
  split_ifs with hempty
  · rw [hempty]
    rfl
  · rw [ofComponents_relative (root_not_mem h), pieces, String.toList_ofList, glue]
    exact List.splitOn_intercalate '/' (not_mem_of_mem_map_spelled h) (by simpa using hempty)

/-- A path that is spelled from steps means just these. -/
lemma components_ofComponents_steps {cs : List Component} (h : ∀ c ∈ cs, c.IsStep) :
    (ofComponents cs).components = cs := by
  cases cs with
  | nil => rfl
  | cons c cs =>
    have hpieces := pieces_ofComponents_steps h
    rw [if_neg (List.cons_ne_nil c cs)] at hpieces
    obtain ⟨hrelative, hsteps⟩ := ofComponents_steps h (List.cons_ne_nil c cs)
    have hbare : (ofComponents (c :: cs)).lead = .bare := by
      obtain ⟨s, body, hp, hparts⟩ | ⟨body, hp, hparts⟩ | ⟨-, hparts⟩ :=
        parts_cases (ofComponents (c :: cs))
      · rw [isAbsolute, lead, hparts] at hrelative
        cases hrelative
      · -- no step is spelled as the dot that a path may start with
        have hstep := (h c List.mem_cons_self).component?_spelled
        rw [hpieces, List.map_cons] at hp
        rw [(List.cons.inj hp).1] at hstep
        cases hstep
      · rw [lead, hparts]
    rw [components_eq, hbare, hsteps]
    rfl

lemma components_eq_of_relative (h : p.isAbsolute = false) :
    p.components = p.steps ∨ p.components = .here :: p.steps := by
  rw [components_eq]
  cases hlead : p.lead with
  | root =>
    rw [isAbsolute_iff_lead.mpr hlead] at h
    cases h
  | here => exact .inr rfl
  | bare => exact .inl rfl

/-! ### Folding once -/

/-- What is left of a path after folding. -/
def folded (p : Path) : Folded := p.components.foldl Folded.push {}

lemma folded_of_isAbsolute (h : p.isAbsolute = true) :
    p.folded = p.steps.foldl Folded.push { rooted := true } := by
  rw [folded, components_of_isAbsolute h]
  rfl

/-- Where a relative path starts does not matter for what is left of it. -/
lemma folded_of_relative (h : p.isAbsolute = false) : p.folded = p.steps.foldl Folded.push {} := by
  rw [folded]
  rcases components_eq_of_relative h with hp | hp
  · rw [hp]
  · rw [hp]
    rfl

lemma isReduced_folded (p : Path) : p.folded.IsReduced := by
  have hsteps : ∀ c ∈ p.steps, c.IsStep := fun c => isStep_of_mem_steps
  cases h : p.isAbsolute with
  | true =>
    rw [folded_of_isAbsolute h]
    exact Folded.IsReduced.foldl ⟨fun _ => rfl, by simp⟩ hsteps
  | false =>
    rw [folded_of_relative h]
    exact Folded.IsReduced.foldl ⟨fun _ => rfl, by simp⟩ hsteps

lemma rooted_folded (p : Path) : p.folded.rooted = p.isAbsolute := by
  have hsteps : ∀ c ∈ p.steps, c.IsStep := fun c => isStep_of_mem_steps
  cases h : p.isAbsolute with
  | true => rw [folded_of_isAbsolute h, Folded.rooted_foldl _ hsteps]
  | false => rw [folded_of_relative h, Folded.rooted_foldl _ hsteps]

lemma components_fold (p : Path) : p.fold.components = p.folded.components := by
  change (ofComponents p.folded.components).components = _
  cases h : p.folded.rooted with
  | true =>
    rw [Folded.components_of_rooted p.isReduced_folded h]
    exact components_ofComponents p.isReduced_folded.isStep_names
  | false => exact components_ofComponents_steps (p.isReduced_folded.isStep h)

/-- An absolute path folds to the root and names. -/
lemma components_fold_of_isAbsolute (h : p.isAbsolute = true) :
    p.fold.components = .root :: p.folded.names.reverse.map .name := by
  rw [components_fold, Folded.components_of_rooted p.isReduced_folded]
  rw [rooted_folded, h]

/-- A relative path folds to the levels that it climbs and names. -/
lemma components_fold_of_relative (h : p.isAbsolute = false) :
    p.fold.components =
      List.replicate p.folded.climbs .up ++ p.folded.names.reverse.map .name := by
  rw [components_fold, Folded.components_of_not_rooted]
  rw [rooted_folded, h]

lemma pieces_fold_of_relative (h : p.isAbsolute = false) :
    p.fold.pieces =
      if p.fold.components = [] then [[]] else p.fold.components.map Component.spelled := by
  rw [components_fold]
  apply pieces_ofComponents_steps
  apply p.isReduced_folded.isStep
  rw [rooted_folded, h]

lemma isAbsolute_fold (p : Path) : p.fold.isAbsolute = p.isAbsolute := by
  have hroot : p.fold.isAbsolute = true ↔ p.isAbsolute = true := by
    rw [isAbsolute_iff_mem]
    cases h : p.isAbsolute with
    | true => simp [components_fold_of_isAbsolute h]
    | false => simp [components_fold_of_relative h, List.mem_replicate]
  exact Bool.eq_iff_iff.mpr hroot

/-! ### Folding in stages -/

lemma folded_fold (p : Path) : p.fold.folded = p.folded := by
  rw [folded, components_fold, p.isReduced_folded.foldl_components]

lemma fold_eq_of_folded (h : a.folded = b.folded) : a.fold = b.fold :=
  congrArg (fun f : Folded => ofComponents f.components) h

/-- Folding again changes nothing. -/
lemma fold_fold (p : Path) : p.fold.fold = p.fold := fold_eq_of_folded p.folded_fold

lemma folded_of_isEmpty (h : p.isEmpty = true) : p.folded = {} := by
  rw [isEmpty_iff] at h
  rw [folded, components, lead, body, parts, h]
  rfl

/-- What is joined to a path is folded on top of what is left of it. -/
lemma folded_join (a : Path) (hb : b.isAbsolute = false) :
    (a.join b).folded = b.steps.foldl Folded.push a.folded := by
  cases ha : a.isEmpty with
  | true =>
    have hjoin : a.join b = b := by
      rw [isEmpty, String.isEmpty_iff] at ha
      simp [join, hb, isEmpty, ha]
    rw [hjoin, folded_of_isEmpty ha, folded_of_relative hb]
  | false => rw [folded, components_join ha hb, List.foldl_append, folded]

/-- A path may be folded before another one is joined to it. -/
lemma fold_join (a b : Path) : (a.join b).fold = (a.fold.join b).fold := by
  cases hb : b.isAbsolute with
  | true => rw [join_of_isAbsolute hb, join_of_isAbsolute hb]
  | false =>
    apply fold_eq_of_folded
    rw [folded_join a hb, folded_join a.fold hb, folded_fold]

end Path

end ProjectScope

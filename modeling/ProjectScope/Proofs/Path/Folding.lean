import ProjectScope.Proofs.Path.Components

/-!
# Folding absolute paths

What is left of a path after folding climbs and then goes through names: a `..` takes back the last
name, and climbs only where there is none. From the root there is nowhere to climb, so that what is
left of an absolute path are the names of a location.
-/

namespace ProjectScope

namespace Folded

variable {f : Folded}

/-- What folding leaves: no level is climbed from the root, and names can name entries. -/
structure IsReduced (f : Folded) : Prop where
  climbs : f.rooted = true → f.climbs = 0
  names : ∀ n ∈ f.names, IsName n

lemma rooted_push (f : Folded) {c : Component} (hc : c.IsStep) :
    (f.push c).rooted = f.rooted := by
  cases c with
  | root => cases hc
  | here => cases hc
  | up =>
    rw [push]
    split
    · rfl
    · split_ifs <;> rfl
  | name n => rfl

lemma IsReduced.push (h : f.IsReduced) {c : Component} (hc : c.IsStep) : (f.push c).IsReduced := by
  cases c with
  | root => cases hc
  | here => cases hc
  | up =>
    rw [Folded.push]
    split
    · rename_i n names hnames
      refine ⟨h.climbs, fun m hm => h.names m ?_⟩
      rw [hnames]
      exact List.mem_cons_of_mem n hm
    · split_ifs with hrooted
      · exact h
      · exact ⟨fun hrooted' => absurd hrooted' hrooted, h.names⟩
  | name n => exact ⟨h.climbs, List.forall_mem_cons.mpr ⟨hc, h.names⟩⟩

lemma rooted_foldl (f : Folded) {cs : List Component} (hcs : ∀ c ∈ cs, c.IsStep) :
    (cs.foldl Folded.push f).rooted = f.rooted := by
  induction cs generalizing f with
  | nil => rfl
  | cons c cs ih =>
    obtain ⟨hc, hcs⟩ := List.forall_mem_cons.mp hcs
    rw [List.foldl_cons, ih _ hcs, rooted_push f hc]

lemma IsReduced.foldl (h : f.IsReduced) {cs : List Component} (hcs : ∀ c ∈ cs, c.IsStep) :
    (cs.foldl Folded.push f).IsReduced := by
  induction cs generalizing f with
  | nil => exact h
  | cons c cs ih =>
    obtain ⟨hc, hcs⟩ := List.forall_mem_cons.mp hcs
    exact ih (h.push hc) hcs

lemma components_of_rooted (h : f.IsReduced) (hrooted : f.rooted = true) :
    f.components = .root :: f.names.reverse.map .name := by
  rw [components, hrooted, h.climbs hrooted]
  rfl

/-- What is left of an absolute path: it is rooted, climbs nowhere and goes through names. -/
structure IsRooted (f : Folded) : Prop where
  rooted : f.rooted = true
  climbs : f.climbs = 0
  names : ∀ n ∈ f.names, IsName n

namespace IsRooted

lemma isReduced (h : f.IsRooted) : f.IsReduced := ⟨fun _ => h.climbs, h.names⟩

lemma foldl (h : f.IsRooted) {cs : List Component} (hcs : ∀ c ∈ cs, c.IsStep) :
    (cs.foldl Folded.push f).IsRooted := by
  have reduced := h.isReduced.foldl hcs
  have rooted := (f.rooted_foldl hcs).trans h.rooted
  exact ⟨rooted, reduced.climbs rooted, reduced.names⟩

lemma components (h : f.IsRooted) : f.components = .root :: f.names.reverse.map .name :=
  components_of_rooted h.isReduced h.rooted

end IsRooted

lemma foldl_push_names (f : Folded) (names : List String) :
    (names.map .name).foldl Folded.push f = { f with names := names.reverse ++ f.names } := by
  induction names generalizing f with
  | nil => rfl
  | cons n names ih =>
    rw [List.map_cons, List.foldl_cons, ih, Folded.push]
    simp

end Folded

namespace Path

variable {p : Path}

/-- An absolute path folds to the names that are left of it. -/
lemma exists_fold_eq (h : p.isAbsolute = true) :
    ∃ names, (∀ n ∈ names, IsName n) ∧ p.fold = ofNames names := by
  have start : (Folded.push {} .root).IsRooted := ⟨rfl, rfl, by simp [Folded.push]⟩
  have folded := start.foldl fun c => isStep_of_mem_steps (p := p) (c := c)
  refine ⟨_, fun n hn => folded.names n (List.mem_reverse.mp hn), ?_⟩
  rw [fold, components_of_isAbsolute h, List.foldl_cons, folded.components, ofComponents_names]

/-- Where there is nothing to fold, the path is spelled anew. -/
lemma fold_eq {names : List String} (h : p.components = .root :: names.map .name) :
    p.fold = ofNames names := by
  rw [fold, h, List.foldl_cons, Folded.foldl_push_names, ← ofComponents_names]
  simp [Folded.components, Folded.push]

/-- Names that are joined to others and folded come after them. -/
lemma fold_join_ofNames {names more : List String} (h : ∀ n ∈ names ++ more, IsName n)
    (hne : more ≠ []) :
    ((ofNames names).join (ofComponents (more.map .name))).fold = ofNames (names ++ more) := by
  have hnames : ∀ n ∈ names, IsName n := fun n hn => h n (List.mem_append_left more hn)
  have hmore : ∀ n ∈ more, IsName n := fun n hn => h n (List.mem_append_right names hn)
  obtain ⟨hrelative, hsteps⟩ := ofComponents_steps (isStep_of_mem_map_name hmore) (by simpa)
  apply fold_eq
  rw [components_join (isEmpty_of_isAbsolute (isAbsolute_ofNames names)) hrelative, hsteps,
    components_ofNames hnames, List.map_append, List.cons_append]

end Path

end ProjectScope

import ProjectScope.Path.Lexical
import ProjectScope.Proofs.Text.Split

/-!
# What paths mean

The components of a path are the component of its start and then the steps that its pieces stand
for, names and `..`. A path that is spelled from components means those components again, and
joining a relative path to another puts its steps after the components of the other.
-/

namespace ProjectScope

namespace Segment

lemma component?_of_isFiller {s : Segment} (h : s.isFiller = true) : s.component? = none := by
  rw [component?, if_pos h]

lemma isFiller_of_component?_eq_none {s : Segment} (h : s.component? = none) :
    s.isFiller = true := by
  rw [component?] at h
  split_ifs at h with hfiller
  exact hfiller

/-- A piece that holds anything but dots is no filler. -/
lemma exists_component?_of_mem {s : Segment} {c : Char} (hdot : c ≠ '.') (hc : c ∈ s) :
    ∃ d, s.component? = some d := by
  rw [← Option.ne_none_iff_exists']
  intro hnone
  have hfiller := isFiller_of_component?_eq_none hnone
  rw [isFiller, Bool.or_eq_true, beq_iff_eq, beq_iff_eq] at hfiller
  rcases hfiller with rfl | rfl
  · cases hc
  · exact hdot (List.mem_singleton.mp hc)

/-- A piece is a filler, a `..` or a name. -/
lemma component?_cases (s : Segment) :
    s.component? = none ∨ s.component? = some .up ∨
      s.component? = some (.name (String.ofList s)) := by
  rw [component?]
  split_ifs <;> simp

lemma component?_eq_name {s : Segment} {n : String} (h : s.component? = some (.name n)) :
    s = n.toList := by
  obtain hs | hs | hs := component?_cases s
  all_goals rw [hs] at h
  · cases h
  · cases h
  · cases h
    rw [String.toList_ofList]

end Segment

/-- Whether a text can name an entry: it is a piece of a path, and neither a filler nor `..`. -/
def IsName (n : String) : Prop :=
  '/' ∉ n.toList ∧ Segment.component? n.toList = some (.name n)

/-- Whether a component is a step of a path, not its start. -/
def Component.IsStep : Component → Prop
  | .root => False
  | .here => False
  | .up => True
  | .name n => IsName n

/-- The piece that spells a step. -/
def Component.spelled : Component → Segment
  | .root => []
  | .here => ['.']
  | .up => ['.', '.']
  | .name n => n.toList

/-- A piece is spelled from the component that it stands for. -/
lemma Segment.spelled_of_component? {s : Segment} {c : Component} (h : s.component? = some c) :
    c.spelled = s := by
  rw [component?] at h
  split_ifs at h with hfiller hup
  · cases h
    exact (beq_iff_eq.mp hup).symm
  · cases h
    exact String.toList_ofList

lemma Component.IsStep.component?_spelled {c : Component} (h : c.IsStep) :
    Segment.component? c.spelled = some c := by
  cases c with
  | root => cases h
  | here => cases h
  | up => rfl
  | name n => exact h.2

lemma Component.IsStep.not_mem_spelled {c : Component} (h : c.IsStep) : '/' ∉ c.spelled := by
  cases c with
  | root => cases h
  | here => cases h
  | up => decide
  | name n => exact h.1

namespace Path

variable {p q : Path}

/-! ### Pieces and steps -/

/-- The steps of a path after its start. -/
def steps (p : Path) : List Component := p.pieces.filterMap Segment.component?

lemma pieces_ne_nil (p : Path) : p.pieces ≠ [] := List.splitOn_ne_nil '/' p.text.toList

lemma not_mem_of_mem_pieces {s : Segment} (h : s ∈ p.pieces) : '/' ∉ s :=
  List.not_mem_of_mem_splitOn h

/-- How a path starts, by its first pieces. -/
lemma parts_cases (p : Path) :
    (∃ s body, p.pieces = [] :: s :: body ∧ p.parts = (.root, s :: body)) ∨
    (∃ body, p.pieces = ['.'] :: body ∧ p.parts = (.here, body)) ∨
    ((∀ s body, p.pieces ≠ [] :: s :: body) ∧ p.parts = (.bare, p.pieces)) := by
  rw [parts]
  split
  · rename_i s body h
    exact .inl ⟨s, body, h, rfl⟩
  · rename_i body h
    exact .inr (.inl ⟨body, h, rfl⟩)
  · rename_i h _
    exact .inr (.inr ⟨fun s body h' => h s body h', rfl⟩)

lemma components_eq (p : Path) : p.components = p.lead.components ++ p.steps := by
  rw [components, lead, body, steps]
  obtain ⟨s, body, h, hparts⟩ | ⟨body, h, hparts⟩ | ⟨-, hparts⟩ := parts_cases p
  · rw [hparts, h]
    rfl
  · rw [hparts, h]
    rfl
  · rw [hparts]

lemma steps_eq (p : Path) : p.steps = p.body.filterMap Segment.component? :=
  List.append_cancel_left ((components_eq p).symm.trans rfl)

lemma mem_pieces_of_mem_body {s : Segment} (h : s ∈ p.body) : s ∈ p.pieces := by
  rw [body] at h
  obtain ⟨s, body, hp, hparts⟩ | ⟨body, hp, hparts⟩ | ⟨-, hparts⟩ := parts_cases p
  · rw [hparts] at h
    rw [hp]
    exact List.mem_cons_of_mem [] h
  · rw [hparts] at h
    rw [hp]
    exact List.mem_cons_of_mem ['.'] h
  · rw [hparts] at h
    exact h

lemma isStep_of_mem_steps {c : Component} (h : c ∈ p.steps) : c.IsStep := by
  obtain ⟨s, hs, hc⟩ := List.mem_filterMap.mp h
  obtain h' | h' | h' := Segment.component?_cases s
  all_goals rw [h'] at hc; cases hc
  · trivial
  · constructor
    · rw [String.toList_ofList]
      exact not_mem_of_mem_pieces hs
    · rw [String.toList_ofList]
      exact h'

/-! ### Absolute paths -/

lemma isAbsolute_iff_lead : p.isAbsolute = true ↔ p.lead = .root := by
  rw [isAbsolute, beq_iff_eq]

lemma lead_eq_root_iff : p.lead = .root ↔ ∃ s body, p.pieces = [] :: s :: body := by
  rw [lead]
  obtain ⟨s, body, h, hparts⟩ | ⟨body, h, hparts⟩ | ⟨h, hparts⟩ := parts_cases p
  · simp [hparts, h]
  · simp [hparts, h]
  · simpa [hparts] using h

/-- A path is absolute when its text starts with a slash. -/
lemma isAbsolute_iff : p.isAbsolute = true ↔ ∃ cs, p.text.toList = '/' :: cs := by
  rw [isAbsolute_iff_lead, lead_eq_root_iff, pieces]
  cases ht : p.text.toList with
  | nil => simp
  | cons c cs =>
    obtain ⟨first, others, hsplit, hne, hc⟩ | ⟨rfl, hc⟩ := List.exists_splitOn_cons '/' c cs
    · rw [hc]
      simpa using hne
    · rw [hc]
      obtain ⟨first, others, hsplit⟩ := List.exists_cons_of_ne_nil (List.splitOn_ne_nil '/' cs)
      simp [hsplit]

lemma isEmpty_of_isAbsolute (h : p.isAbsolute = true) : p.isEmpty = false := by
  obtain ⟨cs, hcs⟩ := isAbsolute_iff.mp h
  rw [isEmpty, Bool.eq_false_iff, ne_eq, String.isEmpty_iff, ← String.toList_eq_nil_iff, hcs]
  simp

lemma components_of_isAbsolute (h : p.isAbsolute = true) : p.components = .root :: p.steps := by
  rw [components_eq, isAbsolute_iff_lead.mp h]
  rfl

lemma isAbsolute_of_mem_components (h : .root ∈ p.components) : p.isAbsolute = true := by
  rw [components_eq, List.mem_append] at h
  rcases h with h | h
  · cases hlead : p.lead with
    | root => exact isAbsolute_iff_lead.mpr hlead
    | here =>
      rw [hlead] at h
      simp [Lead.components] at h
    | bare =>
      rw [hlead] at h
      cases h
  · exact (isStep_of_mem_steps h).elim

lemma steps_eq_of_components_eq (h : p.components = q.components) : p.steps = q.steps := by
  have kept (r : Path) : r.steps = r.components.filter (· ∉ [Component.root, .here]) := by
    have hsteps : r.steps.filter (· ∉ [Component.root, .here]) = r.steps := by
      rw [List.filter_eq_self]
      intro c hc
      cases c with
      | root => exact (isStep_of_mem_steps hc).elim
      | here => exact (isStep_of_mem_steps hc).elim
      | up => rfl
      | name n => rfl
    rw [components_eq, List.filter_append, hsteps]
    cases r.lead <;> rfl
  rw [kept p, kept q, h]

/-! ### Spelling components -/

lemma isAbsolute_ofParts_root (body : List Segment) : (ofParts .root body).isAbsolute = true :=
  isAbsolute_iff.mpr ⟨glue body, String.toList_ofList⟩

lemma pieces_ofParts_root {body : List Segment} (h : ∀ s ∈ body, '/' ∉ s) :
    (ofParts .root body).pieces = [] :: if body = [] then [[]] else body := by
  rw [pieces, ofParts, String.toList_ofList, List.splitOn_cons_eq_if_modifyHead,
    if_pos (beq_self_eq_true _)]
  split_ifs with hbody
  · rw [hbody]
    rfl
  · rw [glue, List.splitOn_intercalate '/' h hbody]

lemma steps_ofParts_root {body : List Segment} (h : ∀ s ∈ body, '/' ∉ s) :
    (ofParts .root body).steps = body.filterMap Segment.component? := by
  rw [steps, pieces_ofParts_root h]
  split_ifs with hbody
  · rw [hbody]
    rfl
  · rfl

lemma not_mem_of_mem_map_spelled {cs : List Component} (h : ∀ c ∈ cs, c.IsStep) :
    ∀ s ∈ cs.map Component.spelled, '/' ∉ s := by
  intro s hs
  obtain ⟨c, hc, rfl⟩ := List.mem_map.mp hs
  exact (h c hc).not_mem_spelled

lemma not_mem_of_mem_map_toList {names : List String} (h : ∀ n ∈ names, IsName n) :
    ∀ s ∈ names.map String.toList, '/' ∉ s := by
  intro s hs
  obtain ⟨n, hn, rfl⟩ := List.mem_map.mp hs
  exact (h n hn).1

lemma filterMap_spelled {cs : List Component} (h : ∀ c ∈ cs, c.IsStep) :
    (cs.map Component.spelled).filterMap Segment.component? = cs := by
  induction cs with
  | nil => rfl
  | cons c cs ih =>
    obtain ⟨hc, hcs⟩ := List.forall_mem_cons.mp h
    rw [List.map_cons, List.filterMap_cons_some hc.component?_spelled, ih hcs]

/-- How components are spelled: the root has no piece, every other component one. -/
lemma exists_spelling : ∃ spell : Component → Option Segment,
    (∀ cs, ofComponents cs = if cs.head? = some .root then ofParts .root (cs.filterMap spell)
      else ⟨String.ofList (glue (cs.filterMap spell))⟩) ∧
    spell .root = none ∧ ∀ cs : List Component, .root ∉ cs →
      cs.filterMap spell = cs.map Component.spelled := by
  refine ⟨_, fun cs => by rw [ofComponents]; simp only [beq_iff_eq]; rfl, rfl, fun cs h => ?_⟩
  induction cs with
  | nil => rfl
  | cons c cs ih =>
    rw [List.mem_cons, not_or] at h
    rw [List.filterMap_cons, ih h.2]
    cases c with
    | root => exact absurd rfl h.1
    | here => rfl
    | up => rfl
    | name n => rfl

lemma root_not_mem {cs : List Component} (h : ∀ c ∈ cs, c.IsStep) : .root ∉ cs := fun hroot =>
  h .root hroot

lemma ofComponents_root {cs : List Component} (h : .root ∉ cs) :
    ofComponents (.root :: cs) = ofParts .root (cs.map Component.spelled) := by
  obtain ⟨spell, hspell, hroot, hcs⟩ := exists_spelling
  rw [hspell, if_pos List.head?_cons, List.filterMap_cons_none hroot, hcs cs h]

lemma ofComponents_relative {cs : List Component} (h : .root ∉ cs) :
    ofComponents cs = ⟨String.ofList (glue (cs.map Component.spelled))⟩ := by
  obtain ⟨spell, hspell, -, hcs⟩ := exists_spelling
  rw [hspell, if_neg (fun hhead => h (List.mem_of_head? hhead)), hcs cs h]

/-- A path that is spelled from the root and some steps means just these. -/
lemma components_ofComponents {cs : List Component} (h : ∀ c ∈ cs, c.IsStep) :
    (ofComponents (.root :: cs)).components = .root :: cs := by
  rw [ofComponents_root (root_not_mem h), components_of_isAbsolute (isAbsolute_ofParts_root _),
    steps_ofParts_root (not_mem_of_mem_map_spelled h), filterMap_spelled h]

lemma ofComponents_names (names : List String) :
    ofComponents (.root :: names.map .name) = ofNames names := by
  rw [ofComponents_root (by simp), List.map_map, ofNames]
  rfl

lemma isAbsolute_ofNames (names : List String) : (ofNames names).isAbsolute = true :=
  isAbsolute_ofParts_root _

lemma isStep_of_mem_map_name {names : List String} (h : ∀ n ∈ names, IsName n) :
    ∀ c ∈ names.map Component.name, c.IsStep := by
  intro c hc
  obtain ⟨n, hn, rfl⟩ := List.mem_map.mp hc
  exact h n hn

lemma exists_names_of_prefix {names : List String} {cs : List Component}
    (h : cs <+: names.map .name) : ∃ front, front <+: names ∧ cs = front.map .name := by
  rw [List.prefix_iff_eq_take, ← List.map_take] at h
  exact ⟨_, List.take_prefix _ names, h⟩

lemma components_ofNames {names : List String} (h : ∀ n ∈ names, IsName n) :
    (ofNames names).components = .root :: names.map .name := by
  rw [← ofComponents_names, components_ofComponents (isStep_of_mem_map_name h)]

lemma steps_ofNames {names : List String} (h : ∀ n ∈ names, IsName n) :
    (ofNames names).steps = names.map .name := by
  have hroot := components_of_isAbsolute (isAbsolute_ofNames names)
  rw [components_ofNames h] at hroot
  exact (List.cons.inj hroot).2.symm

/-- Apart from the slashes, a path spelled from names holds what its names hold. -/
lemma mem_text_ofNames {c : Char} (hc : c ≠ '/') {names : List String}
    (h : ∀ n ∈ names, IsName n) :
    c ∈ (ofNames names).text.toList ↔ ∃ n ∈ names, c ∈ n.toList := by
  rw [List.mem_iff_exists_mem_splitOn hc]
  change (∃ piece ∈ (ofNames names).pieces, c ∈ piece) ↔ _
  rw [ofNames, pieces_ofParts_root (not_mem_of_mem_map_toList h)]
  split_ifs with hempty
  · simp [List.map_eq_nil_iff.mp hempty]
  · simp

/-- Spelling an absolute path anew brings in nothing but slashes. -/
lemma mem_text_of_mem_ofComponents {c : Char} (hc : c ≠ '/') (h : p.isAbsolute = true)
    (hmem : c ∈ (ofComponents p.components).text.toList) : c ∈ p.text.toList := by
  have hsteps : ∀ c ∈ p.steps, c.IsStep := fun c => isStep_of_mem_steps
  rw [List.mem_iff_exists_mem_splitOn hc] at hmem
  obtain ⟨s, hs, hcs⟩ := hmem
  change s ∈ (ofComponents p.components).pieces at hs
  rw [components_of_isAbsolute h, ofComponents_root (root_not_mem hsteps),
    pieces_ofParts_root (not_mem_of_mem_map_spelled hsteps)] at hs
  obtain ⟨d, hd, rfl⟩ : ∃ d ∈ p.steps, d.spelled = s := by
    have hne : s ≠ [] := List.ne_nil_of_mem hcs
    split_ifs at hs
    · simp [hne] at hs
    · exact List.mem_map.mp ((List.mem_cons.mp hs).resolve_left hne)
  obtain ⟨s, hs, hd⟩ := List.mem_filterMap.mp hd
  rw [Segment.spelled_of_component? hd] at hcs
  exact List.mem_of_mem_splitOn hs hcs

/-- Spelling an absolute path anew leaves out nothing but slashes and dots. -/
lemma mem_ofComponents_of_mem_text {c : Char} (hslash : c ≠ '/') (hdot : c ≠ '.')
    (h : p.isAbsolute = true) (hmem : c ∈ p.text.toList) :
    c ∈ (ofComponents p.components).text.toList := by
  have hsteps : ∀ c ∈ p.steps, c.IsStep := fun c => isStep_of_mem_steps
  obtain ⟨s, hs, hcs⟩ := (List.mem_iff_exists_mem_splitOn hslash).mp hmem
  obtain ⟨d, hd⟩ := Segment.exists_component?_of_mem hdot hcs
  have hspelled : s ∈ p.steps.map Component.spelled := by
    rw [← Segment.spelled_of_component? hd]
    exact List.mem_map_of_mem (List.mem_filterMap.mpr ⟨s, hs, hd⟩)
  rw [List.mem_iff_exists_mem_splitOn hslash]
  change ∃ s ∈ (ofComponents p.components).pieces, c ∈ s
  rw [components_of_isAbsolute h, ofComponents_root (root_not_mem hsteps),
    pieces_ofParts_root (not_mem_of_mem_map_spelled hsteps), if_neg (List.ne_nil_of_mem hspelled)]
  exact ⟨s, List.mem_cons_of_mem [] hspelled, hcs⟩

/-- Steps on their own spell a relative path. -/
lemma ofComponents_steps {cs : List Component} (h : ∀ c ∈ cs, c.IsStep) (hne : cs ≠ []) :
    (ofComponents cs).isAbsolute = false ∧ (ofComponents cs).steps = cs := by
  have hpieces : (ofComponents cs).pieces = cs.map Component.spelled := by
    rw [ofComponents_relative (root_not_mem h), pieces, String.toList_ofList, glue]
    exact List.splitOn_intercalate '/' (not_mem_of_mem_map_spelled h) (by simpa using hne)
  constructor
  · rw [Bool.eq_false_iff, ne_eq, isAbsolute_iff_lead, lead_eq_root_iff, hpieces]
    rintro ⟨s, body, hbody⟩
    obtain ⟨c, cs, rfl⟩ := List.exists_cons_of_ne_nil hne
    have hc := (h c List.mem_cons_self).component?_spelled
    rw [(List.cons.inj hbody).1] at hc
    cases hc
  · rw [steps, hpieces, filterMap_spelled h]

/-! ### Joining -/

lemma isEmpty_iff : p.isEmpty = true ↔ p.pieces = [[]] := by
  rw [isEmpty, String.isEmpty_iff, ← String.toList_eq_nil_iff]
  constructor
  · intro h
    rw [pieces, h]
    rfl
  · intro h
    have glued : ['/'].intercalate p.pieces = p.text.toList := List.intercalate_splitOn '/'
    rw [← glued, h]
    rfl

/-- How a path starts is seen from its first piece and from whether there is a second. -/
lemma lead_eq_of_pieces {s : Segment} {more more' : List Segment} (hp : p.pieces = s :: more)
    (hq : q.pieces = s :: more') (h : s = [] → (more = [] ↔ more' = [])) : p.lead = q.lead := by
  rw [lead, lead, parts, parts, hp, hq]
  by_cases hs : s = []
  · rw [hs]
    cases more <;> cases more' <;> simp_all
  · split
    · simp_all
    · simp_all
    · rename_i h
      split
      · simp_all
      · simp_all
      · rfl

/-- The pieces of a joined path are put after those of the other, but for an empty piece at a
slash. -/
lemma exists_pieces_join (hp : p.isEmpty = false) (hq : q.isAbsolute = false) :
    ∃ front back, p.pieces = front ++ back ∧ (p.join q).pieces = front ++ q.pieces ∧ front ≠ [] ∧
      (back = [] ∧ front ≠ [[]] ∨ back = [[]]) := by
  rw [join, if_neg (by simp [hq]), hp, Bool.false_or]
  split_ifs with hlast
  · rw [beq_iff_eq, List.getLast?_eq_some_iff] at hlast
    obtain ⟨cs, hcs⟩ := hlast
    refine ⟨cs.splitOn '/', [[]], ?_, ?_, List.splitOn_ne_nil '/' cs, .inr rfl⟩
    · rw [pieces, hcs, List.splitOn_append_cons_self]
      rfl
    · rw [pieces, String.toList_append, hcs, List.append_assoc, List.singleton_append,
        List.splitOn_append_cons_self]
      rfl
  · refine ⟨p.pieces, [], (List.append_nil _).symm, ?_, p.pieces_ne_nil, .inl ⟨rfl, ?_⟩⟩
    · rw [pieces, String.toList_append, String.toList_append, List.append_assoc]
      exact List.splitOn_append_cons_self ..
    · rw [ne_eq, ← isEmpty_iff, hp]
      simp

/-- A relative path that is joined to another adds its steps. -/
lemma components_join (hp : p.isEmpty = false) (hq : q.isAbsolute = false) :
    (p.join q).components = p.components ++ q.steps := by
  obtain ⟨front, back, hpieces, hjoin, hback⟩ := exists_pieces_join hp hq
  obtain ⟨first, others, hfront⟩ := List.exists_cons_of_ne_nil hback.1
  have hlead : (p.join q).lead = p.lead := by
    rw [hfront, List.cons_append] at hpieces hjoin
    refine lead_eq_of_pieces hjoin hpieces fun hfirst => ?_
    rcases hback.2 with ⟨rfl, hne⟩ | rfl
    · simp_all
    · simp [q.pieces_ne_nil]
  have hsteps : (p.join q).steps = p.steps ++ q.steps := by
    have hfiller : back.filterMap Segment.component? = [] := by
      rcases hback.2 with ⟨rfl, -⟩ | rfl <;> rfl
    rw [steps, steps, steps, hjoin, hpieces, List.filterMap_append, List.filterMap_append,
      hfiller, List.append_nil]
  rw [components_eq, hlead, hsteps, ← List.append_assoc, ← components_eq]

lemma isAbsolute_iff_mem : p.isAbsolute = true ↔ .root ∈ p.components := by
  constructor
  · intro h
    rw [components_of_isAbsolute h]
    exact List.mem_cons_self
  · exact isAbsolute_of_mem_components

lemma isAbsolute_join (hp : p.isAbsolute = true) : (p.join q).isAbsolute = true := by
  cases hq : q.isAbsolute with
  | true =>
    rw [join_of_isAbsolute hq]
    exact hq
  | false =>
    rw [isAbsolute_iff_mem, components_join (isEmpty_of_isAbsolute hp) hq, List.mem_append]
    exact .inl (isAbsolute_iff_mem.mp hp)

/-- What a path means seen from a base depends on what it means, not on its spelling. -/
lemma components_absolutize_congr (base : Path) (h : p.components = q.components) :
    (absolutize base p).components = (absolutize base q).components := by
  have hsame : p.isAbsolute = q.isAbsolute := by
    rw [Bool.eq_iff_iff, isAbsolute_iff_mem, isAbsolute_iff_mem, h]
  rw [absolutize, absolutize]
  cases hq : q.isAbsolute with
  | true => rw [hsame, hq, if_pos rfl, if_pos rfl, h]
  | false =>
    have hp := hsame.trans hq
    rw [hp, if_neg (by simp), if_neg (by simp)]
    cases hbase : base.isEmpty with
    | true =>
      have blank (r : Path) (hr : r.isAbsolute = false) : base.join r = r := by
        rw [isEmpty, String.isEmpty_iff] at hbase
        simp [join, hr, isEmpty, hbase]
      rw [blank p hp, blank q hq, h]
    | false => rw [components_join hbase hp, components_join hbase hq, steps_eq_of_components_eq h]

end Path

end ProjectScope

import ProjectScope.Proofs.FileTree.Lookup
import ProjectScope.Proofs.Path.NormalForm

/-!
# Folding where no link is met

A folded path means the same place as the path itself, as long as every `..` takes back the step
before it. So it does where a lookup meets no link: what such a path leads to, its folded form leads
to.
-/

namespace ProjectScope

open ProjectScope.Path (ofNames)

/-! ### Where components lead -/

/-- Where a component leads from a location when no link is followed. The root is its own parent. -/
def Location.step (l : Location) : Component → Location
  | .root => []
  | .here => l
  | .up => l.dropLast
  | .name n => l ++ [n]

/-- Where components lead from a location when no link is followed. -/
def Location.follow (l : Location) (cs : List Component) : Location := cs.foldl Location.step l

namespace Location

lemma follow_append (l : Location) (cs ds : List Component) :
    follow l (cs ++ ds) = follow (follow l cs) ds := List.foldl_append

lemma follow_names (l : Location) (names : List String) :
    follow l (names.map .name) = l ++ names := by
  induction names generalizing l with
  | nil => exact (List.append_nil l).symm
  | cons n names ih =>
    rw [List.map_cons]
    exact (ih (l ++ [n])).trans (List.append_assoc l [n] names)

/-- The names that are left after folding come after the start and the levels that are climbed. -/
lemma follow_components (l : Location) (f : Folded) :
    follow l f.components = follow l ((if f.rooted then [.root] else []) ++
      List.replicate f.climbs .up) ++ f.names.reverse := by
  rw [Folded.components, follow_append, follow_names]

/-- One more component is folded as it is followed. -/
lemma follow_push {f : Folded} (h : f.IsReduced) {c : Component} (hc : c.IsStep) (l : Location) :
    follow l (f.push c).components = step (follow l f.components) c := by
  cases c with
  | root => cases hc
  | here => cases hc
  | up =>
    rw [Folded.push]
    split
    · rename_i n names hnames
      rw [follow_components, follow_components, hnames, step, List.reverse_cons,
        ← List.append_assoc, List.dropLast_concat]
    · rename_i hnames
      split_ifs with hrooted
      · rw [Folded.components_of_rooted h hrooted, hnames]
        rfl
      · rw [follow_components, follow_components, hnames, List.reverse_nil, List.append_nil,
          List.append_nil, if_neg hrooted, List.nil_append, List.nil_append,
          List.replicate_succ', follow_append]
        rfl
  | name n =>
    rw [follow_components, step, follow_components, List.append_assoc, ← List.reverse_cons]
    rfl

lemma follow_foldl {f : Folded} (h : f.IsReduced) {cs : List Component}
    (hcs : ∀ c ∈ cs, c.IsStep) (l : Location) :
    follow l (cs.foldl Folded.push f).components = follow (follow l f.components) cs := by
  induction cs generalizing f with
  | nil => rfl
  | cons c cs ih =>
    obtain ⟨hc, hcs⟩ := List.forall_mem_cons.mp hcs
    rw [List.foldl_cons, ih (h.push hc) hcs, follow_push h hc]
    rfl

end Location

namespace Path

variable {p q base : Path}

/-- A folded path leads where the path does. -/
lemma follow_fold (l : Location) (p : Path) :
    Location.follow l p.fold.components = Location.follow l p.components := by
  have hsteps : ∀ c ∈ p.steps, c.IsStep := fun c => isStep_of_mem_steps
  rw [components_fold]
  cases h : p.isAbsolute with
  | true =>
    rw [folded_of_isAbsolute h, Location.follow_foldl ⟨fun _ => rfl, by simp⟩ hsteps,
      components_of_isAbsolute h]
    rfl
  | false =>
    rw [folded_of_relative h, Location.follow_foldl ⟨fun _ => rfl, by simp⟩ hsteps]
    rcases components_eq_of_relative h with hp | hp
    · rw [hp]
      rfl
    · rw [hp]
      rfl

/-- An absolute path folds to the location that it leads to. -/
lemma fold_eq_ofNames (h : p.isAbsolute = true) :
    p.fold = ofNames (Location.follow [] p.components) := by
  obtain ⟨names, hnames, hfold⟩ := exists_fold_eq h
  have hplace := follow_fold [] p
  rw [hfold, components_ofNames hnames] at hplace
  rw [hfold, ← hplace]
  exact congrArg ofNames (Location.follow_names [] names).symm

/-! ### What a folded path holds -/

lemma mem_names_foldl {f : Folded} {cs : List Component} {n : String}
    (h : n ∈ (cs.foldl Folded.push f).names) : n ∈ f.names ∨ .name n ∈ cs := by
  induction cs generalizing f with
  | nil => exact .inl h
  | cons c cs ih =>
    rcases ih h with h | h
    · cases c with
      | root => exact .inl h
      | here => exact .inl h
      | up =>
        rw [Folded.push] at h
        split at h
        · rename_i m names hnames
          rw [hnames]
          exact .inl (List.mem_cons_of_mem m h)
        · split_ifs at h <;> exact .inl h
      | name m =>
        rcases List.mem_cons.mp h with rfl | h
        · exact .inr List.mem_cons_self
        · exact .inl h
    · exact .inr (List.mem_cons_of_mem c h)

lemma mem_text_of_name {c : Char} {n : String} (h : .name n ∈ p.components) (hc : c ∈ n.toList) :
    c ∈ p.text.toList := by
  have hsteps : .name n ∈ p.steps := by
    rw [components_eq, List.mem_append] at h
    refine h.resolve_left fun hlead => ?_
    cases hp : p.lead <;> simp [hp, Lead.components] at hlead
  obtain ⟨s, hs, hn⟩ := List.mem_filterMap.mp hsteps
  rw [← Segment.component?_eq_name hn] at hc
  exact List.mem_of_mem_splitOn hs hc

/-- Folding brings in nothing but slashes and dots. -/
lemma mem_text_of_mem_fold {c : Char} (hslash : c ≠ '/') (hdot : c ≠ '.')
    (h : c ∈ p.fold.text.toList) : c ∈ p.text.toList := by
  have hpieces : ∃ s ∈ p.fold.pieces, c ∈ s := (List.mem_iff_exists_mem_splitOn hslash).mp h
  obtain ⟨s, hs, hcs⟩ := hpieces
  obtain ⟨d, hd⟩ := Segment.exists_component?_of_mem hdot hcs
  rw [← Segment.spelled_of_component? hd] at hcs
  have hmem : d ∈ p.fold.components := by
    rw [components_eq]
    exact List.mem_append_right _ (List.mem_filterMap.mpr ⟨s, hs, hd⟩)
  cases d with
  | root => cases hcs
  | here => exact absurd (List.mem_singleton.mp hcs) hdot
  | up => simp [Component.spelled, hdot] at hcs
  | name n =>
    have hn : n ∈ p.folded.names := by
      rw [components_fold, Folded.components] at hmem
      split_ifs at hmem <;> simpa [List.mem_replicate] using hmem
    rcases mem_names_foldl hn with hn | hn
    · cases hn
    · exact mem_text_of_name hn hcs

lemma mem_text_join {c : Char} (hslash : c ≠ '/') (hq : q.isAbsolute = false) :
    c ∈ (p.join q).text.toList ↔ c ∈ p.text.toList ∨ c ∈ q.text.toList := by
  rw [join, if_neg (by simp [hq])]
  split_ifs
  · rw [String.toList_append, List.mem_append]
  · rw [String.toList_append, String.toList_append]
    simp [hslash]

end Path

namespace FileTree

variable {t : FileTree} {p base : Path}

/-! ### Lookups that meet no link -/

section Walk

variable {follow : Location → List Segment → Except IoError Location} {here l : Location}

/-- A lookup that meets no link is the same whatever is done at links. -/
lemma walkWith_of_walk_zero {pieces : List Segment} (h : t.walk 0 here pieces = .ok l) :
    t.walkWith follow here pieces = .ok l := by
  induction pieces generalizing here with
  | nil => exact h
  | cons s rest ih =>
    obtain ⟨hdir, ⟨hs, h⟩ | ⟨hs, h⟩ | ⟨n, hs, hshort, ⟨-, -, ⟨⟩⟩ | ⟨e, he, hlink, h⟩⟩⟩ :=
      walkWith_cons_eq_ok.mp h
    · exact walkWith_cons_eq_ok.mpr ⟨hdir, .inl ⟨hs, ih h⟩⟩
    · exact walkWith_cons_eq_ok.mpr ⟨hdir, .inr (.inl ⟨hs, ih h⟩)⟩
    · exact walkWith_cons_eq_ok.mpr
        ⟨hdir, .inr (.inr ⟨n, hs, hshort, .inr ⟨e, he, hlink, ih h⟩⟩)⟩

/-- A lookup that meets no link goes on from where its first piece leads. -/
lemma walk_zero_cons {s : Segment} {rest : List Segment} :
    t.walk 0 here (s :: rest) = .ok l ↔ t.entry? here = some .directory ∧
      ∃ next, (s.component? = none ∧ next = here ∨ s.component? = some .up ∧ next = here.dropLast ∨
        ∃ n e, s.component? = some (.name n) ∧ n.utf8ByteSize ≤ nameLimit ∧
          t.entry? (here ++ [n]) = some e ∧ e.isLink = false ∧ next = here ++ [n]) ∧
        t.walk 0 next rest = .ok l := by
  refine walkWith_cons_eq_ok.trans (and_congr_right fun _ => ⟨?_, ?_⟩)
  · rintro (⟨hs, hwalk⟩ | ⟨hs, hwalk⟩ | ⟨n, hs, hshort, ⟨-, -, ⟨⟩⟩ | ⟨e, he, hlink, hwalk⟩⟩)
    · exact ⟨here, .inl ⟨hs, rfl⟩, hwalk⟩
    · exact ⟨here.dropLast, .inr (.inl ⟨hs, rfl⟩), hwalk⟩
    · exact ⟨here ++ [n], .inr (.inr ⟨n, e, hs, hshort, he, hlink, rfl⟩), hwalk⟩
  · rintro ⟨next, ⟨hs, rfl⟩ | ⟨hs, rfl⟩ | ⟨n, e, hs, hshort, he, hlink, rfl⟩, hwalk⟩
    · exact .inl ⟨hs, hwalk⟩
    · exact .inr (.inl ⟨hs, hwalk⟩)
    · exact .inr (.inr ⟨n, hs, hshort, .inr ⟨e, he, hlink, hwalk⟩⟩)

lemma walk_zero_append {front back : List Segment} :
    t.walk 0 here (front ++ back) = .ok l ↔
      ∃ m, t.walk 0 here front = .ok m ∧ t.walk 0 m back = .ok l := by
  induction front generalizing here with
  | nil => simp [walk, walkWith]
  | cons s front ih =>
    rw [List.cons_append, walk_zero_cons]
    simp only [walk_zero_cons, ih]
    constructor
    · rintro ⟨hdir, next, hnext, m, hfront, hback⟩
      exact ⟨m, ⟨hdir, next, hnext, hfront⟩, hback⟩
    · rintro ⟨m, ⟨hdir, next, hnext, hfront⟩, hback⟩
      exact ⟨hdir, next, hnext, m, hfront, hback⟩

/-- Where no link is met, a lookup ends where the components lead. -/
lemma eq_follow_of_walk_zero {pieces : List Segment} (hwalk : t.walk 0 here pieces = .ok l) :
    l = Location.follow here (pieces.filterMap Segment.component?) := by
  induction pieces generalizing here with
  | nil =>
    cases hwalk
    rfl
  | cons s rest ih =>
    obtain ⟨-, next, hnext, hrest⟩ := walk_zero_cons.mp hwalk
    obtain ⟨hs, rfl⟩ | ⟨hs, rfl⟩ | ⟨n, e, hs, -, -, -, rfl⟩ := hnext
    · rw [List.filterMap_cons_none hs]
      exact ih hrest
    · rw [List.filterMap_cons_some hs]
      exact ih hrest
    · rw [List.filterMap_cons_some hs]
      exact ih hrest

/-- A filler at the end changes nothing where there is a directory. -/
lemma walk_zero_append_filler (hdir : t.entry? l = some .directory) {front back : List Segment}
    (hback : back = [] ∨ back = [[]]) :
    t.walk 0 here (front ++ back) = .ok l ↔ t.walk 0 here front = .ok l := by
  rcases hback with rfl | rfl
  · rw [List.append_nil]
  · rw [walk_zero_append]
    constructor
    · rintro ⟨m, hm, hend⟩
      have hstays : t.walk 0 m [[]] = .ok m :=
        walkWith_filler (walkWith_cons_eq_ok.mp hend).1 rfl
      rw [hstays] at hend
      cases hend
      exact hm
    · intro hl
      exact ⟨l, hl, walkWith_filler hdir rfl⟩

/-- From a directory the levels above it can be climbed. -/
lemma walkWith_climb (k : Nat) {rest : List Segment} (h : t.Holds here .directory) :
    t.walkWith follow here (List.replicate k ['.', '.'] ++ rest) =
      t.walkWith follow (Location.follow here (List.replicate k .up)) rest := by
  induction k generalizing here with
  | zero => rfl
  | succ k ih =>
    rw [List.replicate_succ, List.replicate_succ, List.cons_append, walkWith,
      any_isDirectory.mpr h.entry?]
    exact ih h.dropLast

/-- Where a relative path leads from a location, its folded form does. -/
lemma walk_zero_fold (hhere : t.IsReal here) (hl : t.IsReal l) (hp : p.isAbsolute = false)
    (hwalk : t.walk 0 here p.pieces = .ok l) : t.walk 0 here p.fold.pieces = .ok l := by
  have hdir : t.Holds here .directory := by
    obtain ⟨s, rest, hpieces⟩ := List.exists_cons_of_ne_nil p.pieces_ne_nil
    rw [hpieces] at hwalk
    exact hhere.holds (walkWith_cons_eq_ok.mp hwalk).1
  have hplace : l = Location.follow here p.fold.components := by
    rw [Path.follow_fold, eq_follow_of_walk_zero hwalk]
    rcases Path.components_eq_of_relative hp with hc | hc
    · rw [hc]
      rfl
    · rw [hc]
      rfl
  have hcomponents := Path.components_fold_of_relative hp
  rw [hcomponents, Location.follow_append, Location.follow_names] at hplace
  rw [Path.pieces_fold_of_relative hp]
  split_ifs with hempty
  · -- nothing is left, and the empty path stands for where the lookup starts
    obtain ⟨hups, hnames⟩ := List.append_eq_nil_iff.mp (hcomponents.symm.trans hempty)
    have hstays : l = here := by
      rw [hplace, List.map_eq_nil_iff.mp hnames, hups, List.append_nil]
      rfl
    rw [hstays]
    exact walkWith_filler hdir.entry? rfl
  · rw [hcomponents, List.map_append, List.map_replicate, List.map_map]
    rw [hplace] at hl ⊢
    have hdescend := walkWith_descend hl (fun _ _ => .error .tooManyLinks) []
    rw [List.append_nil] at hdescend
    exact (walkWith_climb p.folded.climbs hdir).trans hdescend

end Walk

/-- Whether a path from the root leads to a location, and no link is met on the way. -/
structure LeadsPlainly (t : FileTree) (p : Path) (l : Location) : Prop where
  realpath : t.realpath p = .ok l
  walk : t.walk 0 [] p.pieces = .ok l

lemma leadsPlainly_iff {l : Location} (hp : p.isAbsolute = true) :
    t.LeadsPlainly p l ↔ '\x00' ∉ p.text.toList ∧ t.walk 0 [] p.pieces = .ok l := by
  constructor
  · rintro ⟨hreal, hwalk⟩
    exact ⟨not_mem_nul_of_realpath hreal, hwalk⟩
  · rintro ⟨hnul, hwalk⟩
    refine ⟨?_, hwalk⟩
    rw [realpath_eq hp hnul]
    exact walkWith_of_walk_zero hwalk

/-- An absolute path leads to the location that it folds to. -/
lemma LeadsPlainly.fold {l : Location} (hp : p.isAbsolute = true) (h : t.LeadsPlainly p l) :
    t.LeadsPlainly p.fold l := by
  have hl : l = Location.follow [] p.components := by
    rw [Path.components_of_isAbsolute hp]
    exact eq_follow_of_walk_zero h.walk
  have hreal := isReal_of_realpath hp h.realpath
  refine (leadsPlainly_iff (p.isAbsolute_fold.trans hp)).mpr ⟨?_, ?_⟩
  · have hnul := not_mem_nul_of_realpath h.realpath
    exact fun hmem => hnul (Path.mem_text_of_mem_fold (by decide) (by decide) hmem)
  · have hdown := walkWith_pieces_ofNames hreal (List.forall_mem_nil _)
      fun _ _ => .error .tooManyLinks
    rw [List.append_nil] at hdown
    rw [Path.fold_eq_ofNames hp, ← hl]
    exact hdown

/-- Where a lookup of a joined path passes the end of the first one, so it does with any relative
path in the place of the second. -/
lemma leadsPlainly_join_iff {l : Location} (hbase : base.isAbsolute = true)
    (hp : p.isAbsolute = false) :
    t.LeadsPlainly (base.join p) l ↔
      '\x00' ∉ base.text.toList ∧ '\x00' ∉ p.text.toList ∧
        ∃ m, t.walk 0 [] base.pieces = .ok m ∧ t.walk 0 m p.pieces = .ok l := by
  obtain ⟨front, back, hpieces, hjoin, -, hback⟩ :=
    Path.exists_pieces_join (Path.isEmpty_of_isAbsolute hbase) hp
  have hnul := Path.mem_text_join (c := '\x00') (p := base) (by decide) hp
  have hwalk : t.walk 0 [] (base.join p).pieces = .ok l ↔
      ∃ m, t.walk 0 [] base.pieces = .ok m ∧ t.walk 0 m p.pieces = .ok l := by
    rw [hjoin, walk_zero_append]
    refine exists_congr fun m => and_congr_left fun hm => ?_
    obtain ⟨s, rest, hs⟩ := List.exists_cons_of_ne_nil p.pieces_ne_nil
    rw [hs] at hm
    rw [hpieces, walk_zero_append_filler (walkWith_cons_eq_ok.mp hm).1 (hback.imp_left And.left)]
  rw [leadsPlainly_iff (Path.isAbsolute_join hbase), hnul, not_or, hwalk, and_assoc]

/-- Where a path leads to from a directory, its folded form leads to. -/
lemma LeadsPlainly.join_fold {l : Location} (hbase : base.isAbsolute = true)
    (h : t.LeadsPlainly (base.join p) l) : t.LeadsPlainly (base.join p.fold) l := by
  cases hp : p.isAbsolute with
  | true =>
    rw [Path.join_of_isAbsolute hp] at h
    rw [Path.join_of_isAbsolute (p.isAbsolute_fold.trans hp)]
    exact h.fold hp
  | false =>
    have hl := isReal_of_realpath (Path.isAbsolute_join hbase) h.realpath
    obtain ⟨hnul_base, hnul, m, hm, hwalk⟩ := (leadsPlainly_join_iff hbase hp).mp h
    have hreal := walk_isReal .root (fun s hs => Path.not_mem_of_mem_pieces hs) hm
    refine (leadsPlainly_join_iff hbase (p.isAbsolute_fold.trans hp)).mpr
      ⟨hnul_base, ?_, m, hm, walk_zero_fold hreal hl hp hwalk⟩
    exact fun hmem => hnul (Path.mem_text_of_mem_fold (by decide) (by decide) hmem)

end FileTree

/-! ### Main statement -/

/-- A folded path holds no `.`. From the root it goes through names alone, those of the location that
the path leads to when `..` at the root stays there; a relative one climbs some levels and goes
through names then. It leads where the path does, on a disk whenever the path leads somewhere and
meets no link. Folding again changes nothing, and a path may be folded before another is joined to
it. -/
theorem Path.fold_normal_and_join (p : Path) :
    .here ∉ p.fold.components ∧
    (p.isAbsolute = true → p.fold.isAbsolute = true ∧ .up ∉ p.fold.components ∧
      p.fold = ofNames (Location.follow [] p.components)) ∧
    (p.isAbsolute = false → ∃ (climbs : Nat) (names : List String), (∀ n ∈ names, IsName n) ∧
      p.fold.components = List.replicate climbs .up ++ names.map .name) ∧
    (∀ l, Location.follow l p.fold.components = Location.follow l p.components) ∧
    (∀ (t : FileTree) (base : Path) (l : Location), base.isAbsolute = true →
      t.LeadsPlainly (base.join p) l → t.LeadsPlainly (base.join p.fold) l) ∧
    p.fold.fold = p.fold ∧
    ∀ a b : Path, (a.join b).fold = (a.fold.join b).fold := by
  refine ⟨?_, fun h => ⟨p.isAbsolute_fold.trans h, ?_, fold_eq_ofNames h⟩, fun h => ?_,
    fun l => follow_fold l p, fun t base l hbase => FileTree.LeadsPlainly.join_fold hbase,
    fold_fold p, fold_join⟩
  · cases h : p.isAbsolute with
    | true => simp [components_fold_of_isAbsolute h]
    | false => simp [components_fold_of_relative h, List.mem_replicate]
  · simp [components_fold_of_isAbsolute h]
  · refine ⟨_, _, fun n hn => ?_, components_fold_of_relative h⟩
    exact p.isReduced_folded.names n (List.mem_reverse.mp hn)

/-- A source directory with a package and a module beside it, and a link to the module. -/
def FileTree.packageTree : FileTree :=
  { entries := [(["src"], .directory), (["src", "pkg"], .directory), (["src", "a.py"], .file []),
      (["src", "b.py"], .link ⟨"a.py"⟩)] }

/-- A path that goes down and farther up again than it came, and then back down. -/
theorem Path.fold_normal_and_join_climbing :
    fold ⟨"./pkg/..//../src/a.py"⟩ = ⟨"../src/a.py"⟩ ∧
      FileTree.packageTree.LeadsPlainly (join ⟨"/src"⟩ ⟨"../src/a.py"⟩) ["src", "a.py"] := by
  have hfold : fold ⟨"./pkg/..//../src/a.py"⟩ = ⟨"../src/a.py"⟩ := by decide +kernel
  have hleads : FileTree.packageTree.LeadsPlainly (join ⟨"/src"⟩ ⟨"./pkg/..//../src/a.py"⟩)
      ["src", "a.py"] := ⟨by decide +kernel, by decide +kernel⟩
  obtain ⟨-, -, -, -, leads, -⟩ := fold_normal_and_join ⟨"./pkg/..//../src/a.py"⟩
  refine ⟨hfold, ?_⟩
  rw [← hfold]
  exact leads _ ⟨"/src"⟩ _ (by decide) hleads

end ProjectScope

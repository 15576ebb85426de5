import ProjectScope.Proofs.FileTree.Resolution
import ProjectScope.Proofs.Path.NormalForm

/-!
# Where a path is split

The parts of a path are looked up from the whole path downwards. A part that is absent is passed
over; the first one that is not either exists, and the path is split there, or is the error. The
parts are spelled anew from components, which drops a slash at the end of the path: there a regular
file is taken for what the path itself does not lead to.
-/

namespace ProjectScope

open ProjectScope.Path (ofNames ofComponents)

/-- Whether a path ends in a slash, or in a dot that is no component, and so asks for a directory. -/
def Path.asksForDirectory (p : Path) : Bool := p.pieces.getLast?.any Segment.isFiller

namespace FileTree

variable {t : FileTree} {p q : Path}

/-! ### Fillers at the end -/

/-- Whether pieces may end at a location: a filler at their end asks for a directory. -/
def AllowsEnd (t : FileTree) (l : Location) (pieces : List Segment) : Prop :=
  t.entry? l = some .directory ∨ ∀ s ∈ pieces.getLast?, s.component? ≠ none

lemma AllowsEnd.tail {l : Location} {s : Segment} {pieces : List Segment}
    (h : t.AllowsEnd l (s :: pieces)) : t.AllowsEnd l pieces := by
  refine h.imp_right fun hend => ?_
  cases pieces with
  | nil => simp
  | cons s' pieces => rwa [List.getLast?_cons_cons] at hend

lemma AllowsEnd.append {l : Location} {pieces : List Segment} (h : t.AllowsEnd l pieces)
    (hne : pieces ≠ []) (front : List Segment) : t.AllowsEnd l (front ++ pieces) := by
  refine h.imp_right fun hend => ?_
  rwa [List.getLast?_append_of_ne_nil front hne]

section Walk

variable {follow : Location → List Segment → Except IoError Location} {here l : Location}
  {xs ys pieces : List Segment}

/-- A lookup that succeeds without some fillers does so with them, if they may stand at the end. -/
lemma walkWith_of_thinned (hfollow : ∀ here xs ys, Thins xs ys → t.AllowsEnd l xs →
    follow here ys = .ok l → follow here xs = .ok l) (h : Thins xs ys) (hend : t.AllowsEnd l xs)
    (hys : t.walkWith follow here ys = .ok l) : t.walkWith follow here xs = .ok l := by
  induction h generalizing here with
  | nil => exact hys
  | @drop s xs ys filler rest ih =>
    have hxs := ih hend.tail hys
    have hdir : t.entry? here = some .directory := by
      cases xs with
      | nil =>
        cases hxs
        exact hend.resolve_right fun hlast => hlast s rfl filler
      | cons s' xs => exact (walkWith_cons_eq_ok.mp hxs).1
    rw [walkWith_filler hdir filler]
    exact hxs
  | @keep s xs ys rest ih =>
    obtain ⟨hdir, ⟨hs, h⟩ | ⟨hs, h⟩ | ⟨n, hs, hshort, ⟨target, he, h⟩ | ⟨e, he, hlink, h⟩⟩⟩ :=
      walkWith_cons_eq_ok.mp hys
    all_goals refine walkWith_cons_eq_ok.mpr ⟨hdir, ?_⟩
    · exact .inl ⟨hs, ih hend.tail h⟩
    · exact .inr (.inl ⟨hs, ih hend.tail h⟩)
    · refine .inr (.inr ⟨n, hs, hshort, .inl ⟨target, he, ?_⟩⟩)
      by_cases hxs : xs = []
      · -- a link at the end is followed in the same way
        subst hxs
        cases rest
        exact h
      · exact hfollow _ _ _ (rest.append _) (hend.tail.append hxs _) h
    · exact .inr (.inr ⟨n, hs, hshort, .inr ⟨e, he, hlink, ih hend.tail h⟩⟩)

lemma walk_of_thinned {links : Nat} (h : Thins xs ys) (hend : t.AllowsEnd l xs)
    (hys : t.walk links here ys = .ok l) : t.walk links here xs = .ok l := by
  induction links generalizing here xs ys with
  | zero => exact walkWith_of_thinned (fun _ _ _ _ _ h => by cases h) h hend hys
  | succ links ih => exact walkWith_of_thinned (fun _ _ _ => ih) h hend hys

/-- A lookup with a filler at its end ends at a directory. -/
lemma allowsEnd_of_walkWith (hfollow : ∀ here pieces, follow here pieces = .ok l →
    t.AllowsEnd l pieces) (h : t.walkWith follow here pieces = .ok l) : t.AllowsEnd l pieces := by
  induction pieces generalizing here with
  | nil => exact .inr (by simp)
  | cons s rest ih =>
    obtain ⟨hdir, hcases⟩ := walkWith_cons_eq_ok.mp h
    rcases eq_or_ne rest [] with rfl | hne
    · cases hs : s.component? with
      | none =>
        rw [walkWith_filler hdir hs] at h
        cases h
        exact .inl hdir
      | some c => exact .inr (by simp [hs])
    · refine AllowsEnd.append ?_ hne [s]
      obtain ⟨-, h⟩ | ⟨-, h⟩ | ⟨n, -, -, ⟨target, -, h⟩ | ⟨e, -, -, h⟩⟩ := hcases
      · exact ih h
      · exact ih h
      · have hend := hfollow _ _ h
        rwa [AllowsEnd, List.getLast?_append_of_ne_nil target.pieces hne] at hend
      · exact ih h

lemma allowsEnd_of_walk {links : Nat} (h : t.walk links here pieces = .ok l) :
    t.AllowsEnd l pieces := by
  induction links generalizing here pieces with
  | zero => exact allowsEnd_of_walkWith (fun _ _ h => by cases h) h
  | succ links ih => exact allowsEnd_of_walkWith (fun _ _ => ih) h

end Walk

lemma allowsEnd_iff {l : Location} : t.AllowsEnd l p.pieces ↔
    (p.asksForDirectory = true → t.entry? l = some .directory) := by
  have hlast : p.asksForDirectory = true ↔ ¬ ∀ s ∈ p.pieces.getLast?, s.component? ≠ none := by
    rw [Path.asksForDirectory, List.getLast?_eq_some_getLast p.pieces_ne_nil]
    have hfiller (s : Segment) : s.isFiller = true ↔ s.component? = none :=
      ⟨Segment.component?_of_isFiller, Segment.isFiller_of_component?_eq_none⟩
    simp [hfiller]
  rw [AllowsEnd, hlast, not_imp_comm, ← or_iff_not_imp_left]

/-- A path leads somewhere exactly when it does spelled anew, to a directory if it asks for one. -/
lemma realpath_eq_ok_iff {l : Location} (habs : p.isAbsolute = true) :
    t.realpath p = .ok l ↔ t.realpath (ofComponents p.components) = .ok l ∧
      (p.asksForDirectory = true → t.entry? l = some .directory) := by
  rw [← allowsEnd_iff]
  constructor
  · intro h
    refine ⟨realpath_ofComponents habs h, ?_⟩
    rw [realpath_eq habs (not_mem_nul_of_realpath h)] at h
    exact allowsEnd_of_walk h
  · rintro ⟨h, hend⟩
    have hnul := not_mem_nul_of_realpath h
    rw [realpath_ofComponents_eq habs hnul] at h
    rw [realpath_eq habs fun hmem =>
      hnul (Path.mem_ofComponents_of_mem_text (by decide) (by decide) habs hmem)]
    exact walk_of_thinned (thins_spelled p.pieces) hend h

/-! ### Where the search ends -/

/-- How a path is split when every longer part is absent. -/
structure IsSplit (t : FileTree) (p : Path) (kept rest : List Component) : Prop where
  components : p.components = kept ++ rest
  ne_nil : kept ≠ []
  absent : ∀ longer, kept <+: longer → longer ≠ kept → longer <+: p.components →
    ∃ e, t.realpath (ofComponents longer) = .error e ∧ isAbsence e = true

section IsSplit

variable {kept rest : List Component} {c : Component}

lemma isSplit_self (habs : p.isAbsolute = true) : t.IsSplit p p.components [] := by
  refine ⟨(List.append_nil _).symm, ?_, fun longer hlonger hne hp => ?_⟩
  · rw [Path.components_of_isAbsolute habs]
    simp
  · exact absurd (hp.eq_of_length_le hlonger.length_le) hne

/-- A part that is absent is passed over. -/
lemma IsSplit.shorten {e : IoError} (h : t.IsSplit p (kept ++ [c]) rest) (hne : kept ≠ [])
    (he : t.realpath (ofComponents (kept ++ [c])) = .error e) (habsent : isAbsence e = true) :
    t.IsSplit p kept (c :: rest) := by
  refine ⟨by rw [h.components, List.append_assoc]; rfl, hne, fun longer hlonger hlonger_ne hp => ?_⟩
  by_cases hsame : longer = kept ++ [c]
  · rw [hsame]
    exact ⟨e, he, habsent⟩
  · refine h.absent longer ?_ hsame hp
    have hkept : kept ++ [c] <+: p.components := by
      rw [h.components]
      exact List.prefix_append _ _
    -- both go on from what is kept, and one of them from the other
    obtain ⟨more, rfl⟩ := hlonger
    rcases List.prefix_or_prefix_of_prefix hkept hp with hgoes | hstops
    · exact hgoes
    · exfalso
      rw [List.prefix_append_right_inj] at hstops
      rcases List.prefix_cons_iff.mp hstops with rfl | ⟨more, rfl, hmore⟩
      · exact hlonger_ne (List.append_nil kept)
      · rw [List.prefix_nil.mp hmore] at hsame
        exact hsame rfl

/-- The search ends at a part that exists or fails for another reason than absence. -/
lemma IsSplit.exists_end (habs : p.isAbsolute = true) (h : t.IsSplit p kept rest) :
    ∃ kept rest, t.IsSplit p kept rest ∧ ((∃ l, t.realpath (ofComponents kept) = .ok l) ∨
      ∃ e, t.realpath (ofComponents kept) = .error e ∧ isAbsence e = false) := by
  induction kept using List.reverseRecOn generalizing rest with
  | nil => exact absurd rfl h.ne_nil
  | append_singleton kept c ih =>
    cases hreal : t.realpath (ofComponents (kept ++ [c])) with
    | ok l => exact ⟨kept ++ [c], rest, h, .inl ⟨l, hreal⟩⟩
    | error e =>
      cases habsent : isAbsence e with
      | false => exact ⟨kept ++ [c], rest, h, .inr ⟨e, hreal, habsent⟩⟩
      | true =>
        refine ih (h.shorten ?_ hreal habsent)
        -- the root alone is never absent
        rintro rfl
        have hroot := h.components
        rw [Path.components_of_isAbsolute habs, List.nil_append] at hroot
        obtain ⟨rfl, -⟩ := List.cons.inj hroot
        have hexists : t.realpath (ofNames []) = .ok [] := realpath_ofNames .root (by decide)
        rw [List.nil_append, ← List.map_nil (f := Component.name), Path.ofComponents_names,
          hexists] at hreal
        cases hreal

lemma IsSplit.canonicalizeExisting_eq (h : t.IsSplit p kept rest) :
    t.canonicalizeExisting p = t.splitExisting p kept.reverse rest := by
  rw [canonicalizeExisting, h.components, List.reverse_append, splitExisting_skip,
    List.reverse_reverse, List.append_nil]
  intro more hmore hne
  rw [List.reverse_append, List.reverse_reverse]
  apply h.absent
  · exact List.prefix_append _ _
  · simpa using hne
  · rw [h.components, List.prefix_append_right_inj]
    simpa using List.reverse_prefix.mpr hmore

lemma IsSplit.canonicalizeExisting_of_realpath {l : Location} (h : t.IsSplit p kept rest)
    (hl : t.realpath (ofComponents kept) = .ok l) :
    t.canonicalizeExisting p =
      .ok ⟨ofNames l, if rest.isEmpty then none else some (ofComponents rest)⟩ := by
  rw [h.canonicalizeExisting_eq, splitExisting_of_realpath (by simpa using h.ne_nil)]
  rwa [List.reverse_reverse]

lemma IsSplit.canonicalizeExisting_of_error {e : IoError} (h : t.IsSplit p kept rest)
    (he : t.realpath (ofComponents kept) = .error e) (habsent : isAbsence e = false) :
    t.canonicalizeExisting p = .error (if e.kind = .permissionDenied
      then .permissionDenied (ofComponents kept) else .io (ofComponents kept) e) := by
  have hkind : e.kind ≠ .notFound := by
    intro hkind
    simp [isAbsence, hkind] at habsent
  rw [h.canonicalizeExisting_eq, splitExisting_of_error (e := e) (by simpa using h.ne_nil) _ habsent,
    List.reverse_reverse, Error.ofIo_of_ne_notFound _ hkind]
  rwa [List.reverse_reverse]

/-- Both parts of a split path are spelled as they are meant. -/
lemma IsSplit.spelled (habs : p.isAbsolute = true) (h : t.IsSplit p kept rest) :
    (ofComponents kept).components = kept ∧ (ofComponents rest).components = rest := by
  have hp := h.components
  obtain ⟨c, kept, rfl⟩ := List.exists_cons_of_ne_nil h.ne_nil
  rw [Path.components_of_isAbsolute habs, List.cons_append] at hp
  obtain ⟨rfl, hsteps⟩ := List.cons.inj hp
  have hall : ∀ c ∈ kept ++ rest, c.IsStep := by
    rw [← hsteps]
    exact fun c => Path.isStep_of_mem_steps
  obtain ⟨hkept, hrest⟩ := List.forall_mem_append.mp hall
  exact ⟨Path.components_ofComponents hkept, Path.components_ofComponents_steps hrest⟩

/-- Nothing is left exactly when the whole path exists once it is spelled anew. -/
lemma IsSplit.eq_nil_iff {l : Location} (h : t.IsSplit p kept rest)
    (hl : t.realpath (ofComponents kept) = .ok l) :
    rest = [] ↔ ∃ l', t.realpath (ofComponents p.components) = .ok l' := by
  constructor
  · rintro rfl
    have hp := h.components
    rw [List.append_nil] at hp
    exact ⟨l, by rw [hp, hl]⟩
  · rintro ⟨l', hl'⟩
    by_contra hne
    have hlonger : p.components ≠ kept := by
      rw [h.components]
      simpa using hne
    obtain ⟨e, he, -⟩ := h.absent p.components (by simp [h.components]) hlonger List.prefix_rfl
    rw [hl'] at he
    cases he

/-- Where nothing longer is left, the path as it is spelled exists if it may end where it does. -/
lemma IsSplit.exists_realpath_iff {l : Location} (habs : p.isAbsolute = true)
    (h : t.IsSplit p kept rest) (hl : t.realpath (ofComponents kept) = .ok l) :
    (∃ l', t.realpath p = .ok l') ↔
      rest = [] ∧ (p.asksForDirectory = true → t.entry? l = some .directory) := by
  simp only [realpath_eq_ok_iff habs]
  constructor
  · rintro ⟨l', hl', hend⟩
    have hempty := (h.eq_nil_iff hl).mpr ⟨l', hl'⟩
    refine ⟨hempty, ?_⟩
    rw [h.components, hempty, List.append_nil, hl] at hl'
    cases hl'
    exact hend
  · rintro ⟨rfl, hend⟩
    refine ⟨l, ?_, hend⟩
    rw [h.components, List.append_nil, hl]

end IsSplit

/-! ### Main statement -/

/-- Splitting succeeds exactly at a part that exists when every longer one is absent. -/
lemma canonicalizeExisting_eq_ok_iff (habs : p.isAbsolute = true) {found : PartialPath} :
    t.canonicalizeExisting p = .ok found ↔ ∃ kept rest l, t.IsSplit p kept rest ∧
      t.realpath (ofComponents kept) = .ok l ∧
      found = ⟨ofNames l, if rest.isEmpty then none else some (ofComponents rest)⟩ := by
  constructor
  · intro h
    obtain ⟨kept, rest, hsplit, ⟨l, hl⟩ | ⟨e, he, habsent⟩⟩ := (isSplit_self habs).exists_end habs
    · rw [hsplit.canonicalizeExisting_of_realpath hl] at h
      exact ⟨kept, rest, l, hsplit, hl, (Except.ok.inj h).symm⟩
    · rw [hsplit.canonicalizeExisting_of_error he habsent] at h
      cases h
  · rintro ⟨kept, rest, l, hsplit, hl, rfl⟩
    exact hsplit.canonicalizeExisting_of_realpath hl

/-- Splitting fails exactly at a part that fails otherwise when every longer one is absent. -/
lemma canonicalizeExisting_eq_error_iff (habs : p.isAbsolute = true) {err : Error} :
    t.canonicalizeExisting p = .error err ↔ ∃ kept rest e, t.IsSplit p kept rest ∧
      t.realpath (ofComponents kept) = .error e ∧ isAbsence e = false ∧
      err = if e.kind = .permissionDenied then .permissionDenied (ofComponents kept)
        else .io (ofComponents kept) e := by
  constructor
  · intro h
    obtain ⟨kept, rest, hsplit, ⟨l, hl⟩ | ⟨e, he, habsent⟩⟩ := (isSplit_self habs).exists_end habs
    · rw [hsplit.canonicalizeExisting_of_realpath hl] at h
      cases h
    · rw [hsplit.canonicalizeExisting_of_error he habsent] at h
      exact ⟨kept, rest, e, hsplit, he, habsent, (Except.error.inj h).symm⟩
  · rintro ⟨kept, rest, e, hsplit, he, habsent, rfl⟩
    exact hsplit.canonicalizeExisting_of_error he habsent

/-- An absolute path is split at the longest part that exists: every longer part is absent, and the
two parts together are the path, component by component. Nothing is left exactly when the path
exists once it is spelled from its components; the path as it is spelled exists exactly when, besides,
it ends at a directory if it asks for one. Splitting fails exactly with the failure of the longest
part that is not absent. What the path resolves to holds neither `.` nor `..`; a path that exists
resolves to where it leads. -/
theorem canonicalizeExisting_splits (habs : p.isAbsolute = true) :
    (∀ found, t.canonicalizeExisting p = .ok found → ∃ kept rest l, t.IsSplit p kept rest ∧
      (ofComponents kept).components = kept ∧ (ofComponents rest).components = rest ∧
      t.realpath (ofComponents kept) = .ok l ∧ found.canonical = ofNames l ∧
      found.rest = (if rest = [] then none else some (ofComponents rest)) ∧
      (found.rest = none ↔ ∃ l', t.realpath (ofComponents p.components) = .ok l') ∧
      ((∃ l', t.realpath p = .ok l') ↔
        found.rest = none ∧ (p.asksForDirectory = true → t.entry? l = some .directory))) ∧
    (∀ err, t.canonicalizeExisting p = .error err ↔ ∃ kept rest e, t.IsSplit p kept rest ∧
      t.realpath (ofComponents kept) = .error e ∧ isAbsence e = false ∧
      err = if e.kind = .permissionDenied then .permissionDenied (ofComponents kept)
        else .io (ofComponents kept) e) ∧
    (∀ q reason, t.canonicalizeExisting p ≠ .error (.invalidPath q reason)) ∧
    (∀ q, t.resolve p = .ok q →
      q.isAbsolute = true ∧ .here ∉ q.components ∧ .up ∉ q.components) ∧
    ∀ l, t.realpath p = .ok l → t.resolve p = .ok (ofNames l) := by
  refine ⟨fun found h => ?_, fun err => canonicalizeExisting_eq_error_iff habs, fun q reason h => ?_,
    fun q h => ?_, fun l => resolve_of_realpath habs⟩
  · obtain ⟨kept, rest, l, hsplit, hl, rfl⟩ := (canonicalizeExisting_eq_ok_iff habs).mp h
    obtain ⟨hkept, hrest⟩ := hsplit.spelled habs
    have hnone : (if rest.isEmpty then none else some (ofComponents rest)) = none ↔
        rest = [] := by simp
    refine ⟨kept, rest, l, hsplit, hkept, hrest, hl, rfl, by simp, ?_, ?_⟩
    · rw [hnone, hsplit.eq_nil_iff hl]
    · rw [hnone, hsplit.exists_realpath_iff habs hl]
  · obtain ⟨kept, rest, e, -, -, -, herr⟩ := (canonicalizeExisting_eq_error_iff habs).mp h
    split_ifs at herr
  · obtain ⟨names, hnames, rfl⟩ := exists_names_of_resolve habs h
    refine ⟨Path.isAbsolute_ofNames names, ?_, ?_⟩
    · simp [Path.components_ofNames hnames]
    · simp [Path.components_ofNames hnames]

/-- A directory with a link to it, a link to itself and a regular file. -/
def scriptTree : FileTree :=
  { entries := [(["bin"], .directory), (["link"], .link ⟨"bin"⟩), (["loop"], .link ⟨"loop"⟩),
      (["bin", "run.py"], .file [])] }

/-- A missing name below a link is left, and taking it back is left with it; a link to itself is a
failure of its own. -/
theorem canonicalizeExisting_splits_link :
    (∃ kept rest l, scriptTree.IsSplit ⟨"/link/ghost/../run.py"⟩ kept rest ∧
      scriptTree.realpath (ofComponents kept) = .ok l ∧ ofNames l = ⟨"/bin"⟩ ∧
      (ofComponents rest).components = rest) ∧
    ∃ kept rest e, scriptTree.IsSplit ⟨"/loop/run.py"⟩ kept rest ∧
      scriptTree.realpath (ofComponents kept) = .error e ∧ isAbsence e = false ∧
      .io ⟨"/loop/run.py"⟩ .tooManyLinks = if e.kind = .permissionDenied
        then Error.permissionDenied (ofComponents kept) else .io (ofComponents kept) e := by
  have hfound : scriptTree.canonicalizeExisting ⟨"/link/ghost/../run.py"⟩ =
      .ok ⟨⟨"/bin"⟩, some ⟨"ghost/../run.py"⟩⟩ := by decide +kernel
  have hfails : scriptTree.canonicalizeExisting ⟨"/loop/run.py"⟩ =
      .error (.io ⟨"/loop/run.py"⟩ .tooManyLinks) := by decide +kernel
  obtain ⟨finds, -⟩ := canonicalizeExisting_splits (t := scriptTree)
    (p := ⟨"/link/ghost/../run.py"⟩) (by decide)
  obtain ⟨-, fails, -⟩ := canonicalizeExisting_splits (t := scriptTree)
    (p := ⟨"/loop/run.py"⟩) (by decide)
  obtain ⟨kept, rest, l, hsplit, -, hrest, hl, hcanonical, -⟩ := finds _ hfound
  exact ⟨⟨kept, rest, l, hsplit, hl, hcanonical.symm, hrest⟩, (fails _).mp hfails⟩

/-- With a slash at the end, a regular file does not exist; but nothing is left of the path. -/
theorem canonicalizeExisting_file_slash :
    Path.isAbsolute ⟨"/bin/run.py/"⟩ = true ∧
    scriptTree.canonicalizeExisting ⟨"/bin/run.py/"⟩ = .ok ⟨⟨"/bin/run.py"⟩, none⟩ ∧
    scriptTree.realpath ⟨"/bin/run.py/"⟩ = .error .notADirectory := by
  decide +kernel

end FileTree

end ProjectScope

import ProjectScope.Proofs.FileTree.Lookup
import ProjectScope.Proofs.Path.Folding
import ProjectScope.Proofs.Result

/-!
# Resolved paths

Resolving an absolute path yields one that is spelled by names alone: those of the location that
its longest existing part leads to, and those that are folded on top. Names of which the first that
is not there is absent resolve to themselves.
-/

namespace ProjectScope

open ProjectScope.Path (ofNames ofComponents)

namespace FileTree

variable {t : FileTree} {p q : Path}

/-! ### The longest part that exists -/

/-- The components of a path are split where the longest part that exists ends. -/
lemma exists_of_splitExisting {before rest : List Component} {found : PartialPath}
    (h : t.splitExisting p before rest = .ok found) :
    ∃ skipped kept l, before = skipped ++ kept ∧ kept ≠ [] ∧
      t.realpath (ofComponents kept.reverse) = .ok l ∧
      found = ⟨ofNames l, if (skipped.reverse ++ rest).isEmpty then none
        else some (ofComponents (skipped.reverse ++ rest))⟩ := by
  induction before generalizing rest with
  | nil => cases h
  | cons c before ih =>
    rw [splitExisting] at h
    split at h
    · rename_i l hl
      cases h
      exact ⟨[], c :: before, l, rfl, by simp, hl, rfl⟩
    · split_ifs at h
      obtain ⟨skipped, kept, l, rfl, hne, hl, hfound⟩ := ih h
      refine ⟨c :: skipped, kept, l, rfl, hne, hl, ?_⟩
      simpa using hfound

/-- Parts that are absent are passed over. -/
lemma splitExisting_skip {skipped kept rest : List Component}
    (h : ∀ more, more <:+ skipped → more ≠ [] →
      ∃ e, t.realpath (ofComponents (more ++ kept).reverse) = .error e ∧ isAbsence e = true) :
    t.splitExisting p (skipped ++ kept) rest =
      t.splitExisting p kept (skipped.reverse ++ rest) := by
  induction skipped generalizing rest with
  | nil => rfl
  | cons c skipped ih =>
    obtain ⟨e, he, habsent⟩ := h (c :: skipped) List.suffix_rfl (by simp)
    rw [List.cons_append] at he ⊢
    simp only [splitExisting, he, habsent, if_true]
    rw [ih fun more hmore => h more (hmore.trans (List.suffix_cons c skipped))]
    simp

lemma splitExisting_of_realpath {kept rest : List Component} {l : Location} (hne : kept ≠ [])
    (h : t.realpath (ofComponents kept.reverse) = .ok l) :
    t.splitExisting p kept rest =
      .ok ⟨ofNames l, if rest.isEmpty then none else some (ofComponents rest)⟩ := by
  obtain ⟨c, kept, rfl⟩ := List.exists_cons_of_ne_nil hne
  simp only [splitExisting, h]

lemma splitExisting_of_error {kept rest : List Component} {e : IoError} (hne : kept ≠ [])
    (h : t.realpath (ofComponents kept.reverse) = .error e) (he : isAbsence e = false) :
    t.splitExisting p kept rest = .error (.ofIo (ofComponents kept.reverse) e) := by
  obtain ⟨c, kept, rfl⟩ := List.exists_cons_of_ne_nil hne
  simp only [splitExisting, h, he]
  rfl

lemma splitExisting_congr {p' : Path} {before rest : List Component} {found : PartialPath}
    (h : t.splitExisting p before rest = .ok found) :
    t.splitExisting p' before rest = .ok found := by
  induction before generalizing rest with
  | nil => cases h
  | cons c before ih =>
    rw [splitExisting] at h ⊢
    split at h
    · exact h
    · split_ifs at h ⊢
      exact ih h

/-! ### Resolved paths -/

/-- A resolved path is the location of the longest part that exists, with the rest folded on top. -/
lemma exists_of_resolve (h : t.resolve p = .ok q) :
    ∃ kept rest l, p.components = kept ++ rest ∧ kept ≠ [] ∧
      t.realpath (ofComponents kept) = .ok l ∧
      q = if rest.isEmpty then ofNames l else ((ofNames l).join (ofComponents rest)).fold := by
  obtain ⟨found, hfound, hq⟩ := bind_eq_ok.mp h
  obtain ⟨skipped, kept, l, hbefore, hne, hl, rfl⟩ := exists_of_splitExisting hfound
  refine ⟨kept.reverse, skipped.reverse, l, ?_, by simpa using hne, hl, ?_⟩
  · rw [← List.reverse_append, ← hbefore, List.reverse_reverse]
  · rw [List.append_nil] at hq
    cases hrest : skipped.reverse.isEmpty with
    | true =>
      simp only [hrest, if_true] at hq ⊢
      exact (Except.ok.inj hq).symm
    | false =>
      simp only [hrest, Bool.false_eq_true, if_false] at hq ⊢
      exact (Except.ok.inj hq).symm

/-- The longest part that exists starts where the path does. -/
lemma IsPlaced.of_components {kept rest : List Component} (h : t.IsPlaced p)
    (hp : p.components = kept ++ rest) (hne : kept ≠ []) : t.IsPlaced (ofComponents kept) := by
  refine h.imp_left fun habs => ?_
  obtain ⟨c, kept, rfl⟩ := List.exists_cons_of_ne_nil hne
  rw [Path.components_of_isAbsolute habs, List.cons_append] at hp
  obtain ⟨rfl, hsteps⟩ := List.cons.inj hp
  have hkept : ∀ c ∈ kept, c.IsStep := by
    intro c hc
    refine Path.isStep_of_mem_steps (p := p) ?_
    rw [hsteps]
    exact List.mem_append_left rest hc
  rw [Path.isAbsolute_iff_mem, Path.components_ofComponents hkept]
  exact List.mem_cons_self

/-- The names of a resolved path. -/
lemma exists_names_of_isPlaced (hp : t.IsPlaced p) (h : t.resolve p = .ok q) :
    ∃ names, (∀ n ∈ names, IsName n) ∧ q = ofNames names := by
  obtain ⟨kept, rest, l, hsplit, hne, hl, hq⟩ := exists_of_resolve h
  cases hrest : rest.isEmpty with
  | true =>
    rw [hrest, if_pos rfl] at hq
    exact ⟨l, names_of_realpath (hp.of_components hsplit hne) hl, hq⟩
  | false =>
    rw [hrest, if_neg (by simp)] at hq
    rw [hq]
    exact Path.exists_fold_eq (Path.isAbsolute_join (Path.isAbsolute_ofNames l))

lemma exists_names_of_resolve (habs : p.isAbsolute = true) (h : t.resolve p = .ok q) :
    ∃ names, (∀ n ∈ names, IsName n) ∧ q = ofNames names :=
  exists_names_of_isPlaced (.inl habs) h

lemma isAbsolute_of_resolve (h : t.resolve p = .ok q) : q.isAbsolute = true := by
  obtain ⟨kept, rest, l, -, -, -, hq⟩ := exists_of_resolve h
  rw [hq]
  split_ifs
  · exact Path.isAbsolute_ofNames l
  · obtain ⟨names, -, hfold⟩ := Path.exists_fold_eq (Path.isAbsolute_join (Path.isAbsolute_ofNames l))
    rw [hfold]
    exact Path.isAbsolute_ofNames names

/-- What a path resolves to depends on its components alone. -/
lemma resolve_congr {p' : Path} (hp : p.components = p'.components) (h : t.resolve p = .ok q) :
    t.resolve p' = .ok q := by
  obtain ⟨found, hfound, hq⟩ := bind_eq_ok.mp h
  rw [canonicalizeExisting, hp] at hfound
  exact bind_eq_ok.mpr ⟨found, splitExisting_congr hfound, hq⟩

/-- A resolved path is spelled from what it means. -/
lemma ofComponents_components_of_resolve (hp : t.IsPlaced p) (h : t.resolve p = .ok q) :
    .ofComponents q.components = q := by
  obtain ⟨names, hnames, rfl⟩ := exists_names_of_isPlaced hp h
  rw [Path.components_ofNames hnames, Path.ofComponents_names]

/-! ### Names that are resolved -/

/-- Whether there is no entry of a name that could be there. -/
def IsAbsent (t : FileTree) (l : Location) (n : String) : Prop :=
  t.entry? l ≠ some .directory ∨ n.utf8ByteSize ≤ nameLimit ∧ t.entry? (l ++ [n]) = none

section Absent

variable {l : Location} {n : String}

lemma walkWith_of_isAbsent {follow : Location → List Segment → Except IoError Location}
    (hn : IsName n) (h : t.IsAbsent l n) (more : List Segment) :
    ∃ e, t.walkWith follow l (n.toList :: more) = .error e ∧ isAbsence e = true := by
  rw [walkWith]
  rcases h with h | ⟨hshort, h⟩
  · refine ⟨.notADirectory, ?_, rfl⟩
    rw [ne_eq, ← any_isDirectory, Bool.not_eq_true] at h
    simp [h]
  · cases hdir : (t.entry? l).any Entry.isDirectory with
    | true => exact ⟨.notFound, by simp [hn.2, Nat.not_lt.mpr hshort, h], rfl⟩
    | false => exact ⟨.notADirectory, by simp, rfl⟩

lemma walkWith_of_tooLong {follow : Location → List Segment → Except IoError Location}
    (hn : IsName n) (hdir : t.entry? l = some .directory) (hlong : nameLimit < n.utf8ByteSize)
    (more : List Segment) :
    t.walkWith follow l (n.toList :: more) = .error .nameTooLong := by
  rw [walkWith, any_isDirectory.mpr hdir]
  simp [hn.2, hlong]

end Absent

lemma not_mem_nul_of_subset {names front : List String} (hsub : front ⊆ names)
    (hnames : ∀ n ∈ names, IsName n) (h : '\x00' ∉ (ofNames names).text.toList) :
    '\x00' ∉ (ofNames front).text.toList := by
  intro hmem
  rw [Path.mem_text_ofNames (by decide) fun n hn => hnames n (hsub hn)] at hmem
  obtain ⟨n, hn, hmem⟩ := hmem
  exact h ((Path.mem_text_ofNames (by decide) hnames).mpr ⟨n, hsub hn, hmem⟩)

lemma realpath_of_isAbsent {known rest : List String} {n : String} (hknown : t.IsReal known)
    (hnames : ∀ m ∈ known ++ n :: rest, IsName m)
    (hnul : '\x00' ∉ (ofNames (known ++ n :: rest)).text.toList) (habsent : t.IsAbsent known n) :
    ∃ e, t.realpath (ofNames (known ++ n :: rest)) = .error e ∧ isAbsence e = true := by
  obtain ⟨follow, hwalk⟩ := realpath_ofNames_append hknown
    (fun m hm => hnames m (List.mem_append_right known hm)) hnul
  rw [hwalk]
  exact walkWith_of_isAbsent (hnames n (by simp)) habsent _

/-- Names are split where the first one is absent. -/
lemma canonicalizeExisting_ofNames {known missing : List String} (hknown : t.IsReal known)
    (hnames : ∀ n ∈ known ++ missing, IsName n)
    (hnul : '\x00' ∉ (ofNames (known ++ missing)).text.toList)
    (habsent : ∀ n rest, missing = n :: rest → t.IsAbsent known n) :
    t.canonicalizeExisting (ofNames (known ++ missing)) = .ok ⟨ofNames known,
      if (missing.map Component.name).isEmpty then none
      else some (ofComponents (missing.map .name))⟩ := by
  have hskip : ∀ more, more <:+ (missing.map Component.name).reverse → more ≠ [] → ∃ e,
      t.realpath (ofComponents (more ++ (.root :: known.map Component.name).reverse).reverse) =
        .error e ∧ isAbsence e = true := by
    intro more hmore hne
    rw [← List.reverse_prefix, List.reverse_reverse] at hmore
    obtain ⟨front, hfront, hmap⟩ := Path.exists_names_of_prefix hmore
    obtain ⟨n, rest, rfl⟩ : ∃ n rest, front = n :: rest := by
      refine List.exists_cons_of_ne_nil fun h => hne ?_
      rw [h, List.map_nil, List.reverse_eq_nil_iff] at hmap
      exact hmap
    have hsub : known ++ n :: rest ⊆ known ++ missing :=
      ((List.prefix_append_right_inj known).mpr hfront).subset
    obtain ⟨back, rfl⟩ := hfront
    rw [List.reverse_append, List.reverse_reverse, hmap, List.cons_append, ← List.map_append,
      Path.ofComponents_names]
    exact realpath_of_isAbsent hknown (fun m hm => hnames m (hsub hm))
      (not_mem_nul_of_subset hsub hnames hnul) (habsent n _ rfl)
  have hreal : t.realpath (ofComponents (.root :: known.map Component.name).reverse.reverse) =
      .ok known := by
    rw [List.reverse_reverse, Path.ofComponents_names]
    exact realpath_ofNames hknown
      (not_mem_nul_of_subset (List.subset_append_left known missing) hnames hnul)
  rw [canonicalizeExisting, Path.components_ofNames hnames, List.map_append, ← List.cons_append,
    List.reverse_append, splitExisting_skip hskip, List.reverse_reverse, List.append_nil]
  exact splitExisting_of_realpath (by simp) hreal

/-- Names that all are there, or of which the first that is not is absent, are resolved. -/
lemma resolve_ofNames {known missing : List String} (hknown : t.IsReal known)
    (hnames : ∀ n ∈ known ++ missing, IsName n)
    (hnul : '\x00' ∉ (ofNames (known ++ missing)).text.toList)
    (habsent : ∀ n rest, missing = n :: rest → t.IsAbsent known n) :
    t.resolve (ofNames (known ++ missing)) = .ok (ofNames (known ++ missing)) := by
  rw [resolve, canonicalizeExisting_ofNames hknown hnames hnul habsent]
  cases missing with
  | nil =>
    rw [List.append_nil]
    rfl
  | cons n rest => exact congrArg Except.ok (Path.fold_join_ofNames hnames (by simp))

/-- A failure other than absence fails a resolution at once. -/
lemma resolve_ne_ok_of_error {names : List String} {e : IoError} (hnames : ∀ n ∈ names, IsName n)
    (h : t.realpath (ofNames names) = .error e) (he : isAbsence e = false) :
    t.resolve (ofNames names) ≠ .ok q := by
  have hreal : t.realpath (ofComponents (.root :: names.map Component.name).reverse.reverse) =
      .error e := by
    rw [List.reverse_reverse, Path.ofComponents_names, h]
  rw [resolve, canonicalizeExisting, Path.components_ofNames hnames,
    splitExisting_of_error (by simp) hreal he]
  rintro ⟨⟩

lemma not_mem_nul_of_resolve {names : List String} (hnames : ∀ n ∈ names, IsName n)
    (h : t.resolve (ofNames names) = .ok q) : '\x00' ∉ (ofNames names).text.toList := by
  intro hnul
  have herror : t.realpath (ofNames names) = .error .nulInName := by
    rw [realpath, if_pos (by simpa using hnul)]
  exact resolve_ne_ok_of_error hnames herror rfl h

/-- What exists resolves to where it is. -/
lemma resolve_of_realpath {l : Location} (habs : p.isAbsolute = true) (h : t.realpath p = .ok l) :
    t.resolve p = .ok (ofNames l) := by
  have hreal : t.realpath (ofComponents p.components.reverse.reverse) = .ok l := by
    rw [List.reverse_reverse]
    exact realpath_ofComponents habs h
  have hne : p.components.reverse ≠ [] := by
    rw [Path.components_of_isAbsolute habs]
    simp
  rw [resolve, canonicalizeExisting, splitExisting_of_realpath hne hreal]
  rfl

end FileTree

end ProjectScope

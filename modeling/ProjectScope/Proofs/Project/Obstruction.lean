import ProjectScope.Proofs.Project.NearestRoot

/-!
# When no root is located

The search for a root fails where a marker cannot be looked up or a project file has no document.
That something is missing is not meant to be such a failure, nor that it stands under a regular
file. But only the entry directly above a marker is looked at, so a lookup that ends at a file
farther up, or at the end of a link, fails the search.
-/

namespace ProjectScope

/-- The entry by which a reason is seen; the root of the file system has none. -/
def RootReason.entryName : RootReason → String
  | .git => gitMarker
  | .mercurial => mercurialMarker
  | .projectFile => projectFileName
  | .fileSystemRoot => ""

namespace FileTree

variable {t : FileTree} {tool : String} {p q d f : Path}

/-! ### Below what is no directory -/

section Walk

variable {follow : Location → List Segment → Except IoError Location} {here l : Location}
  {pieces more : List Segment}

/-- A lookup goes no farther from where there is no directory. -/
lemma walkWith_append_of_not_directory (hl : t.entry? l ≠ some .directory) (hmore : more ≠ [])
    (hfollow : ∀ here pieces, follow here pieces = .ok l →
      follow here (pieces ++ more) = .error .notADirectory)
    (h : t.walkWith follow here pieces = .ok l) :
    t.walkWith follow here (pieces ++ more) = .error .notADirectory := by
  induction pieces generalizing here with
  | nil =>
    cases h
    obtain ⟨s, more, rfl⟩ := List.exists_cons_of_ne_nil hmore
    rw [ne_eq, ← any_isDirectory, Bool.not_eq_true] at hl
    rw [List.nil_append, walkWith, hl]
    rfl
  | cons s rest ih =>
    obtain ⟨hdir, ⟨hs, h⟩ | ⟨hs, h⟩ | ⟨n, hs, hshort, ⟨target, he, h⟩ | ⟨e, he, hlink, h⟩⟩⟩ :=
      walkWith_cons_eq_ok.mp h
    · rw [List.cons_append, walkWith_filler hdir hs, ih h]
    · rw [List.cons_append, walkWith, any_isDirectory.mpr hdir, hs]
      exact ih h
    · rw [List.cons_append, walkWith, any_isDirectory.mpr hdir, hs]
      simp only [Bool.not_true, Bool.false_eq_true, if_false, Nat.not_lt.mpr hshort, he,
        ← List.append_assoc]
      exact hfollow _ _ h
    · rw [List.cons_append, walkWith, any_isDirectory.mpr hdir, hs]
      cases e with
      | link target => cases hlink
      | directory => simpa [Nat.not_lt.mpr hshort, he] using ih h
      | file bytes => simpa [Nat.not_lt.mpr hshort, he] using ih h

lemma walk_append_of_not_directory {links : ℕ} (hl : t.entry? l ≠ some .directory)
    (hmore : more ≠ []) (h : t.walk links here pieces = .ok l) :
    t.walk links here (pieces ++ more) = .error .notADirectory := by
  induction links generalizing here pieces with
  | zero => exact walkWith_append_of_not_directory hl hmore (fun _ _ h => by cases h) h
  | succ links ih => exact walkWith_append_of_not_directory hl hmore (fun _ _ => ih) h

end Walk

lemma isFile_iff : t.isFile p = true ↔ ∃ bytes, t.stat p = .ok (.file bytes) := by
  rw [isFile, any_isFile]
  cases t.stat p with
  | error e => simp [Except.toOption]
  | ok e => simp [Except.toOption]

/-- A path that leads through a regular file cannot be looked up. -/
lemma exists_stat_eq_error {front more : List Segment} (hfront : ∀ s ∈ front, '/' ∉ s)
    (hfile : t.isFile (.ofParts .root front) = true) (hq : q.isAbsolute = true)
    (hpieces : q.pieces = [] :: front ++ more) (hmore : more ≠ []) :
    ∃ e, t.stat q = .error e ∧ e.kind ≠ .notFound ∧ e.kind ≠ .permissionDenied := by
  obtain ⟨bytes, hstat⟩ := isFile_iff.mp hfile
  obtain ⟨-, l, hl, he⟩ := stat_eq_ok_iff.mp hstat
  have hnot : t.entry? l ≠ some .directory := by
    rw [he]
    simp
  rw [realpath_eq (Path.isAbsolute_ofParts_root front) (not_mem_nul_of_realpath hl),
    Path.pieces_ofParts_root hfront] at hl
  have hlookup : ∃ e, t.realpath q = .error e ∧
      e.kind ≠ .notFound ∧ e.kind ≠ .permissionDenied := by
    by_cases hnul : '\x00' ∈ q.text.toList
    · exact ⟨.nulInName, by rw [realpath, if_pos (by simpa using hnul)], by decide⟩
    · split_ifs at hl with hempty
      · cases hl
        exact absurd rfl hnot
      · refine ⟨.notADirectory, ?_, by decide⟩
        rw [realpath_eq hq hnul, hpieces]
        exact walk_append_of_not_directory hnot hmore hl
  rw [stat]
  split_ifs with hlong
  · exact ⟨.nameTooLong, rfl, by decide⟩
  · obtain ⟨e, he, hkind⟩ := hlookup
    exact ⟨e, by rw [he]; rfl, hkind⟩

/-! ### Probes -/

/-- A probe fails where a lookup fails, unless nothing is found or a file stands directly above. -/
lemma probe_eq_error_iff {err : Error} : t.probe p = .error err ↔
    ∃ e, t.stat p = .error e ∧ e.kind ≠ .notFound ∧ p.parent?.any t.isFile = false ∧
      err = .ofIo p e := by
  rw [probe]
  cases hstat : t.stat p with
  | ok e => simp
  | error e =>
    dsimp only
    constructor
    · intro h
      split_ifs at h with hnone
      rw [Bool.or_eq_true, decide_eq_true_eq, not_or, Bool.not_eq_true] at hnone
      exact ⟨e, rfl, hnone.1, hnone.2, (Except.error.inj h).symm⟩
    · rintro ⟨e', he, hkind, hparent, rfl⟩
      cases he
      exact if_neg (by simp [hkind, hparent])

/-- A marker below a directory that stands under a regular file fails the search. -/
lemma exists_probe_eq_error {name : String} (hd : d.isAbsolute = true)
    (hname : (⟨name⟩ : Path).pieces = [name.toList])
    (hstep : Segment.isFiller name.toList = false) (hf : f ∈ d.properAncestors)
    (hfile : t.isFile f = true) :
    ∃ e, e.kind ≠ .notFound ∧ t.probe (d.child name) = .error (.io (d.child name) e) := by
  have hrelative : (⟨name⟩ : Path).isAbsolute = false := by
    rw [Bool.eq_false_iff, ne_eq, Path.isAbsolute_iff_lead, Path.lead_eq_root_iff, hname]
    simp
  have habs : (d.child name).isAbsolute = true := Path.isAbsolute_join hd
  obtain ⟨front, more, rfl, hbody, step, hmore, hfiller⟩ :=
    Path.exists_body_join hd hrelative hname hf
  have hpieces := Path.pieces_of_isAbsolute habs
  change (d.child name).body = _ at hbody
  obtain ⟨rest, hrest, hsub, hparent⟩ := Path.exists_parent?_eq habs hbody hstep hmore hfiller
  have slashes : ∀ s ∈ front ++ more ++ [name.toList], '/' ∉ s := by
    intro s hs
    rw [← hbody] at hs
    exact Path.not_mem_of_mem_pieces (Path.mem_pieces_of_mem_body hs)
  have hfront : ∀ s ∈ front, '/' ∉ s := fun s hs => slashes s (by simp [hs])
  have habove : ∀ s ∈ front ++ rest, '/' ∉ s := by
    intro s hs
    rcases List.mem_append.mp hs with hs | hs
    · exact hfront s hs
    · exact slashes s (by simp [hsub hs])
  rw [hbody, List.append_assoc, ← List.cons_append] at hpieces
  obtain ⟨e, he, hkind, hallowed⟩ := exists_stat_eq_error hfront hfile habs hpieces (by simp)
  have herror : Error.io (d.child name) e = .ofIo (d.child name) e := by
    rw [Error.ofIo_of_ne_notFound _ hkind, if_neg hallowed]
  refine ⟨e, hkind, probe_eq_error_iff.mpr ⟨e, he, hkind, ?_, herror⟩⟩
  -- the directory itself is below the file as well
  have hpieces' : (Path.ofParts .root (front ++ rest)).pieces = [] :: front ++ rest := by
    rw [Path.pieces_ofParts_root habove, if_neg (by simp [hrest])]
    rfl
  obtain ⟨e', he', -⟩ :=
    exists_stat_eq_error hfront hfile (Path.isAbsolute_ofParts_root _) hpieces' hrest
  rw [hparent, Option.any_some, isFile, he']
  rfl

/-! ### Faults and obstructions -/

/-- Whether a directory itself is at fault: a marker cannot be looked up for another reason than
absence, or the project file is there and has no document. -/
def HasFault (t : FileTree) (d : Path) : Prop :=
  (∃ name ∈ [gitMarker, mercurialMarker, projectFileName], ∃ e,
    t.stat (d.child name) = .error e ∧ isAbsence e = false) ∨
  t.isFile (d.child projectFileName) = true ∧ ∃ e, t.document (d.child projectFileName) = .error e

/-- Whether a lookup ends at what is no directory, and not at a regular file directly above. -/
def IsBlocked (t : FileTree) (p : Path) : Prop :=
  (∃ e, t.stat p = .error e ∧ e.kind = .notADirectory) ∧ p.parent?.any t.isFile = false

/-- Whether a marker of a directory is blocked, and the directory has none of those that are looked
for before. -/
def IsObstructedAt (t : FileTree) (tool : String) (d : Path) : Prop :=
  ∃ before reason after, [RootReason.git, .mercurial, .projectFile] = before ++ reason :: after ∧
    (∀ earlier ∈ before, ¬ t.HasMarker tool d earlier) ∧ t.IsBlocked (d.child reason.entryName)

/-- Whether the search from a base upwards comes to a blocked marker before any other. -/
def IsObstructed (t : FileTree) (tool : String) (base : Path) : Prop :=
  ∃ below d above, base.ancestors = below ++ d :: above ∧ (∀ d' ∈ below, t.IsUnmarked tool d') ∧
    t.IsObstructedAt tool d

lemma IsBlocked.probe_ne_ok {found : Option Entry} (h : t.IsBlocked p) :
    t.probe p ≠ .ok found := by
  obtain ⟨⟨e, he, hkind⟩, hparent⟩ := h
  have herror : t.probe p = .error (.ofIo p e) :=
    probe_eq_error_iff.mpr ⟨e, he, by simp [hkind], hparent, rfl⟩
  rw [herror]
  rintro ⟨⟩

lemma hasFault_or_isBlocked_of_probe {name : String} {err : Error}
    (hname : name ∈ [gitMarker, mercurialMarker, projectFileName])
    (h : t.probe (d.child name) = .error err) : t.HasFault d ∨ t.IsBlocked (d.child name) := by
  obtain ⟨e, he, hkind, hparent, -⟩ := probe_eq_error_iff.mp h
  cases habsence : isAbsence e with
  | false => exact .inl (.inl ⟨name, hname, e, he, habsence⟩)
  | true =>
    rw [isAbsence, Bool.or_eq_true, beq_iff_eq, beq_iff_eq] at habsence
    exact .inr ⟨⟨e, he, habsence.resolve_left hkind⟩, hparent⟩

/-! ### The search -/

/-- A directory whose search fails is at fault, or one of its markers is blocked. -/
lemma hasFault_or_isObstructedAt_of_marker? {err : Error} (h : t.marker? tool d = .error err) :
    t.HasFault d ∨ t.IsObstructedAt tool d := by
  rcases bind_eq_error.mp h with h | ⟨git, hgit, h⟩
  · exact (hasFault_or_isBlocked_of_probe (by simp) h).imp_right fun hblocked =>
      ⟨[], .git, _, rfl, by simp, hblocked⟩
  split_ifs at h with hsome
  · cases h
  have no_git : ¬ t.HasMarker tool d .git := mt (hasMarker_git_iff_of_probe hgit).mp hsome
  rcases bind_eq_error.mp h with h | ⟨mercurial, hmercurial, h⟩
  · exact (hasFault_or_isBlocked_of_probe (by simp) h).imp_right fun hblocked =>
      ⟨[.git], .mercurial, _, rfl, by simpa using no_git, hblocked⟩
  split_ifs at h with hdirectory
  · cases h
  have no_mercurial : ¬ t.HasMarker tool d .mercurial :=
    mt (hasMarker_mercurial_iff_of_probe hmercurial).mp hdirectory
  rcases bind_eq_error.mp h with h | ⟨file, hprobe, h⟩
  · exact (hasFault_or_isBlocked_of_probe (by simp) h).imp_right fun hblocked =>
      ⟨[.git, .mercurial], .projectFile, _, rfl, by simp [no_git, no_mercurial], hblocked⟩
  split_ifs at h with hregular
  · obtain ⟨bytes, rfl⟩ := any_isFile.mp hregular
    have hfile : t.isFile (d.child projectFileName) = true :=
      isFile_iff.mpr ⟨bytes, (stat_eq_ok_iff_of_probe hprobe _).mpr rfl⟩
    rcases bind_eq_error.mp h with h | ⟨named, -, h⟩
    · rcases bind_eq_error.mp h with h | ⟨document, -, h⟩
      · exact .inl (.inr ⟨hfile, err, h⟩)
      · cases h
    · split_ifs at h <;> cases h
  · cases h

/-- Where the search of a directory succeeds, no marker is blocked before another is found. -/
lemma not_isObstructedAt_of_marker? {found : Option RootReason}
    (h : t.marker? tool d = .ok found) : ¬ t.IsObstructedAt tool d := by
  rintro ⟨before, reason, after, hsplit, hbefore, hblocked⟩
  obtain ⟨git, hgit, h⟩ := bind_eq_ok.mp h
  rcases before with _ | ⟨first, before⟩
  · cases hsplit
    exact hblocked.probe_ne_ok hgit
  obtain ⟨hfirst, hsplit⟩ := List.cons.inj hsplit
  have no_git : ¬ t.HasMarker tool d .git := hbefore .git (by simp [hfirst])
  rw [if_neg (mt (hasMarker_git_iff_of_probe hgit).mpr no_git)] at h
  obtain ⟨mercurial, hmercurial, h⟩ := bind_eq_ok.mp h
  rcases before with _ | ⟨second, before⟩
  · cases hsplit
    exact hblocked.probe_ne_ok hmercurial
  obtain ⟨hsecond, hsplit⟩ := List.cons.inj hsplit
  have no_mercurial : ¬ t.HasMarker tool d .mercurial := hbefore .mercurial (by simp [hsecond])
  rw [if_neg (mt (hasMarker_mercurial_iff_of_probe hmercurial).mpr no_mercurial)] at h
  obtain ⟨file, hprobe, -⟩ := bind_eq_ok.mp h
  rcases before with _ | ⟨third, before⟩
  · cases hsplit
    exact hblocked.probe_ne_ok hprobe
  · simpa using congrArg List.length hsplit

lemma exists_of_firstMarked?_eq_error {directories : List Path} {err : Error}
    (habs : ∀ d ∈ directories, d.isAbsolute = true)
    (h : t.firstMarked? tool directories = .error err) :
    ∃ below d above, directories = below ++ d :: above ∧ (∀ d' ∈ below, t.IsUnmarked tool d') ∧
      t.marker? tool d = .error err := by
  induction directories with
  | nil => cases h
  | cons d rest ih =>
    obtain ⟨hd, hrest⟩ := List.forall_mem_cons.mp habs
    rcases bind_eq_error.mp h with h | ⟨marker, hmarker, h⟩
    · exact ⟨[], d, rest, rfl, by simp, h⟩
    · obtain ⟨rfl, hunmarked⟩ | ⟨reason, rfl, -⟩ := marker?_cases hd hmarker
      · obtain ⟨below, d', above, hsplit, hbelow, hfails⟩ := ih hrest h
        exact ⟨d :: below, d', above, by rw [hsplit, List.cons_append],
          List.forall_mem_cons.mpr ⟨hunmarked, hbelow⟩, hfails⟩
      · cases h

/-- A search that succeeds has searched the directory after some unmarked ones. -/
lemma exists_marker?_of_firstMarked? {below above : List Path} {found : Option ProjectRoot}
    (habs : ∀ d ∈ below, d.isAbsolute = true) (hbelow : ∀ d' ∈ below, t.IsUnmarked tool d')
    (h : t.firstMarked? tool (below ++ d :: above) = .ok found) :
    ∃ marker, t.marker? tool d = .ok marker := by
  induction below with
  | nil =>
    obtain ⟨marker, hmarker, -⟩ := bind_eq_ok.mp h
    exact ⟨marker, hmarker⟩
  | cons d' below ih =>
    obtain ⟨hd', habs⟩ := List.forall_mem_cons.mp habs
    obtain ⟨hunmarked, hbelow⟩ := List.forall_mem_cons.mp hbelow
    obtain ⟨marker, hmarker, h⟩ := bind_eq_ok.mp h
    obtain ⟨rfl, -⟩ | ⟨reason, rfl, hfirst⟩ := marker?_cases hd' hmarker
    · exact ih habs hbelow h
    · exact absurd hfirst.1 (hunmarked reason)

section NearestRoot

variable {base : Path}

lemma hasFault_or_isObstructed_of_nearestRoot {err : Error} (habs : base.isAbsolute = true)
    (h : t.nearestRoot tool base = .error err) :
    (∃ d ∈ base.ancestors, t.HasFault d) ∨ t.IsObstructed tool base := by
  rcases bind_eq_error.mp h with h | ⟨found, -, h⟩
  · obtain ⟨below, d, above, hsplit, hbelow, hfails⟩ := exists_of_firstMarked?_eq_error
      (fun d => Path.isAbsolute_of_mem_ancestors habs) h
    rcases hasFault_or_isObstructedAt_of_marker? hfails with hfault | hobstructed
    · exact .inl ⟨d, by simp [hsplit], hfault⟩
    · exact .inr ⟨below, d, above, hsplit, hbelow, hobstructed⟩
  · cases h

lemma not_isObstructed_of_nearestRoot {root : ProjectRoot} (habs : base.isAbsolute = true)
    (h : t.nearestRoot tool base = .ok root) : ¬ t.IsObstructed tool base := by
  rintro ⟨below, d, above, hsplit, hbelow, hobstructed⟩
  obtain ⟨found, hfound, -⟩ := bind_eq_ok.mp h
  have habove : ∀ d' ∈ below, d'.isAbsolute = true := by
    intro d' hd'
    refine Path.isAbsolute_of_mem_ancestors habs ?_
    rw [hsplit]
    exact List.mem_append_left _ hd'
  rw [hsplit] at hfound
  obtain ⟨marker, hmarker⟩ := exists_marker?_of_firstMarked? habove hbelow hfound
  exact not_isObstructedAt_of_marker? hmarker hobstructed

/-- From below a regular file the search fails at the first marker that it looks for. -/
lemma nearestRoot_eq_error (habs : base.isAbsolute = true) (hf : f ∈ base.properAncestors)
    (hfile : t.isFile f = true) : ∃ e, e.kind ≠ .notFound ∧
      t.nearestRoot tool base = .error (.io (base.child gitMarker) e) := by
  obtain ⟨e, hkind, hprobe⟩ : ∃ e, e.kind ≠ .notFound ∧
      t.probe (base.child gitMarker) = .error (.io (base.child gitMarker) e) :=
    exists_probe_eq_error habs (by decide) (by decide) hf hfile
  refine ⟨e, hkind, bind_eq_error.mpr (.inl (bind_eq_error.mpr (.inl ?_)))⟩
  exact bind_eq_error.mpr (.inl hprobe)

end NearestRoot

end FileTree

/-! ### Main statement -/

/-- Sources that resolve have a common base. If they are sources at all, or the base resolves, then
a failure to locate their root on fresh caches tells of a fault in a directory from the common base
upwards exactly when there is such a fault or the search is not obstructed. But it is obstructed
wherever the common base lies below a regular file: then no root is ever located, and the error is
not one of absence. -/
theorem Session.fault_of_locate_error_iff {s : Session} {t : FileTree} {sources : List Path}
    {stdin : Option Path} (h : ∀ source ∈ substitute stdin sources,
      ∃ q, t.resolve (.absolutize s.base source) = .ok q) :
    (sources ≠ [] → ∃ base, (Action.run (s.commonBase t sources stdin) {}).1 = .ok base) ∧
      ((∀ err, (Action.run (s.locate t sources stdin) {}).1 = .error err →
          ∃ base, (Action.run (s.commonBase t sources stdin) {}).1 = .ok base ∧
            ∃ d ∈ base.ancestors, t.HasFault d) ↔
        ∃ base, (Action.run (s.commonBase t sources stdin) {}).1 = .ok base ∧
          ((∃ d ∈ base.ancestors, t.HasFault d) ∨ ¬ t.IsObstructed s.tool base)) ∧
      ∀ base, (Action.run (s.commonBase t sources stdin) {}).1 = .ok base →
        ∀ f ∈ base.properAncestors, t.isFile f = true →
          ∃ e, e.kind ≠ .notFound ∧ (Action.run (s.locate t sources stdin) {}).1 =
            .error (.io (base.child gitMarker) e) := by
  have hcommon : (Action.run (s.commonBase t sources stdin) {}).1 =
      t.commonBase s.base (substitute stdin sources) :=
    (answers_commonBase sources stdin {} (Caches.isSound_empty t s.base)).1
  rw [hcommon, run_locate_empty]
  refine ⟨fun hne => ?_, ?_, fun base hbase f hf hfile => ?_⟩
  · obtain ⟨resolved, hresolved⟩ := exists_mapM_eq_ok h
    cases resolved with
    | nil =>
      have hlen := (mapM_eq_ok.mp hresolved).length_eq
      simp [substitute, hne] at hlen
    | cons first rest => exact ⟨_, bind_eq_ok.mpr ⟨_, hresolved, rfl⟩⟩
  · cases hbase : t.commonBase s.base (substitute stdin sources) with
    | error e =>
      constructor
      · intro hblame
        obtain ⟨base, hbase', -⟩ := hblame e rfl
        cases hbase'
      · rintro ⟨base, hbase', -⟩
        cases hbase'
    | ok base =>
      have habs := (FileTree.commonBase_spec hbase).1
      constructor
      · intro hblame
        refine ⟨base, rfl, ?_⟩
        cases hroot : t.nearestRoot s.tool base with
        | ok root => exact .inr (FileTree.not_isObstructed_of_nearestRoot habs hroot)
        | error err =>
          obtain ⟨base', hbase', hfault⟩ := hblame err hroot
          cases hbase'
          exact .inl hfault
      · rintro ⟨base', hbase', hcases⟩ err herror
        cases hbase'
        refine ⟨base, rfl, ?_⟩
        rcases hcases with hfault | hclear
        · exact hfault
        · exact (FileTree.hasFault_or_isObstructed_of_nearestRoot habs herror).resolve_right hclear
  · obtain ⟨e, hkind, hroot⟩ : ∃ e, e.kind ≠ .notFound ∧
        t.nearestRoot s.tool base = .error (.io (base.child gitMarker) e) :=
      FileTree.nearestRoot_eq_error (FileTree.commonBase_spec hbase).1 hf hfile
    exact ⟨e, hkind, bind_eq_error.mpr (.inr ⟨base, hbase, hroot⟩)⟩

/-- A project under Git with a module that is a regular file. -/
def FileTree.moduleTree : FileTree :=
  { entries := [([".git"], .directory), (["mod.py"], .file [])] }

/-- Three levels below the module no root is located. -/
theorem Session.fault_of_locate_error_iff_module :
    (∃ base, (Action.run (Session.commonBase { base := ⟨"/"⟩ } .moduleTree
        [⟨"mod.py/a/b/c"⟩] none) {}).1 = .ok base) ∧
      ∃ e, e.kind ≠ .notFound ∧ (Action.run (Session.locate { base := ⟨"/"⟩ } .moduleTree
        [⟨"mod.py/a/b/c"⟩] none) {}).1 = .error (.io (Path.child ⟨"/mod.py/a/b"⟩ gitMarker) e) := by
  have resolves : ∀ source ∈ substitute none [⟨"mod.py/a/b/c"⟩], ∃ q,
      FileTree.moduleTree.resolve (.absolutize ⟨"/"⟩ source) = .ok q := by
    have hresolve : FileTree.moduleTree.resolve (.absolutize ⟨"/"⟩ ⟨"mod.py/a/b/c"⟩) =
        .ok ⟨"/mod.py/a/b/c"⟩ := by decide +kernel
    simpa [substitute, stdinMark] using ⟨_, hresolve⟩
  have common : (Action.run (Session.commonBase { base := ⟨"/"⟩ } .moduleTree
      [⟨"mod.py/a/b/c"⟩] none) {}).1 = .ok ⟨"/mod.py/a/b"⟩ := by decide +kernel
  obtain ⟨exists_base, -, below_file⟩ := fault_of_locate_error_iff (s := { base := ⟨"/"⟩ }) resolves
  exact ⟨exists_base (by simp),
    below_file _ common ⟨"/mod.py"⟩ (by decide +kernel) (by decide +kernel)⟩

/-- A source two levels below the module resolves, and nothing is wrong with any directory from the
common base upwards; but the lookup of a marker two levels below the module fails. -/
theorem Session.locate_below_module :
    FileTree.moduleTree.resolve (.absolutize ⟨"/"⟩ ⟨"mod.py/a/b"⟩) = .ok ⟨"/mod.py/a/b"⟩ ∧
      (Action.run (Session.commonBase { base := ⟨"/"⟩ } .moduleTree [⟨"mod.py/a/b"⟩] none) {}).1 =
        .ok ⟨"/mod.py/a"⟩ ∧
      (∀ d ∈ Path.ancestors ⟨"/mod.py/a"⟩, ¬ FileTree.moduleTree.HasFault d) ∧
      (Action.run (Session.locate { base := ⟨"/"⟩ } .moduleTree [⟨"mod.py/a/b"⟩] none) {}).1 =
        .error (.io ⟨"/mod.py/a/.git"⟩ .notADirectory) := by
  have harmless : ∀ d ∈ Path.ancestors ⟨"/mod.py/a"⟩,
      (∀ name ∈ [gitMarker, mercurialMarker, projectFileName],
        (FileTree.moduleTree.stat (d.child name)).toOption.isSome = true ∨
          FileTree.moduleTree.stat (d.child name) = .error .notFound ∨
          FileTree.moduleTree.stat (d.child name) = .error .notADirectory) ∧
        FileTree.moduleTree.isFile (d.child projectFileName) = false := by decide +kernel
  refine ⟨by decide +kernel, by decide +kernel, ?_, by decide +kernel⟩
  intro d hd
  obtain ⟨lookups, no_file⟩ := harmless d hd
  rintro (⟨name, hname, e, he, hfault⟩ | ⟨hfile, -⟩)
  · rcases lookups name hname with hstat | hstat | hstat
    · rw [he] at hstat
      cases hstat
    · rw [he] at hstat
      cases hstat
      cases hfault
    · rw [he] at hstat
      cases hstat
      cases hfault
  · rw [no_file] at hfile
    cases hfile

end ProjectScope

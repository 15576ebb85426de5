import ProjectScope.Proofs.Config.Sections
import ProjectScope.Proofs.Session.Discovery

/-!
# The nearest root

What marks a directory is said of the tree as it is. A root that is located on fresh caches is the
nearest marked directory from the common base upwards, for the first of its markers; and the root
of the file system stands in exactly when there is none.
-/

namespace ProjectScope

namespace FileTree

variable {t : FileTree} {tool : String} {d : Path}

/-! ### Markers -/

/-- Whether a directory holds the marker of a reason. -/
def HasMarker (t : FileTree) (tool : String) (d : Path) : RootReason → Prop
  | .git => ∃ e, t.stat (d.child gitMarker) = .ok e
  | .mercurial => t.stat (d.child mercurialMarker) = .ok .directory
  | .projectFile =>
    (∃ bytes, t.stat (d.child projectFileName) = .ok (.file bytes)) ∧
      ∃ document, t.readDocument (d.child projectFileName) = .ok document ∧
        ProjectFile.HasEntry document tool
  | .fileSystemRoot => False

/-- Whether a directory holds no marker. -/
def IsUnmarked (t : FileTree) (tool : String) (d : Path) : Prop :=
  ∀ reason, ¬ t.HasMarker tool d reason

/-- Whether a reason is that of the first marker that a directory holds. -/
def IsFirstMarker (t : FileTree) (tool : String) (d : Path) (reason : RootReason) : Prop :=
  t.HasMarker tool d reason ∧ ∃ before after,
    [RootReason.git, .mercurial, .projectFile] = before ++ reason :: after ∧
      ∀ earlier ∈ before, ¬ t.HasMarker tool d earlier

lemma isUnmarked_of_not (git : ¬ t.HasMarker tool d .git)
    (mercurial : ¬ t.HasMarker tool d .mercurial)
    (projectFile : ¬ t.HasMarker tool d .projectFile) : t.IsUnmarked tool d := by
  intro reason
  cases reason with
  | git => exact git
  | mercurial => exact mercurial
  | projectFile => exact projectFile
  | fileSystemRoot => exact id

lemma stat_eq_ok_iff_of_probe {p : Path} {found : Option Entry} (h : t.probe p = .ok found)
    (e : Entry) : t.stat p = .ok e ↔ found = some e := by
  rw [probe] at h
  cases hstat : t.stat p with
  | ok e' =>
    rw [hstat] at h
    cases h
    simp
  | error cause =>
    simp only [hstat] at h
    split_ifs at h
    cases h
    simp

lemma hasMarker_git_iff_of_probe {found : Option Entry}
    (h : t.probe (d.child gitMarker) = .ok found) :
    t.HasMarker tool d .git ↔ found.isSome = true := by
  rw [Option.isSome_iff_exists]
  exact exists_congr (stat_eq_ok_iff_of_probe h)

lemma hasMarker_mercurial_iff_of_probe {found : Option Entry}
    (h : t.probe (d.child mercurialMarker) = .ok found) :
    t.HasMarker tool d .mercurial ↔ found.any Entry.isDirectory = true := by
  rw [any_isDirectory]
  exact stat_eq_ok_iff_of_probe h .directory

/-! ### Documents -/

lemma exists_stat_of_readDocument {p : Path} {document : Toml.Table}
    (h : t.readDocument p = .ok document) : ∃ e, t.stat p = .ok e := by
  rw [readDocument] at h
  split at h
  · cases h
  · rename_i text htext
    obtain ⟨e, he, -⟩ := bind_eq_ok.mp htext
    exact ⟨e, he⟩

lemma readDocument_congr {p q : Path} {document : Toml.Table} (hstat : t.stat p = t.stat q)
    (h : t.readDocument q = .ok document) : t.readDocument p = .ok document := by
  have htext : t.readText p = t.readText q := by rw [readText, readText, hstat]
  rw [readDocument, htext]
  rw [readDocument] at h
  cases hq : t.readText q with
  | error e =>
    rw [hq] at h
    cases h
  | ok text =>
    simp only [hq, mapError_eq_ok] at h ⊢
    exact h

/-- The document at an entry is the one that stands there. -/
lemma readDocument_of_document {p : Path} {e : Entry} {document : Toml.Table}
    (habs : p.isAbsolute = true) (hstat : t.stat p = .ok e) (h : t.document p = .ok document) :
    t.readDocument p = .ok document := by
  obtain ⟨-, l, hl, he⟩ := stat_eq_ok_iff.mp hstat
  obtain ⟨q, hq, hread⟩ := bind_eq_ok.mp h
  rw [resolve_of_realpath habs hl] at hq
  cases hq
  obtain ⟨e', hstat'⟩ := exists_stat_of_readDocument hread
  obtain ⟨-, l', hl', he'⟩ := stat_eq_ok_iff.mp hstat'
  have hsame := realpath_ofNames (isReal_of_realpath habs hl) (not_mem_nul_of_realpath hl')
  rw [hl'] at hsame
  cases hsame
  rw [he] at he'
  cases he'
  exact readDocument_congr (hstat.trans hstat'.symm) hread

/-! ### The first marker -/

/-- What the search for a marker at a directory comes to. -/
lemma marker?_cases {found : Option RootReason} (habs : d.isAbsolute = true)
    (h : t.marker? tool d = .ok found) :
    (found = none ∧ t.IsUnmarked tool d) ∨
      ∃ reason, found = some reason ∧ t.IsFirstMarker tool d reason := by
  have hfile : (d.child projectFileName).isAbsolute = true := Path.isAbsolute_join habs
  obtain ⟨git, hgit, h⟩ := bind_eq_ok.mp h
  have hgit : t.HasMarker tool d .git ↔ git.isSome = true := hasMarker_git_iff_of_probe hgit
  split_ifs at h with hsome
  · cases h
    exact .inr ⟨.git, rfl, hgit.mpr hsome, [], _, rfl, by simp⟩
  have no_git : ¬ t.HasMarker tool d .git := mt hgit.mp hsome
  obtain ⟨mercurial, hmercurial, h⟩ := bind_eq_ok.mp h
  have hmercurial : t.HasMarker tool d .mercurial ↔ mercurial.any Entry.isDirectory = true :=
    hasMarker_mercurial_iff_of_probe hmercurial
  split_ifs at h with hdirectory
  · cases h
    exact .inr ⟨.mercurial, rfl, hmercurial.mpr hdirectory, [.git], _, rfl, by simpa⟩
  have no_mercurial : ¬ t.HasMarker tool d .mercurial := mt hmercurial.mp hdirectory
  obtain ⟨file, hprobe, h⟩ := bind_eq_ok.mp h
  have hprobe := stat_eq_ok_iff_of_probe hprobe
  split_ifs at h with hregular
  · obtain ⟨bytes, rfl⟩ := any_isFile.mp hregular
    have hstat := (hprobe _).mpr rfl
    obtain ⟨named, hnamed, h⟩ := bind_eq_ok.mp h
    obtain ⟨document, hdocument, hnamed⟩ := bind_eq_ok.mp hnamed
    have hread := readDocument_of_document hfile hstat hdocument
    cases hnamed
    split_ifs at h with hnamed
    · cases h
      exact .inr ⟨.projectFile, rfl,
        ⟨⟨bytes, hstat⟩, document, hread, ProjectFile.hasTool_iff.mp hnamed⟩,
        [.git, .mercurial], _, rfl, by simp [no_git, no_mercurial]⟩
    · cases h
      refine .inl ⟨rfl, isUnmarked_of_not no_git no_mercurial ?_⟩
      rintro ⟨-, document', hread', hnamed'⟩
      rw [hread] at hread'
      cases hread'
      exact hnamed (ProjectFile.hasTool_iff.mpr hnamed')
  · cases h
    refine .inl ⟨rfl, isUnmarked_of_not no_git no_mercurial ?_⟩
    rintro ⟨⟨bytes, hstat⟩, -⟩
    exact hregular (any_isFile.mpr ⟨bytes, (hprobe _).mp hstat⟩)

/-- The first directory with a marker, among some of them. -/
lemma firstMarked?_cases {directories : List Path} {found : Option ProjectRoot}
    (habs : ∀ d ∈ directories, d.isAbsolute = true)
    (h : t.firstMarked? tool directories = .ok found) :
    (found = none ∧ ∀ d ∈ directories, t.IsUnmarked tool d) ∨
      ∃ root below above, found = some root ∧ directories = below ++ root.path :: above ∧
        (∀ d ∈ below, t.IsUnmarked tool d) ∧ t.IsFirstMarker tool root.path root.reason := by
  induction directories with
  | nil =>
    cases h
    exact .inl ⟨rfl, by simp⟩
  | cons d rest ih =>
    obtain ⟨hd, hrest⟩ := List.forall_mem_cons.mp habs
    obtain ⟨marker, hmarker, h⟩ := bind_eq_ok.mp h
    obtain ⟨rfl, hunmarked⟩ | ⟨reason, rfl, hfirst⟩ := marker?_cases hd hmarker
    · obtain ⟨hfound, hnone⟩ | ⟨root, below, above, hfound, hsplit, hbelow, hfirst⟩ := ih hrest h
      · exact .inl ⟨hfound, List.forall_mem_cons.mpr ⟨hunmarked, hnone⟩⟩
      · refine .inr ⟨root, d :: below, above, hfound, ?_, ?_, hfirst⟩
        · rw [hsplit, List.cons_append]
        · exact List.forall_mem_cons.mpr ⟨hunmarked, hbelow⟩
    · cases h
      exact .inr ⟨⟨d, reason⟩, [], rest, rfl, rfl, by simp, hfirst⟩

/-- The nearest root from a base upwards. -/
structure IsNearestRoot (t : FileTree) (tool : String) (base : Path) (root : ProjectRoot) :
    Prop where
  /-- It is the base or above it, and nothing below it holds a marker. -/
  nearest : ∃ below above, base.ancestors = below ++ root.path :: above ∧
    ∀ d ∈ below, t.IsUnmarked tool d
  /-- The reason is its first marker. -/
  marked : root.reason ≠ .fileSystemRoot → t.IsFirstMarker tool root.path root.reason
  /-- The root of the file system stands in when there is no marker. -/
  unmarked : root.reason = .fileSystemRoot ↔ ∀ d ∈ base.ancestors, t.IsUnmarked tool d
  top : root.reason = .fileSystemRoot → root.path.components = [.root]

lemma IsFirstMarker.ne_fileSystemRoot {reason : RootReason}
    (h : t.IsFirstMarker tool d reason) : reason ≠ .fileSystemRoot := by
  rintro rfl
  exact h.1

lemma isNearestRoot_of_nearestRoot {base : Path} {root : ProjectRoot}
    (habs : base.isAbsolute = true) (h : t.nearestRoot tool base = .ok root) :
    t.IsNearestRoot tool base root := by
  obtain ⟨found, hfound, h⟩ := bind_eq_ok.mp h
  cases h
  obtain ⟨rfl, hnone⟩ | ⟨root, below, above, rfl, hsplit, hbelow, hfirst⟩ :=
    firstMarked?_cases (fun d => Path.isAbsolute_of_mem_ancestors habs) hfound
  · obtain ⟨below, above, hsplit⟩ := List.append_of_mem (Path.top_mem_ancestors base)
    refine ⟨⟨below, above, hsplit, fun d hd => hnone d ?_⟩, fun hne => absurd rfl hne,
      ⟨fun _ => hnone, fun _ => rfl⟩, fun _ => Path.components_top habs⟩
    rw [hsplit]
    exact List.mem_append_left _ hd
  · have hne := hfirst.ne_fileSystemRoot
    refine ⟨⟨below, above, hsplit, hbelow⟩, fun _ => hfirst, ⟨fun h => absurd h hne, fun hall => ?_⟩,
      fun h => absurd h hne⟩
    have hmem : root.path ∈ base.ancestors := by simp [hsplit]
    exact absurd hfirst.1 (hall root.path hmem root.reason)

end FileTree

/-! ### Main statements -/

/-- A root that is located on fresh caches lies above every source once it is resolved, and is the
nearest root from the common base of the sources upwards. -/
theorem Session.locate_isNearestRoot {s : Session} {t : FileTree} {sources : List Path}
    {stdin : Option Path} {root : ProjectRoot}
    (h : (Action.run (s.locate t sources stdin) {}).1 = .ok root) :
    ∃ base, (Action.run (s.commonBase t sources stdin) {}).1 = .ok base ∧
      (∀ source ∈ substitute stdin sources, ∃ resolved,
        t.resolve (.absolutize s.base source) = .ok resolved ∧
          root.path.components <+: resolved.components) ∧
      t.IsNearestRoot s.tool base root := by
  rw [run_locate_empty] at h
  obtain ⟨base, hbase, hroot⟩ := bind_eq_ok.mp h
  obtain ⟨habs, hsources⟩ := FileTree.commonBase_spec hbase
  have hnearest := FileTree.isNearestRoot_of_nearestRoot habs hroot
  refine ⟨base, ?_, fun source hsource => ?_, hnearest⟩
  · rw [← hbase]
    exact (answers_commonBase sources stdin {} (Caches.isSound_empty t s.base)).1
  · obtain ⟨resolved, hresolved, hbelow⟩ := hsources source hsource
    obtain ⟨below, above, hsplit, -⟩ := hnearest.nearest
    have hmem : root.path ∈ base.ancestors := by simp [hsplit]
    exact ⟨resolved, hresolved,
      (Path.components_prefix_of_mem_ancestors habs hmem).trans hbelow⟩

/-- A project with a section for the tool, a source directory and a link to it. In the source
directory a regular file has the name of a Mercurial directory, and the project file names another
tool. -/
def FileTree.workTree : FileTree :=
  { entries := [(["work"], .directory), (["work", "src"], .directory),
      (["work", "link"], .link ⟨"src"⟩), (["work", "src", ".hg"], .file []),
      (["work", "src", "a.py"], .file []),
      (["work", "src", "pyproject.toml"], .file "[tool.ruff]\n".toUTF8.toList),
      (["work", "pyproject.toml"], .file "[tool.black]\n".toUTF8.toList)] }

/-- The sources lie in the source directory, one of them by the link and not there yet; it has no
marker, and the project above it does. -/
theorem Session.locate_isNearestRoot_work :
    ∃ base, (Action.run (Session.commonBase { base := ⟨"/work"⟩ } .workTree
        [⟨"src/a.py"⟩, ⟨"link/new.py"⟩] none) {}).1 = .ok base ∧
      (∀ source ∈ substitute none [⟨"src/a.py"⟩, ⟨"link/new.py"⟩], ∃ resolved,
        FileTree.workTree.resolve (.absolutize ⟨"/work"⟩ source) = .ok resolved ∧
          Path.components ⟨"/work"⟩ <+: resolved.components) ∧
      FileTree.workTree.IsNearestRoot defaultTool base ⟨⟨"/work"⟩, .projectFile⟩ := by
  have h : (Action.run (Session.locate { base := ⟨"/work"⟩ } .workTree
      [⟨"src/a.py"⟩, ⟨"link/new.py"⟩] none) {}).1 = .ok ⟨⟨"/work"⟩, .projectFile⟩ := by
    decide +kernel
  exact locate_isNearestRoot h

end ProjectScope

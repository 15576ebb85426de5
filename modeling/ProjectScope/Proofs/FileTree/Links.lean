import ProjectScope.Proofs.FileTree.Resolution
import ProjectScope.Proofs.Path.Ancestors

/-!
# Links below resolved paths

The part of a resolved path that the tree knows is free of links; but the names that are folded on
top may lead back onto an entry, and when they meet a link there, the result is neither free of links
nor resolved once and for all.
-/

namespace ProjectScope

open ProjectScope.Path (ofNames)

/-- The names that a path goes through. -/
def Path.names (p : Path) : List String :=
  p.components.filterMap fun
    | .name n => some n
    | _ => none

lemma Path.names_eq_of_components {p : Path} {names : List String}
    (h : p.components = .root :: names.map .name) : p.names = names := by
  rw [Path.names, h, List.filterMap_cons_none rfl, List.filterMap_map]
  exact List.filterMap_some

lemma Path.names_ofNames {names : List String} (h : ∀ n ∈ names, IsName n) :
    (ofNames names).names = names :=
  names_eq_of_components (components_ofNames h)

/-- The ancestors of a path spelled from names go through the first of these names. -/
lemma Path.exists_mem_ancestors_iff {names l : List String} (h : ∀ n ∈ names, IsName n) :
    (∃ d ∈ (ofNames names).ancestors, d.names = l) ↔ l <+: names := by
  have hmap := map_components_ancestors (isAbsolute_ofNames names)
  rw [steps_ofNames h] at hmap
  constructor
  · rintro ⟨d, hd, rfl⟩
    have hd := List.mem_map_of_mem (f := components) hd
    rw [hmap] at hd
    obtain ⟨cs, hcs, heq⟩ := List.mem_map.mp hd
    obtain ⟨l, hl, rfl⟩ := exists_names_of_prefix (mem_upwards.mp hcs)
    rw [names_eq_of_components heq.symm]
    exact hl
  · intro hl
    have hmem : (.root :: l.map .name) ∈ (ofNames names).ancestors.map components := by
      rw [hmap]
      exact List.mem_map_of_mem (mem_upwards.mpr (hl.map Component.name))
    obtain ⟨d, hd, heq⟩ := List.mem_map.mp hmem
    exact ⟨d, hd, names_eq_of_components heq⟩

namespace FileTree

variable {t : FileTree} {p q : Path}

/-! ### Going down names -/

/-- Whether going down names from a location meets no link and no name that is too long, for as
long as the way leads through directories. No link is followed. -/
def runsClear (t : FileTree) (here : Location) : List String → Bool
  | [] => true
  | n :: rest =>
    if (t.entry? here).any Entry.isDirectory then
      n.utf8ByteSize ≤ nameLimit && match t.entry? (here ++ [n]) with
        | none => true
        | some (.link _) => false
        | some _ => runsClear t (here ++ [n]) rest
    else true

/-- Whether an entry of a name is a link, or cannot be asked for. -/
def IsObstacle (t : FileTree) (l : Location) (n : String) : Prop :=
  t.entry? l = some .directory ∧
    (nameLimit < n.utf8ByteSize ∨ ∃ target, t.entry? (l ++ [n]) = some (.link target))

section Descent

variable {l : Location} {n : String}

lemma runsClear_cons (rest : List String) (h : t.IsReal l) (hn : IsName n) :
    (t.IsReal (l ++ [n]) ∧ t.runsClear l (n :: rest) = t.runsClear (l ++ [n]) rest) ∨
    (t.IsAbsent l n ∧ t.runsClear l (n :: rest) = true) ∨
    (t.IsObstacle l n ∧ t.runsClear l (n :: rest) = false) := by
  by_cases hdir : t.entry? l = some .directory
  · by_cases hshort : n.utf8ByteSize ≤ nameLimit
    · cases he : t.entry? (l ++ [n]) with
      | none =>
        right; left
        exact ⟨.inr ⟨hshort, he⟩, by simp [runsClear, hdir, Entry.isDirectory, hshort, he]⟩
      | some e =>
        cases e with
        | link target =>
          right; right
          exact ⟨⟨hdir, .inr ⟨target, he⟩⟩, by simp [runsClear, hdir, Entry.isDirectory, he]⟩
        | directory =>
          left
          exact ⟨h.child hdir hn hshort he rfl, by
            simp [runsClear, hdir, Entry.isDirectory, hshort, he]⟩
        | file bytes =>
          left
          exact ⟨h.child hdir hn hshort he rfl, by
            simp [runsClear, hdir, Entry.isDirectory, hshort, he]⟩
    · right; right
      exact ⟨⟨hdir, .inl (Nat.not_le.mp hshort)⟩, by
        simp [runsClear, hdir, Entry.isDirectory, hshort]⟩
  · right; left
    refine ⟨.inl hdir, ?_⟩
    rw [runsClear, if_neg (by rwa [any_isDirectory])]

/-- Going down names ends where all are there, where the next is absent, or at an obstacle. -/
lemma runsClear_cases {names : List String} (h : t.IsReal l) (hnames : ∀ n ∈ names, IsName n) :
    ∃ known missing, names = known ++ missing ∧ t.IsReal (l ++ known) ∧
      ((t.runsClear l names = true ∧ ∀ n rest, missing = n :: rest → t.IsAbsent (l ++ known) n) ∨
       (t.runsClear l names = false ∧ ∃ n rest, missing = n :: rest ∧
        t.IsObstacle (l ++ known) n)) := by
  induction names generalizing l with
  | nil =>
    refine ⟨[], [], rfl, by simpa using h, .inl ⟨rfl, ?_⟩⟩
    rintro n rest ⟨⟩
  | cons n rest ih =>
    obtain ⟨hn, hrest⟩ := List.forall_mem_cons.mp hnames
    obtain ⟨hreal, hclear⟩ | ⟨habsent, hclear⟩ | ⟨hobstacle, hclear⟩ := runsClear_cons rest h hn
    · obtain ⟨known, missing, rfl, hknown, hcases⟩ := ih hreal hrest
      rw [hclear]
      rw [List.append_assoc, List.singleton_append] at hknown hcases
      exact ⟨n :: known, missing, rfl, hknown, hcases⟩
    · refine ⟨[], n :: rest, rfl, by simpa using h, .inl ⟨hclear, ?_⟩⟩
      rintro n' rest' ⟨⟩
      simpa using habsent
    · refine ⟨[], n :: rest, rfl, by simpa using h, .inr ⟨hclear, n, rest, rfl, ?_⟩⟩
      simpa using hobstacle

end Descent

/-! ### Paths without links -/

/-- No ancestor of a path, itself included, is a link. -/
def IsLinkFree (t : FileTree) (q : Path) : Prop :=
  ∀ d ∈ q.ancestors, ∀ target, ¬ t.Holds d.names (.link target)

/-- Going down a path's names meets nothing that stands against its being resolved. -/
def IsSettled (t : FileTree) (q : Path) : Prop :=
  '\x00' ∉ q.text.toList ∧ t.runsClear [] q.names = true

lemma isLinkFree_ofNames_iff {names : List String} (hnames : ∀ n ∈ names, IsName n) :
    t.IsLinkFree (ofNames names) ↔ ∀ l, l <+: names → ∀ target, ¬ t.Holds l (.link target) := by
  constructor
  · intro h l hl target
    obtain ⟨d, hd, rfl⟩ := (Path.exists_mem_ancestors_iff hnames).mpr hl
    exact h d hd target
  · intro h d hd target
    exact h d.names ((Path.exists_mem_ancestors_iff hnames).mp ⟨d, hd, rfl⟩) target

/-- A prefix ends within the first part, or goes on with the first element of the second. -/
lemma prefix_append_cases {α : Type} {l front back : List α} (h : l <+: front ++ back) :
    l <+: front ∨ ∃ a rest, back = a :: rest ∧ front ++ [a] <+: l := by
  rcases List.prefix_or_prefix_of_prefix h (List.prefix_append front back) with hl | ⟨more, rfl⟩
  · exact .inl hl
  · cases more with
    | nil => exact .inl (by simp)
    | cons a more =>
      obtain ⟨rest, hrest⟩ := (List.prefix_append_right_inj front).mp h
      exact .inr ⟨a, more ++ rest, hrest.symm, by simp⟩

lemma isLinkFree_of_isReal {known missing : List String} (hknown : t.IsReal known)
    (hnames : ∀ n ∈ known ++ missing, IsName n)
    (habsent : ∀ n rest, missing = n :: rest → t.IsAbsent known n) :
    t.IsLinkFree (ofNames (known ++ missing)) := by
  rw [isLinkFree_ofNames_iff hnames]
  intro l hl target hlink
  rcases prefix_append_cases hl with hl' | ⟨n, rest, hmissing, hn⟩
  · exact (hknown.above hl').not_link hlink
  · -- past the names that are there, not even the next one is held
    obtain ⟨e, hn⟩ := hlink.exists_above hn
    obtain ⟨hdir, he⟩ := holds_concat.mp hn
    rcases habsent n rest hmissing with h | ⟨-, h⟩
    · exact h hdir.entry?
    · rw [he] at h
      cases h

/-- Names are free of links and resolved exactly when going down them runs clear. -/
lemma isLinkFree_and_resolve_ofNames_iff {names : List String} (hnames : ∀ n ∈ names, IsName n) :
    t.IsLinkFree (ofNames names) ∧ t.resolve (ofNames names) = .ok (ofNames names) ↔
      t.IsSettled (ofNames names) := by
  rw [IsSettled, Path.names_ofNames hnames]
  obtain ⟨known, missing, rfl, hknown, ⟨hclear, habsent⟩ | ⟨hclear, n, rest, rfl, hdir, hobstacle⟩⟩ :=
    runsClear_cases IsReal.root hnames
  · constructor
    · rintro ⟨-, hself⟩
      exact ⟨not_mem_nul_of_resolve hnames hself, hclear⟩
    · rintro ⟨hnul, -⟩
      exact ⟨isLinkFree_of_isReal hknown hnames habsent,
        resolve_ofNames hknown hnames hnul habsent⟩
  · rw [hclear]
    constructor
    · rintro ⟨hfree, hself⟩
      exfalso
      rcases hobstacle with hlong | ⟨target, hlink⟩
      · have hn : IsName n := hnames n (by simp)
        obtain ⟨follow, hwalk⟩ := realpath_ofNames_append hknown
          (fun m hm => hnames m (List.mem_append_right known hm))
          (not_mem_nul_of_resolve hnames hself)
        rw [List.map_cons, walkWith_of_tooLong hn hdir hlong] at hwalk
        exact resolve_ne_ok_of_error hnames hwalk rfl hself
      · rw [isLinkFree_ofNames_iff hnames] at hfree
        exact hfree (known ++ [n]) (by simp) target (holds_concat.mpr ⟨hknown.holds hdir, hlink⟩)
    · rintro ⟨-, ⟨⟩⟩

/-! ### Main statements -/

/-- What an absolute path resolves to is free of links and resolves to itself exactly when going
down its names, no link being followed, meets neither a link nor a name that is too long before the
first that is absent. -/
theorem isLinkFree_and_resolve_iff (habs : p.isAbsolute = true) (h : t.resolve p = .ok q) :
    t.IsLinkFree q ∧ t.resolve q = .ok q ↔ t.IsSettled q := by
  obtain ⟨names, hnames, rfl⟩ := exists_names_of_resolve habs h
  exact isLinkFree_and_resolve_ofNames_iff hnames

/-- A tree with a directory and a link to it. -/
def linkedTree : FileTree :=
  { entries := [(["real"], .directory), (["link"], .link ⟨"real"⟩)] }

/-- A missing name below a link that is taken back leads to where the link does. -/
theorem isLinkFree_and_resolve_new :
    linkedTree.resolve ⟨"/link/ghost/../new.py"⟩ = .ok ⟨"/real/new.py"⟩ ∧
    linkedTree.IsLinkFree ⟨"/real/new.py"⟩ ∧
    linkedTree.resolve ⟨"/real/new.py"⟩ = .ok ⟨"/real/new.py"⟩ := by
  have h : linkedTree.resolve ⟨"/link/ghost/../new.py"⟩ = .ok ⟨"/real/new.py"⟩ := by
    decide +kernel
  exact ⟨h, (isLinkFree_and_resolve_iff (by decide +kernel) h).mpr
    ⟨by decide +kernel, by decide +kernel⟩⟩

/-- A missing name beside a link that is taken back leads to the link, and not to where it does. -/
theorem resolve_ghost_link :
    Path.isAbsolute ⟨"/ghost/../link"⟩ = true ∧
    linkedTree.resolve ⟨"/ghost/../link"⟩ = .ok ⟨"/link"⟩ ∧ ¬ linkedTree.IsLinkFree ⟨"/link"⟩ ∧
    linkedTree.resolve ⟨"/link"⟩ = .ok ⟨"/real"⟩ := by
  refine ⟨by decide +kernel, by decide +kernel, fun hfree => ?_, by decide +kernel⟩
  exact hfree ⟨"/link"⟩ (Path.mem_ancestors_self _) ⟨"real"⟩ (.child (n := "link") .root rfl)

end FileTree

end ProjectScope

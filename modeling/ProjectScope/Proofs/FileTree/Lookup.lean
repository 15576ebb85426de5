import Mathlib.Data.List.Induction
import ProjectScope.FileTree.Canonical
import ProjectScope.Proofs.Path.Components
import ProjectScope.Proofs.Result

/-!
# Looking up paths

A lookup that starts at the root ends at a location to which the root leads through directories and
past no link, and the path that spells this location leads there again.
-/

namespace ProjectScope

namespace FileTree

variable {t : FileTree}

/-! ### Locations -/

/-- What stands at a location to which the root leads through directories. -/
inductive Holds (t : FileTree) : Location → Entry → Prop
  | root : Holds t [] .directory
  | child {l : Location} {n : String} {e : Entry} (directory : Holds t l .directory)
      (entry : t.entry? (l ++ [n]) = some e) : Holds t (l ++ [n]) e

/-- A location that a lookup can end at. -/
structure IsReal (t : FileTree) (l : Location) : Prop where
  names : ∀ n ∈ l, IsName n
  short : ∀ n ∈ l, n.utf8ByteSize ≤ nameLimit
  held : ∃ e, t.Holds l e ∧ e.isLink = false

lemma Holds.entry? {l : Location} {e : Entry} (h : t.Holds l e) : t.entry? l = some e := by
  cases h with
  | root => rfl
  | child _ entry => exact entry

lemma Holds.dropLast {l : Location} {e : Entry} (h : t.Holds l e) :
    t.Holds l.dropLast .directory := by
  cases h with
  | root => exact .root
  | child directory _ =>
    rw [List.dropLast_concat]
    exact directory

/-- All that leads to a held entry are directories. -/
lemma Holds.above {l l' : Location} {e : Entry} (h : t.Holds l e) (hl : l' <+: l) :
    l' = l ∨ t.Holds l' .directory := by
  induction h with
  | root => exact .inl (List.prefix_nil.mp hl)
  | child directory _ ih =>
    rcases List.prefix_concat_iff.mp hl with rfl | hl
    · exact .inl rfl
    · rcases ih hl with rfl | h
      · exact .inr directory
      · exact .inr h

lemma Holds.exists_above {l l' : Location} {e : Entry} (h : t.Holds l e) (hl : l' <+: l) :
    ∃ e', t.Holds l' e' := by
  rcases h.above hl with rfl | h'
  · exact ⟨e, h⟩
  · exact ⟨.directory, h'⟩

lemma IsReal.above {l l' : Location} (h : t.IsReal l) (hl : l' <+: l) : t.IsReal l' := by
  obtain ⟨e, held, -⟩ := h.held
  rcases held.above hl with rfl | held
  · exact h
  · exact ⟨fun n hn => h.names n (hl.subset hn), fun n hn => h.short n (hl.subset hn), .directory,
      held, rfl⟩

lemma IsReal.root : t.IsReal [] := ⟨by simp, by simp, .directory, .root, rfl⟩

lemma IsReal.dropLast {l : Location} (h : t.IsReal l) : t.IsReal l.dropLast :=
  h.above l.dropLast_prefix

lemma IsReal.holds {l : Location} {e : Entry} (h : t.IsReal l) (he : t.entry? l = some e) :
    t.Holds l e := by
  obtain ⟨e', held, -⟩ := h.held
  have := held.entry?.symm.trans he
  cases this
  exact held

lemma IsReal.not_link {l : Location} {target : Path} (h : t.IsReal l) :
    ¬ t.Holds l (.link target) := by
  intro hlink
  obtain ⟨e, held, he⟩ := h.held
  rw [Option.some.inj (held.entry?.symm.trans hlink.entry?)] at he
  cases he

lemma IsReal.child {l : Location} {n : String} {e : Entry} (h : t.IsReal l)
    (hl : t.entry? l = some .directory) (hn : IsName n) (hshort : n.utf8ByteSize ≤ nameLimit)
    (he : t.entry? (l ++ [n]) = some e) (hlink : e.isLink = false) : t.IsReal (l ++ [n]) := by
  refine ⟨?_, ?_, e, .child (h.holds hl) he, hlink⟩
  · simpa [or_imp, forall_and] using ⟨h.names, hn⟩
  · simpa [or_imp, forall_and] using ⟨h.short, hshort⟩

/-! ### Steps of a lookup -/

lemma any_isDirectory {e : Option Entry} :
    e.any Entry.isDirectory = true ↔ e = some .directory := by
  cases e with
  | none => simp
  | some e => cases e <;> simp [Entry.isDirectory]

lemma any_isFile {e : Option Entry} :
    e.any Entry.isFile = true ↔ ∃ bytes, e = some (.file bytes) := by
  cases e with
  | none => simp
  | some e => cases e <;> simp [Entry.isFile]

section Walk

variable {follow : Location → List Segment → Except IoError Location} {here l : Location}
  {s : Segment} {rest : List Segment}

/-- What the next piece does when a lookup succeeds. -/
lemma walkWith_cons_eq_ok :
    t.walkWith follow here (s :: rest) = .ok l ↔ t.entry? here = some .directory ∧
      ((s.component? = none ∧ t.walkWith follow here rest = .ok l) ∨
       (s.component? = some .up ∧ t.walkWith follow here.dropLast rest = .ok l) ∨
       ∃ n, s.component? = some (.name n) ∧ n.utf8ByteSize ≤ nameLimit ∧
        ((∃ target, t.entry? (here ++ [n]) = some (.link target) ∧
          follow (if target.isAbsolute then [] else here) (target.pieces ++ rest) = .ok l) ∨
         ∃ e, t.entry? (here ++ [n]) = some e ∧ e.isLink = false ∧
          t.walkWith follow (here ++ [n]) rest = .ok l)) := by
  rw [walkWith, ← any_isDirectory]
  cases hdir : (t.entry? here).any Entry.isDirectory with
  | false => simp
  | true =>
    obtain hs | hs | hs := Segment.component?_cases s
    · simp [hs]
    · simp [hs]
    · by_cases hlong : nameLimit < (String.ofList s).utf8ByteSize
      · simp [hs, hlong, Nat.not_le.mpr hlong]
      · cases he : t.entry? (here ++ [String.ofList s]) with
        | none => simp [hs, hlong, he]
        | some e => cases e <;> simp [hs, hlong, he, Entry.isLink, Nat.not_lt.mp hlong]

lemma walkWith_filler (hdir : t.entry? here = some .directory) (hs : s.component? = none) :
    t.walkWith follow here (s :: rest) = t.walkWith follow here rest := by
  simp [walkWith, any_isDirectory.mpr hdir, hs]

/-- A name that stands for a directory or a file is gone to. -/
lemma walkWith_name {n : String} {e : Entry} (hdir : t.entry? here = some .directory)
    (hn : IsName n) (hshort : n.utf8ByteSize ≤ nameLimit) (he : t.entry? (here ++ [n]) = some e)
    (hlink : e.isLink = false) :
    t.walkWith follow here (n.toList :: rest) = t.walkWith follow (here ++ [n]) rest := by
  rw [walkWith, any_isDirectory.mpr hdir]
  cases e with
  | link target => cases hlink
  | directory => simp [hn.2, Nat.not_lt.mpr hshort, he]
  | file bytes => simp [hn.2, Nat.not_lt.mpr hshort, he]

/-- What holds where a lookup starts, and stays true on each of its steps, holds where it ends. -/
lemma walkWith_keeps {P : Location → Prop} (hroot : P []) (hup : ∀ l, P l → P l.dropLast)
    (hdown : ∀ l n e, P l → t.entry? l = some .directory → IsName n →
      n.utf8ByteSize ≤ nameLimit → t.entry? (l ++ [n]) = some e → e.isLink = false → P (l ++ [n]))
    (hfollow : ∀ here pieces, P here → (∀ s ∈ pieces, '/' ∉ s) → follow here pieces = .ok l → P l)
    {pieces : List Segment} (hhere : P here) (hpieces : ∀ s ∈ pieces, '/' ∉ s)
    (h : t.walkWith follow here pieces = .ok l) : P l := by
  induction pieces generalizing here with
  | nil =>
    cases h
    exact hhere
  | cons s rest ih =>
    obtain ⟨hs, hrest⟩ := List.forall_mem_cons.mp hpieces
    obtain ⟨hdir, ⟨-, h⟩ | ⟨-, h⟩ | ⟨n, hn, hshort, ⟨target, -, h⟩ | ⟨e, he, hlink, h⟩⟩⟩ :=
      walkWith_cons_eq_ok.mp h
    · exact ih hhere hrest h
    · exact ih (hup here hhere) hrest h
    · refine hfollow _ _ ?_ ?_ h
      · split_ifs
        · exact hroot
        · exact hhere
      · intro s hs
        rcases List.mem_append.mp hs with hs | hs
        · exact Path.not_mem_of_mem_pieces hs
        · exact hrest s hs
    · have hname : IsName n := by
        rw [Segment.component?_eq_name hn] at hs hn
        exact ⟨hs, hn⟩
      exact ih (hdown here n e hhere hdir hname hshort he hlink) hrest h

end Walk

lemma walk_keeps {P : Location → Prop} (hroot : P []) (hup : ∀ l, P l → P l.dropLast)
    (hdown : ∀ l n e, P l → t.entry? l = some .directory → IsName n →
      n.utf8ByteSize ≤ nameLimit → t.entry? (l ++ [n]) = some e → e.isLink = false → P (l ++ [n]))
    {links : Nat} {here l : Location} {pieces : List Segment} (hhere : P here)
    (hpieces : ∀ s ∈ pieces, '/' ∉ s) (h : t.walk links here pieces = .ok l) : P l := by
  induction links generalizing here pieces with
  | zero => exact walkWith_keeps hroot hup hdown (fun _ _ _ _ h => by cases h) hhere hpieces h
  | succ links ih => exact walkWith_keeps hroot hup hdown (fun _ _ => ih) hhere hpieces h

lemma walk_isReal {links : Nat} {here l : Location} {pieces : List Segment} (hhere : t.IsReal here)
    (hpieces : ∀ s ∈ pieces, '/' ∉ s) (h : t.walk links here pieces = .ok l) : t.IsReal l :=
  walk_keeps (P := t.IsReal) .root (fun _ => IsReal.dropLast)
    (fun _ _ _ hl hdir hn hshort he hlink => hl.child hdir hn hshort he hlink) hhere hpieces h

lemma holds_concat {l : Location} {n : String} {e : Entry} :
    t.Holds (l ++ [n]) e ↔ t.Holds l .directory ∧ t.entry? (l ++ [n]) = some e := by
  constructor
  · intro h
    have hl := h.dropLast
    rw [List.dropLast_concat] at hl
    exact ⟨hl, h.entry?⟩
  · rintro ⟨hl, he⟩
    exact .child hl he

/-- Names can be gone down from above a location, and nothing happens on the way. -/
lemma walkWith_descend {here names : List String} (h : t.IsReal (here ++ names))
    (follow : Location → List Segment → Except IoError Location) (rest : List Segment) :
    t.walkWith follow here (names.map String.toList ++ rest) =
      t.walkWith follow (here ++ names) rest := by
  induction names generalizing here with
  | nil => rw [List.append_nil, List.map_nil, List.nil_append]
  | cons n names ih =>
    have hnext : t.IsReal (here ++ [n]) := h.above (by simp)
    obtain ⟨e, held, hlink⟩ := hnext.held
    obtain ⟨hdir, he⟩ := holds_concat.mp held
    have hn : n ∈ here ++ [n] := by simp
    rw [List.map_cons, List.cons_append, walkWith_name hdir.entry? (hnext.names n hn)
      (hnext.short n hn) he hlink, ih (by simpa using h), List.append_assoc, List.singleton_append]

/-! ### Canonical locations -/

lemma realpath_eq {p : Path} (habs : p.isAbsolute = true) (hnul : '\x00' ∉ p.text.toList) :
    t.realpath p = t.walk linkLimit [] p.pieces := by
  rw [realpath, if_neg (by simpa using hnul), Path.isEmpty_of_isAbsolute habs, if_pos habs]
  rfl

lemma not_mem_nul_of_realpath {p : Path} {l : Location} (h : t.realpath p = .ok l) :
    '\x00' ∉ p.text.toList := by
  intro hnul
  rw [realpath, if_pos (by simpa using hnul)] at h
  cases h

lemma isReal_of_realpath {p : Path} {l : Location} (habs : p.isAbsolute = true)
    (h : t.realpath p = .ok l) : t.IsReal l := by
  rw [realpath_eq habs (not_mem_nul_of_realpath h)] at h
  exact walk_isReal .root (fun s hs => Path.not_mem_of_mem_pieces hs) h

/-- Whether a lookup of a path starts where names lead: at the root, or from a working directory
that is spelled with names. -/
def IsPlaced (t : FileTree) (p : Path) : Prop :=
  p.isAbsolute = true ∨ ∀ n ∈ t.workingDirectory, IsName n

lemma names_of_realpath {p : Path} {l : Location} (hp : t.IsPlaced p) (h : t.realpath p = .ok l) :
    ∀ n ∈ l, IsName n := by
  have hdown (l : Location) (n : String) (hl : ∀ m ∈ l, IsName m) (hn : IsName n) :
      ∀ m ∈ l ++ [n], IsName m := by
    simpa [or_imp, forall_and] using ⟨hl, hn⟩
  rw [realpath] at h
  split_ifs at h with hnul hempty habs
  all_goals
    refine walk_keeps (P := fun l => ∀ n ∈ l, IsName n) (by simp)
      (fun l hl n hn => hl n (List.dropLast_subset l hn))
      (fun l n _ hl _ hn _ _ _ => hdown l n hl hn) ?_
      (fun s hs => Path.not_mem_of_mem_pieces hs) h
  · simp
  · exact hp.resolve_left habs

/-- Going down from the root along names, and then along more pieces. -/
lemma walkWith_pieces_ofNames {l names : List String} (h : t.IsReal l)
    (hnames : ∀ n ∈ names, IsName n)
    (follow : Location → List Segment → Except IoError Location) :
    t.walkWith follow [] (Path.ofNames (l ++ names)).pieces =
      t.walkWith follow l (names.map String.toList) := by
  have hall : ∀ n ∈ l ++ names, IsName n := List.forall_mem_append.mpr ⟨h.names, hnames⟩
  have hroot : t.entry? [] = some .directory := rfl
  rw [Path.ofNames, Path.pieces_ofParts_root (Path.not_mem_of_mem_map_toList hall),
    walkWith_filler hroot rfl]
  split_ifs with hempty
  · -- the root alone is spelled with an empty piece after the slash
    obtain ⟨rfl, rfl⟩ := List.append_eq_nil_iff.mp (List.map_eq_nil_iff.mp hempty)
    exact walkWith_filler hroot rfl
  · rw [List.map_append, ← List.nil_append l, walkWith_descend h follow]
    rfl

lemma realpath_ofNames_append {l names : List String} (h : t.IsReal l)
    (hnames : ∀ n ∈ names, IsName n) (hnul : '\x00' ∉ (Path.ofNames (l ++ names)).text.toList) :
    ∃ follow, t.realpath (.ofNames (l ++ names)) =
      t.walkWith follow l (names.map String.toList) := by
  refine ⟨t.walk (linkLimit - 1), ?_⟩
  rw [realpath_eq (Path.isAbsolute_ofNames _) hnul]
  exact walkWith_pieces_ofNames h hnames _

/-- The path that spells a location leads to it. -/
lemma realpath_ofNames {l : Location} (h : t.IsReal l)
    (hnul : '\x00' ∉ (Path.ofNames l).text.toList) : t.realpath (.ofNames l) = .ok l := by
  rw [← List.append_nil l] at hnul
  obtain ⟨follow, hwalk⟩ := realpath_ofNames_append h (by simp) hnul
  rw [List.append_nil] at hwalk
  exact hwalk

lemma stat_eq_ok_iff {p : Path} {e : Entry} :
    t.stat p = .ok e ↔
      (!p.text.toList.contains '\x00' && pathLimit ≤ p.text.utf8ByteSize) = false ∧
        ∃ l, t.realpath p = .ok l ∧ t.entry? l = some e := by
  rw [stat]
  split_ifs with hlong
  · simp only [hlong, Bool.true_eq_false, false_and]
  · rw [Bool.not_eq_true] at hlong
    rw [bind_eq_ok]
    simp only [hlong, true_and]
    refine exists_congr fun l => and_congr_right fun _ => ?_
    cases t.entry? l with
    | none => simp
    | some e' => exact (Except.ok.injEq e' e).to_iff.trans (Option.some.injEq e' e).to_iff.symm

/-! ### Fillers -/

/-- Some fillers of the first list are left out in the second. -/
inductive Thins : List Segment → List Segment → Prop
  | nil : Thins [] []
  | keep {s : Segment} {xs ys : List Segment} (rest : Thins xs ys) : Thins (s :: xs) (s :: ys)
  | drop {s : Segment} {xs ys : List Segment} (filler : s.component? = none) (rest : Thins xs ys) :
    Thins (s :: xs) ys

lemma Thins.append {xs ys : List Segment} (h : Thins xs ys) (front : List Segment) :
    Thins (front ++ xs) (front ++ ys) := by
  induction front with
  | nil => exact h
  | cons s front ih => exact .keep ih

lemma thins_spelled (pieces : List Segment) :
    Thins pieces ((pieces.filterMap Segment.component?).map Component.spelled) := by
  induction pieces with
  | nil => exact .nil
  | cons s pieces ih =>
    cases hs : s.component? with
    | none =>
      rw [List.filterMap_cons_none hs]
      exact .drop hs ih
    | some c =>
      rw [List.filterMap_cons_some hs, List.map_cons, Segment.spelled_of_component? hs]
      exact .keep ih

section Thins

variable {follow : Location → List Segment → Except IoError Location} {here l : Location}
  {xs ys : List Segment}

/-- A lookup that succeeds does so without some of its fillers. -/
lemma walkWith_of_thins (hfollow : ∀ here xs ys, Thins xs ys → follow here xs = .ok l →
    follow here ys = .ok l) (h : Thins xs ys) (hxs : t.walkWith follow here xs = .ok l) :
    t.walkWith follow here ys = .ok l := by
  induction h generalizing here with
  | nil => exact hxs
  | drop filler rest ih =>
    obtain ⟨hdir, -⟩ := walkWith_cons_eq_ok.mp hxs
    rw [walkWith_filler hdir filler] at hxs
    exact ih hxs
  | keep rest ih =>
    obtain ⟨hdir, ⟨hs, h⟩ | ⟨hs, h⟩ | ⟨n, hs, hshort, ⟨target, he, h⟩ | ⟨e, he, hlink, h⟩⟩⟩ :=
      walkWith_cons_eq_ok.mp hxs
    all_goals refine walkWith_cons_eq_ok.mpr ⟨hdir, ?_⟩
    · exact .inl ⟨hs, ih h⟩
    · exact .inr (.inl ⟨hs, ih h⟩)
    · exact .inr (.inr ⟨n, hs, hshort, .inl ⟨target, he, hfollow _ _ _ (rest.append _) h⟩⟩)
    · exact .inr (.inr ⟨n, hs, hshort, .inr ⟨e, he, hlink, ih h⟩⟩)

lemma walk_of_thins {links : Nat} (h : Thins xs ys) (hxs : t.walk links here xs = .ok l) :
    t.walk links here ys = .ok l := by
  induction links generalizing here xs ys with
  | zero => exact walkWith_of_thins (fun _ _ _ _ h => by cases h) h hxs
  | succ links ih => exact walkWith_of_thins (fun _ _ _ => ih) h hxs

end Thins

/-- An absolute path that is spelled anew is looked up along the pieces that are no fillers. -/
lemma realpath_ofComponents_eq {p : Path} (habs : p.isAbsolute = true)
    (hnul : '\x00' ∉ (Path.ofComponents p.components).text.toList) :
    t.realpath (.ofComponents p.components) =
      t.walk linkLimit [] (p.steps.map Component.spelled) := by
  have hsteps : ∀ c ∈ p.steps, c.IsStep := fun c => Path.isStep_of_mem_steps
  have hroot : t.entry? [] = some .directory := rfl
  have hspelled := Path.ofComponents_root (Path.root_not_mem hsteps)
  rw [Path.components_of_isAbsolute habs, hspelled] at hnul
  rw [Path.components_of_isAbsolute habs, hspelled,
    realpath_eq (Path.isAbsolute_ofParts_root _) hnul,
    Path.pieces_ofParts_root (Path.not_mem_of_mem_map_spelled hsteps)]
  change t.walkWith (t.walk (linkLimit - 1)) [] _ = _
  rw [walkWith_filler hroot rfl]
  split_ifs with hempty
  · rw [walkWith_filler hroot rfl, hempty]
    rfl
  · rfl

/-- An absolute path that exists does so when it is spelled anew. -/
lemma realpath_ofComponents {p : Path} {l : Location} (habs : p.isAbsolute = true)
    (h : t.realpath p = .ok l) : t.realpath (.ofComponents p.components) = .ok l := by
  have hnul := not_mem_nul_of_realpath h
  rw [realpath_eq habs hnul] at h
  rw [realpath_ofComponents_eq habs]
  · exact walk_of_thins (thins_spelled p.pieces) h
  · exact fun hmem => hnul (Path.mem_text_of_mem_ofComponents (by decide) habs hmem)

end FileTree

end ProjectScope

import Mathlib.Data.List.Induction
import Mathlib.Data.List.Infix
import Mathlib.Data.List.TakeWhile
import ProjectScope.Proofs.Path.Components

/-!
# The way up from a path

The ancestors of a path are a chain: each of them is spelled from the start of the path and its
first pieces, so the ancestors that come after it are its own.
-/

namespace ProjectScope.Path

variable {p d : Path} {lead : Lead} {body front : List Segment}

/-- Whether pieces can follow a start: no piece holds a slash, and where there is no start, the
first piece makes none. -/
structure Fits (lead : Lead) (body : List Segment) : Prop where
  slashes : ∀ s ∈ body, '/' ∉ s
  dot : lead = .bare → body.head? ≠ some ['.']
  slash : lead = .bare → body.head? = some [] → body = [[]]

lemma Fits.of_prefix (h : Fits lead body) (hfront : front <+: body) : Fits lead front := by
  obtain ⟨back, rfl⟩ := hfront
  refine ⟨fun s hs => h.slashes s (List.mem_append_left back hs), ?_, ?_⟩
  · intro hbare hhead
    apply h.dot hbare
    rw [List.head?_append, hhead, Option.some_or]
  · intro hbare hhead
    have hall := h.slash hbare (by rw [List.head?_append, hhead, Option.some_or])
    rcases List.append_eq_singleton_iff.mp hall with ⟨rfl, -⟩ | ⟨rfl, -⟩
    · cases hhead
    · rfl

lemma fits_parts (p : Path) : Fits p.lead p.body := by
  refine ⟨fun s hs => not_mem_of_mem_pieces (mem_pieces_of_mem_body hs), ?_, ?_⟩
  all_goals
    intro hbare hhead
    rw [lead] at hbare
    obtain ⟨s, body, hp, hparts⟩ | ⟨body, hp, hparts⟩ | ⟨hp, hparts⟩ := parts_cases p
    · rw [hparts] at hbare
      cases hbare
    · rw [hparts] at hbare
      cases hbare
  · rw [body, hparts] at hhead
    obtain ⟨more, hmore⟩ := List.head?_eq_some_iff.mp hhead
    have hmore : p.pieces = ['.'] :: more := hmore
    rw [parts, hmore] at hparts
    cases hparts
  · rw [body, hparts] at hhead ⊢
    obtain ⟨more, hmore⟩ := List.head?_eq_some_iff.mp hhead
    cases more with
    | nil => exact hmore
    | cons s more => exact absurd hmore (hp s more)

/-- Pieces that fit a start are found after it. -/
lemma parts_ofParts (h : Fits lead body) (hne : body ≠ []) :
    (ofParts lead body).parts = (lead, body) := by
  obtain ⟨s, more, rfl⟩ := List.exists_cons_of_ne_nil hne
  cases lead with
  | root => rw [parts, pieces_ofParts_root h.slashes, if_neg hne]
  | here =>
    have hpieces : (ofParts .here (s :: more)).pieces = ['.'] :: s :: more := by
      rw [ofParts, pieces, String.toList_ofList]
      · change (['.'] ++ '/' :: glue (s :: more)).splitOn '/' = _
        rw [List.splitOn_append_cons_self, glue, List.splitOn_intercalate '/' h.slashes hne]
        rfl
      · simp
    rw [parts, hpieces]
    rfl
  | bare =>
    have hpieces : (ofParts .bare (s :: more)).pieces = s :: more := by
      rw [ofParts, pieces, String.toList_ofList, glue, List.splitOn_intercalate '/' h.slashes hne]
    rw [parts, hpieces]
    split
    · rename_i heq
      rw [heq] at h
      cases h.slash rfl rfl
    · rename_i heq
      rw [heq] at h
      exact absurd rfl (h.dot rfl)
    · rfl

lemma above_dropWhile (lead : Lead) (back : List Segment) :
    above lead (back.dropWhile Segment.isFiller) = above lead back := by
  induction back with
  | nil => rfl
  | cons s back ih =>
    rw [List.dropWhile_cons]
    split_ifs with hs
    · rw [ih, above, if_pos hs]
    · rfl

lemma properAncestors_ofParts (h : Fits lead body) :
    (ofParts lead body).properAncestors = above lead body.reverse := by
  by_cases hne : body = []
  · subst hne
    cases lead <;> rfl
  · rw [properAncestors, Path.lead, Path.body, parts_ofParts h hne]

/-- What comes after an ancestor on the way up are its own ancestors. -/
lemma eq_properAncestors_of_above {back : List Segment} {below more : List Path}
    (h : Fits lead back.reverse) (hsplit : above lead back = below ++ d :: more) :
    more = d.properAncestors := by
  induction back generalizing below with
  | nil =>
    rw [above] at hsplit
    split_ifs at hsplit
    · obtain ⟨rfl, hd⟩ | ⟨-, hd⟩ := List.append_eq_singleton_iff.mp hsplit.symm
      · cases hd
        rfl
      · cases hd
    · simp at hsplit
  | cons s back ih =>
    rw [List.reverse_cons] at h
    have hback := h.of_prefix (List.prefix_append back.reverse [s])
    rw [above] at hsplit
    split_ifs at hsplit with hs
    · exact ih hback hsplit
    · cases below with
      | nil =>
        obtain ⟨rfl, rfl⟩ := List.cons.inj hsplit
        have hfront : Fits lead (back.dropWhile Segment.isFiller).reverse := by
          apply hback.of_prefix
          rw [List.reverse_prefix]
          exact List.dropWhile_suffix _
        rw [properAncestors_ofParts hfront, List.reverse_reverse, above_dropWhile]
      | cons _ below => exact ih hback (List.cons.inj hsplit).2

lemma eq_properAncestors_of_split {below more : List Path}
    (h : p.properAncestors = below ++ d :: more) : more = d.properAncestors := by
  refine eq_properAncestors_of_above ?_ h
  rw [List.reverse_reverse]
  exact fits_parts p

lemma eq_properAncestors_of_ancestors {below more : List Path}
    (h : p.ancestors = below ++ d :: more) : more = d.properAncestors := by
  cases below with
  | nil =>
    obtain ⟨rfl, rfl⟩ := List.cons.inj h
    rfl
  | cons _ below => exact eq_properAncestors_of_split (List.cons.inj h).2

/-- The way up from a path goes on from each of its ancestors as the way up from there. -/
lemma exists_properAncestors_eq (h : d ∈ p.properAncestors) :
    ∃ below, p.properAncestors = below ++ d.ancestors := by
  obtain ⟨below, more, hsplit⟩ := List.append_of_mem h
  refine ⟨below, ?_⟩
  rw [hsplit, eq_properAncestors_of_split hsplit]
  rfl

/-- Two paths that are ancestors of each other are the same. -/
lemma eq_of_mem_ancestors (hd : d ∈ p.ancestors) (hp : p ∈ d.ancestors) : d = p := by
  rcases List.mem_cons.mp hd with rfl | hd
  · rfl
  rcases List.mem_cons.mp hp with rfl | hp
  · rfl
  obtain ⟨below, hbelow⟩ := exists_properAncestors_eq hd
  obtain ⟨below', hbelow'⟩ := exists_properAncestors_eq hp
  have hlength := congrArg List.length hbelow
  have hlength' := congrArg List.length hbelow'
  simp only [ancestors, List.length_append, List.length_cons] at hlength hlength'
  omega

/-! ### Starts -/

lemma lead_ofParts (h : Fits lead body) : (ofParts lead body).lead = lead := by
  by_cases hne : body = []
  · subst hne
    cases lead <;> rfl
  · rw [Path.lead, parts_ofParts h hne]

lemma lead_of_mem_above {back : List Segment} (h : Fits lead back.reverse)
    (hmem : d ∈ above lead back) (hd : d.isEmpty = false) : d.lead = lead := by
  induction back with
  | nil =>
    rw [above] at hmem
    split_ifs at hmem
    · rw [List.mem_singleton.mp hmem] at hd
      cases hd
    · cases hmem
  | cons s back ih =>
    rw [List.reverse_cons] at h
    have hback := h.of_prefix (List.prefix_append back.reverse [s])
    rw [above] at hmem
    split_ifs at hmem with hs
    · exact ih hback hmem
    · rcases List.mem_cons.mp hmem with rfl | hmem
      · apply lead_ofParts
        apply hback.of_prefix
        rw [List.reverse_prefix]
        exact List.dropWhile_suffix _
      · exact ih hback hmem

/-- An ancestor starts as the path does, but for the empty path above one with a leading dot. -/
lemma lead_of_mem_properAncestors (h : d ∈ p.properAncestors) (hd : d.isEmpty = false) :
    d.lead = p.lead := by
  refine lead_of_mem_above ?_ h hd
  rw [List.reverse_reverse]
  exact fits_parts p

/-! ### Paths that are spelled by names -/

section Names

variable {names : List String} {n : String}

lemma isFiller_of_isName (h : IsName n) : Segment.isFiller n.toList = false := by
  rw [Bool.eq_false_iff]
  intro hfiller
  have hname := h.2
  rw [Segment.component?_of_isFiller hfiller] at hname
  cases hname

lemma dropWhile_isFiller_of_isName (h : ∀ n ∈ names, IsName n) :
    (names.map String.toList).reverse.dropWhile Segment.isFiller =
      (names.map String.toList).reverse := by
  obtain rfl | ⟨front, n, rfl⟩ := names.eq_nil_or_concat'
  · rfl
  · have hn : Segment.isFiller n.toList = false := isFiller_of_isName (h n (by simp))
    simp [hn]

lemma properAncestors_ofNames (h : ∀ n ∈ names, IsName n) :
    (ofNames names).properAncestors = above .root (names.map String.toList).reverse :=
  properAncestors_ofParts ⟨not_mem_of_mem_map_toList h, nofun, nofun⟩

/-- The directory above a name is what the names before it spell. -/
lemma properAncestors_ofNames_concat (h : ∀ m ∈ names ++ [n], IsName m) :
    (ofNames (names ++ [n])).properAncestors = (ofNames names).ancestors := by
  have hn : Segment.isFiller n.toList = false := isFiller_of_isName (h n (by simp))
  have hnames : ∀ m ∈ names, IsName m := fun m hm => h m (List.mem_append_left [n] hm)
  rw [properAncestors_ofNames h, List.map_append, List.reverse_append, ancestors,
    properAncestors_ofNames hnames]
  simp [above, hn, dropWhile_isFiller_of_isName hnames, ofNames]

lemma properAncestors_root : (ofNames []).properAncestors = [] := rfl

lemma mem_ancestors_ofNames (h : ∀ n ∈ names, IsName n) :
    d ∈ (ofNames names).ancestors ↔ ∃ front, front <+: names ∧ d = ofNames front := by
  induction names using List.reverseRecOn generalizing d with
  | nil => simp [ancestors, properAncestors_root]
  | append_singleton names n ih =>
    have hnames : ∀ m ∈ names, IsName m := fun m hm => h m (List.mem_append_left [n] hm)
    rw [ancestors, List.mem_cons, properAncestors_ofNames_concat h, ih hnames]
    constructor
    · rintro (rfl | ⟨front, hfront, rfl⟩)
      · exact ⟨_, List.prefix_rfl, rfl⟩
      · exact ⟨front, hfront.trans (List.prefix_append names [n]), rfl⟩
    · rintro ⟨front, hfront, rfl⟩
      rcases List.prefix_concat_iff.mp hfront with rfl | hfront
      · exact .inl rfl
      · exact .inr ⟨front, hfront, rfl⟩

end Names

end ProjectScope.Path

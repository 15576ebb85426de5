import ProjectScope.Ignore.Spec
import ProjectScope.Proofs.Path.Ancestors
import ProjectScope.Proofs.Path.Chain
import ProjectScope.Proofs.Result

/-!
# What lies below an ignored directory

The patterns are asked level by level, from a path upwards. The nearest level at which one of them
matches decides, and there the last pattern that matches. So a path below an ignored directory is
ignored, unless a negated pattern decides at a level below the directory and takes the path back
in. Without negated patterns everything below an ignored directory is ignored.
-/

namespace ProjectScope

namespace Pattern

/-- Whether a pattern is the last among some that matches at a level. -/
def IsLastMatch (patterns : List Pattern) (level : Path × Bool) (q : Pattern) : Prop :=
  ∃ before after, patterns = before ++ q :: after ∧
    q.appliesTo (Glob.bytes level.1.text.toList) level.2 = true ∧
    ∀ r ∈ after, r.appliesTo (Glob.bytes level.1.text.toList) level.2 = false

/-- Whether no pattern matches at a level. -/
def IsUnmatched (patterns : List Pattern) (level : Path × Bool) : Prop :=
  ∀ q ∈ patterns, q.appliesTo (Glob.bytes level.1.text.toList) level.2 = false

/-! ### Lines without a mark of negation -/

lemma head?_of_splitMarks {s : List Char} (h : (splitMarks s).1 = true) : s.head? = some '!' := by
  unfold splitMarks at h
  split at h
  all_goals first
    | rfl
    | cases h

lemma trimLine_prefix (line : List Char) : trimLine line <+: line := by
  rw [trimLine]
  split_ifs
  · exact List.prefix_rfl
  · rw [Text.trimRight, Text.dropRightWhile, ← List.reverse_suffix, List.reverse_reverse]
    exact List.dropWhile_suffix _

/-- A line whose pattern is negated starts with the mark of negation. -/
lemma head?_of_negated {line : List Char} {q : Pattern} (h : ofLine line = .ok (some q))
    (hq : q.negated = true) : line.head? = some '!' := by
  rw [ofLine] at h
  split_ifs at h
  · cases h
  obtain ⟨glob, -, h⟩ := bind_eq_ok.mp h
  cases h
  obtain ⟨more, hmore⟩ := trimLine_prefix line
  rw [← hmore, List.head?_append, head?_of_splitMarks hq]
  rfl

end Pattern

namespace IgnoreSpec

variable {spec : IgnoreSpec} {patterns : List Pattern} {root d p : Path} {isDirectory : Bool}
  {level : Path × Bool}

/-- Every pattern stands on a line. -/
lemma exists_line_of_mem {file : Path} {number : Nat} {lines : List String} {q : Pattern}
    (h : readLines file number lines = .ok patterns) (hq : q ∈ patterns) :
    ∃ line ∈ lines, Pattern.ofLine line.toList = .ok (some q) := by
  induction lines generalizing number patterns with
  | nil =>
    cases h
    cases hq
  | cons line lines ih =>
    obtain ⟨pattern?, hpattern, h⟩ := bind_eq_ok.mp h
    obtain ⟨more, hmore, h⟩ := bind_eq_ok.mp h
    cases h
    rcases List.mem_append.mp hq with hq | hq
    · obtain rfl := Option.mem_toList.mp hq
      exact ⟨line, List.mem_cons_self, mapError_eq_ok.mp hpattern⟩
    · obtain ⟨line', hline', hparse⟩ := ih hmore hq
      exact ⟨line', List.mem_cons_of_mem line hline', hparse⟩

lemma negated_eq_false_of_ofLines {lines : List String} (h : ofLines root lines = .ok spec)
    (hlines : ∀ line ∈ lines, line.toList.head? ≠ some '!') {q : Pattern}
    (hq : q ∈ spec.patterns) : q.negated = false := by
  obtain ⟨patterns, hpatterns, h⟩ := bind_eq_ok.mp h
  cases h
  obtain ⟨line, hline, hparse⟩ := exists_line_of_mem hpatterns hq
  rw [Bool.eq_false_iff]
  intro hnegated
  exact hlines line hline (Pattern.head?_of_negated hparse hnegated)

/-! ### Levels -/

/-- The levels at which a path is looked for, nearest first: the path itself and the directories
above it. -/
def levels (p : Path) (isDirectory : Bool) : List (Path × Bool) :=
  (p, isDirectory) :: p.properAncestors.map (·, true)

/-- What the patterns say at a level. -/
def verdictAt? (patterns : List Pattern) (level : Path × Bool) : Option Bool :=
  verdict? patterns level.1 level.2

lemma verdictUpwards?_eq (patterns : List Pattern) (p : Path) (isDirectory : Bool) :
    verdictUpwards? patterns p isDirectory =
      (levels p isDirectory).findSome? (verdictAt? patterns) := by
  rw [verdictUpwards?, levels, List.findSome?_cons, List.findSome?_map, verdictAt?]
  cases verdict? patterns p isDirectory <;> rfl

lemma verdictAt?_eq_none_iff :
    verdictAt? patterns level = none ↔ Pattern.IsUnmatched patterns level := by
  simp [verdictAt?, verdict?, Pattern.IsUnmatched]

/-- The verdict at a level is that of the last pattern that matches there. -/
lemma verdictAt?_eq_some_iff {ignored : Bool} :
    verdictAt? patterns level = some ignored ↔
      ∃ q, Pattern.IsLastMatch patterns level q ∧ q.negated = !ignored := by
  simp only [verdictAt?, verdict?, Option.map_eq_some_iff, List.find?_eq_some_iff_append]
  constructor
  · rintro ⟨q, ⟨hq, after, before, hsplit, hafter⟩, rfl⟩
    refine ⟨q, ⟨before.reverse, after.reverse, ?_, hq, ?_⟩, by simp⟩
    · rw [List.reverse_eq_iff] at hsplit
      simpa using hsplit
    · intro r hr
      simpa using hafter r (List.mem_reverse.mp hr)
  · rintro ⟨q, ⟨before, after, hsplit, hq, hafter⟩, hnegated⟩
    refine ⟨q, ⟨hq, after.reverse, before.reverse, by simp [hsplit], ?_⟩, by simp [hnegated]⟩
    intro r hr
    simpa using hafter r (List.mem_reverse.mp hr)

/-! ### Paths as the patterns see them -/

/-- Whether a directory lies above a path as the patterns see both. -/
def IsAbove (root d p : Path) : Prop := seenFrom root d ∈ (seenFrom root p).properAncestors

/-- Whether a path is taken back in from below a directory: at the nearest level at which a pattern
matches, which lies below the directory, the last one that matches is negated. -/
def TakesBack (spec : IgnoreSpec) (d p : Path) (isDirectory : Bool) : Prop :=
  ∃ nearer level farther q,
    levels (seenFrom spec.root p) isDirectory = nearer ++ level :: farther ∧
    (seenFrom spec.root d, true) ∈ farther ∧
    (∀ l ∈ nearer, Pattern.IsUnmatched spec.patterns l) ∧
    Pattern.IsLastMatch spec.patterns level q ∧ q.negated = true

lemma dropDot_of_lead (h : p.lead ≠ .here) : dropDot p.text.toList = p.text.toList := by
  rw [dropDot]
  cases hdot : List.isPrefixOf? ['.', '/'] p.text.toList with
  | none => rfl
  | some r =>
    have hpieces : p.pieces = ['.'] :: r.splitOn '/' := by
      rw [Path.pieces, ← List.isPrefixOf?_eq_some_iff_append_eq.mp hdot]
      exact List.splitOn_append_cons_self ['.'] r
    rw [Path.lead, Path.parts, hpieces] at h
    exact absurd rfl h

/-- Below an absolute root the patterns see a relative path without a leading dot as it is. -/
lemma seenFrom_of_isAbsolute (hroot : root.isAbsolute = true) (hp : p.lead = .bare) :
    seenFrom root p = p := by
  have hrelative : p.isAbsolute = false := by
    rw [Path.isAbsolute, hp]
    rfl
  have hbase : dropDot root.text.toList = root.text.toList := by
    apply dropDot_of_lead
    rw [Path.isAbsolute_iff_lead.mp hroot]
    decide
  have hpath : dropDot p.text.toList = p.text.toList := by
    apply dropDot_of_lead
    rw [hp]
    decide
  have hbehind : List.isPrefixOf? root.text.toList p.text.toList = none := by
    rw [Option.eq_none_iff_forall_ne_some]
    intro r hr
    obtain ⟨cs, hcs⟩ := Path.isAbsolute_iff.mp hroot
    have htext := List.isPrefixOf?_eq_some_iff_append_eq.mp hr
    rw [hcs, List.cons_append] at htext
    rw [Path.isAbsolute_iff.mpr ⟨_, htext.symm⟩] at hrelative
    cases hrelative
  rw [seenFrom, hbase, hpath, hbehind]
  split_ifs <;> simp

/-- Under an absolute root a directory that is spelled by names lies above a path, as the patterns
see both, when it does as they are spelled. -/
lemma isAbove_of_isAbsolute (hroot : root.isAbsolute = true) (hd : d.isEmpty = false)
    (hnames : ∀ c ∈ d.components, ∃ n, c = .name n) (h : d ∈ p.properAncestors) :
    IsAbove root d p := by
  have hlead : d.lead = .bare := by
    rw [Path.components] at hnames
    cases hlead : d.lead with
    | bare => rfl
    | root =>
      obtain ⟨n, hn⟩ := hnames .root (by simp [hlead, Lead.components])
      cases hn
    | here =>
      obtain ⟨n, hn⟩ := hnames .here (by simp [hlead, Lead.components])
      cases hn
  have hlead' : p.lead = .bare := (Path.lead_of_mem_properAncestors h hd).symm.trans hlead
  rw [IsAbove, seenFrom_of_isAbsolute hroot hlead, seenFrom_of_isAbsolute hroot hlead']
  exact h

/-! ### Verdicts below a directory -/

lemma ignores_of_relative (hp : p.isAbsolute = false) :
    spec.ignores p isDirectory =
      if p.isEmpty || spec.patterns.isEmpty then .ok false
      else if (seenFrom spec.root p).isAbsolute then .error .absoluteRemainder
      else .ok ((verdictUpwards? spec.patterns (seenFrom spec.root p) isDirectory).getD false) := by
  rw [ignores, relative?, hp]
  rfl

/-- What is asked for an ignored directory. -/
lemma of_ignores_eq_ok_true (hp : p.isAbsolute = false)
    (h : spec.ignores p isDirectory = .ok true) :
    p.isEmpty = false ∧ spec.patterns.isEmpty = false ∧
      (seenFrom spec.root p).isAbsolute = false ∧
      verdictUpwards? spec.patterns (seenFrom spec.root p) isDirectory = some true := by
  rw [ignores_of_relative hp] at h
  split_ifs at h with hempty habsolute
  · cases h
  rw [Bool.or_eq_true, not_or, Bool.not_eq_true, Bool.not_eq_true] at hempty
  refine ⟨hempty.1, hempty.2, by simpa using habsolute, ?_⟩
  cases hv : verdictUpwards? spec.patterns (seenFrom spec.root p) isDirectory with
  | none =>
    rw [hv] at h
    cases h
  | some ignored =>
    rw [hv] at h
    cases h
    rfl

lemma isEmpty_of_isAbove (h : IsAbove root d p) : p.isEmpty = false := by
  rw [Bool.eq_false_iff]
  intro hempty
  rw [Path.isEmpty, String.isEmpty_iff] at hempty
  obtain ⟨text⟩ := p
  subst hempty
  have hseen : seenFrom root ⟨""⟩ = ⟨""⟩ := by simp [seenFrom, dropDot, List.isPrefixOf?]
  rw [IsAbove, hseen] at h
  cases h

/-- The verdict on a path below a directory is that of the levels between the two, and where these
say nothing, that on the directory. -/
lemma exists_verdictUpwards?_eq (patterns : List Pattern) (isDirectory : Bool)
    (h : d ∈ p.properAncestors) :
    ∃ between, levels p isDirectory = between ++ levels d true ∧
      verdictUpwards? patterns p isDirectory =
        (between.findSome? (verdictAt? patterns)).or (verdictUpwards? patterns d true) := by
  obtain ⟨below, hbelow⟩ := Path.exists_properAncestors_eq h
  have hlevels : levels p isDirectory =
      ((p, isDirectory) :: below.map (·, true)) ++ levels d true := by
    rw [levels, hbelow, List.map_append]
    rfl
  refine ⟨_, hlevels, ?_⟩
  rw [verdictUpwards?_eq, verdictUpwards?_eq, hlevels, List.findSome?_append]

lemma verdictUpwards?_of_takesBack (h : spec.TakesBack d p isDirectory) :
    verdictUpwards? spec.patterns (seenFrom spec.root p) isDirectory = some false := by
  obtain ⟨nearer, level, farther, q, hlevels, -, hnearer, hq, hnegated⟩ := h
  rw [verdictUpwards?_eq, List.findSome?_eq_some_iff]
  refine ⟨nearer, level, farther, hlevels, verdictAt?_eq_some_iff.mpr ⟨q, hq, hnegated⟩, ?_⟩
  intro l hl
  exact verdictAt?_eq_none_iff.mpr (hnearer l hl)

/-- Below an ignored directory some level decides. -/
lemma verdictUpwards?_of_isAbove (isDirectory : Bool) (h : IsAbove spec.root d p)
    (hd : verdictUpwards? spec.patterns (seenFrom spec.root d) true = some true) :
    verdictUpwards? spec.patterns (seenFrom spec.root p) isDirectory = some true ∨
      spec.TakesBack d p isDirectory := by
  obtain ⟨between, hlevels, hverdict⟩ := exists_verdictUpwards?_eq spec.patterns isDirectory h
  rw [hverdict, hd]
  cases hbetween : between.findSome? (verdictAt? spec.patterns) with
  | none => exact .inl rfl
  | some ignored =>
    cases ignored with
    | true => exact .inl rfl
    | false =>
      obtain ⟨nearer, level, farther, rfl, hlevel, hnearer⟩ :=
        List.findSome?_eq_some_iff.mp hbetween
      obtain ⟨q, hq, hnegated⟩ := verdictAt?_eq_some_iff.mp hlevel
      refine .inr ⟨nearer, level, farther ++ levels (seenFrom spec.root d) true, q, ?_, ?_, ?_, hq,
        hnegated⟩
      · rw [hlevels, List.append_assoc, List.cons_append]
      · exact List.mem_append_right farther List.mem_cons_self
      · intro l hl
        exact verdictAt?_eq_none_iff.mp (hnearer l hl)

/-! ### Main statements -/

/-- A path below an ignored directory is ignored exactly when no negated pattern takes it back in,
and always where no line has the mark of negation. -/
theorem ignores_below_iff (isDirectory : Bool) (hd : d.isAbsolute = false)
    (hp : p.isAbsolute = false)
    (hbelow : IsAbove spec.root d p ∨ spec.root.isAbsolute = true ∧
      (∀ c ∈ d.components, ∃ n, c = .name n) ∧ d ∈ p.properAncestors)
    (hignored : spec.ignores d true = .ok true) :
    ∃ ignored, spec.ignores p isDirectory = .ok ignored ∧
      (ignored = true ↔ ¬ spec.TakesBack d p isDirectory) ∧
      ∀ lines, ofLines spec.root lines = .ok spec →
        (∀ line ∈ lines, line.toList.head? ≠ some '!') → ignored = true := by
  obtain ⟨hempty, hpatterns, habsolute, hverdict⟩ := of_ignores_eq_ok_true hd hignored
  have habove : IsAbove spec.root d p := by
    rcases hbelow with habove | ⟨hroot, hnames, hmem⟩
    · exact habove
    · exact isAbove_of_isAbsolute hroot hempty hnames hmem
  have habsolute' : (seenFrom spec.root p).isAbsolute = false := by
    rw [Bool.eq_false_iff]
    intro h
    rw [Path.isAbsolute_of_mem_ancestors h (List.mem_cons_of_mem _ habove)] at habsolute
    cases habsolute
  rw [ignores_of_relative hp, isEmpty_of_isAbove habove, hpatterns, habsolute']
  have hiff : (verdictUpwards? spec.patterns (seenFrom spec.root p) isDirectory).getD false = true ↔
      ¬ spec.TakesBack d p isDirectory := by
    rcases verdictUpwards?_of_isAbove isDirectory habove hverdict with hv | htakes
    · rw [hv]
      refine iff_of_true rfl fun htakes => ?_
      rw [verdictUpwards?_of_takesBack htakes] at hv
      cases hv
    · rw [verdictUpwards?_of_takesBack htakes]
      exact iff_of_false (by simp) (not_not_intro htakes)
  refine ⟨_, rfl, hiff, fun lines hlines hmarks => hiff.mpr ?_⟩
  rintro ⟨nearer, level, farther, q, -, -, -, ⟨before, after, hsplit, -⟩, hnegated⟩
  have hq : q ∈ spec.patterns := by simp [hsplit]
  rw [negated_eq_false_of_ofLines hlines hmarks hq] at hnegated
  cases hnegated

/-- A spec that is known by what comes of it. -/
lemma exists_of_toOption_map {β : Type} {lines : List String} {f : IgnoreSpec → β} {b : β}
    (h : (ofLines root lines).toOption.map f = some b) :
    ∃ spec, ofLines root lines = .ok spec ∧ f spec = b := by
  cases hspec : ofLines root lines with
  | error e =>
    rw [hspec] at h
    cases h
  | ok spec =>
    rw [hspec] at h
    cases h
    exact ⟨spec, rfl, rfl⟩

/-- One file in an ignored directory is taken back in, and nothing decides for another. -/
theorem ignores_below_iff_build :
    ∃ spec ignored, ofLines ⟨"/project"⟩ ["build/", "!keep.txt"] = .ok spec ∧
      spec.ignores ⟨"build/out/main.o"⟩ false = .ok ignored ∧
      (ignored = true ↔ ¬ spec.TakesBack ⟨"build"⟩ ⟨"build/out/main.o"⟩ false) := by
  obtain ⟨spec, hspec, hfacts⟩ :
      ∃ spec, ofLines ⟨"/project"⟩ ["build/", "!keep.txt"] = .ok spec ∧
        (spec.root, spec.ignores ⟨"build"⟩ true) = (⟨"/project"⟩, .ok true) :=
    exists_of_toOption_map (by decide +kernel)
  obtain ⟨hroot, hignored⟩ := Prod.mk.inj hfacts
  have hplain : ∀ c ∈ Path.components ⟨"build"⟩, ∃ n, c = .name n := by
    intro c hc
    exact ⟨"build", List.mem_singleton.mp hc⟩
  obtain ⟨ignored, hrun, hiff, -⟩ := ignores_below_iff (p := ⟨"build/out/main.o"⟩) false
    (by decide) (by decide)
    (.inr ⟨by rw [hroot]; decide, hplain, by decide⟩) hignored
  exact ⟨spec, ignored, hspec, hrun, hiff⟩

/-- The directory is ignored, and the file in it that a negated pattern matches is not. -/
theorem not_ignores_kept :
    ∃ spec, ofLines ⟨"/project"⟩ ["build/", "!keep.txt"] = .ok spec ∧
      Path.properAncestors ⟨"build/keep.txt"⟩ = [⟨"build"⟩, ⟨""⟩] ∧
      spec.ignores ⟨"build"⟩ true = .ok true ∧
      spec.ignores ⟨"build/keep.txt"⟩ false = .ok false ∧
      spec.ignores ⟨"build/keep.txt"⟩ true = .ok false := by
  obtain ⟨spec, hspec, hfacts⟩ :
      ∃ spec, ofLines ⟨"/project"⟩ ["build/", "!keep.txt"] = .ok spec ∧
        (spec.ignores ⟨"build"⟩ true, spec.ignores ⟨"build/keep.txt"⟩ false,
          spec.ignores ⟨"build/keep.txt"⟩ true) = (.ok true, .ok false, .ok false) :=
    exists_of_toOption_map (by decide +kernel)
  rw [Prod.mk.injEq, Prod.mk.injEq] at hfacts
  obtain ⟨hbuild, hkeep, hkeep'⟩ := hfacts
  exact ⟨spec, hspec, by decide, hbuild, hkeep, hkeep'⟩

end IgnoreSpec

end ProjectScope

import ProjectScope.Proofs.Ignore.Below
import ProjectScope.Proofs.Ignore.Lines
import ProjectScope.Proofs.Ignore.Literal
import ProjectScope.Proofs.Path.Fillers

/-!
# Ignore verdicts and the spelling of paths

A verdict depends on the root and the path only through what the patterns see of the path: the path
as it is spelled, without a leading `./`, and without a leading copy of the root. Two questions have
the same answer under all lists of lines exactly when the patterns see the same path, because for
every path there is a line that matches this path and no other.
-/

namespace ProjectScope.IgnoreSpec

variable {spec : IgnoreSpec} {root root' p q seen : Path} {isDirectory : Bool}
  {lines : List String} {text : List Char}

/-- What the patterns are asked about: nothing for a path outside of the root or the root itself. -/
def sight? (root path : Path) : Option Path :=
  (relative? { root } path).bind fun relative =>
    if relative.isEmpty then none else some (seenFrom root relative)

/-- Whether two questions have the same answer under every list of lines. -/
def Agree (isDirectory : Bool) (root p root' q : Path) : Prop :=
  ∀ lines spec, ofLines root lines = .ok spec → ∃ spec' ignored,
    ofLines root' lines = .ok spec' ∧ spec.ignores p isDirectory = .ok ignored ∧
      spec'.ignores q isDirectory = .ok ignored

/-- Whether the patterns see the same in two paths, and nothing that is absolute. -/
structure SeenAlike (root p root' q : Path) : Prop where
  same : sight? root p = sight? root' q
  relative : ∀ seen ∈ sight? root p, seen.isAbsolute = false

/-! ### Answers by what is seen -/

lemma relative?_root (spec : IgnoreSpec) (p : Path) :
    relative? { root := spec.root } p = spec.relative? p := rfl

lemma ignores_of_sight_eq_none (spec : IgnoreSpec) (h : sight? spec.root p = none) :
    spec.ignores p isDirectory = .ok false := by
  rw [ignores, ← relative?_root]
  cases hrelative : relative? { root := spec.root } p with
  | none => rfl
  | some relative =>
    rw [sight?, hrelative, Option.bind_some] at h
    split_ifs at h with hempty
    simp only [hempty, Bool.true_or, if_true]

lemma ignores_of_sight_eq_some (spec : IgnoreSpec) (h : sight? spec.root p = some seen) :
    spec.ignores p isDirectory =
      if spec.patterns.isEmpty then .ok false
      else if seen.isAbsolute then .error .absoluteRemainder
      else .ok ((verdictUpwards? spec.patterns seen isDirectory).getD false) := by
  rw [ignores, ← relative?_root]
  cases hrelative : relative? { root := spec.root } p with
  | none =>
    rw [sight?, hrelative] at h
    cases h
  | some relative =>
    rw [sight?, hrelative, Option.bind_some] at h
    split_ifs at h with hempty
    obtain rfl := Option.some.inj h
    simp only [hempty, Bool.false_or]

/-- Which lines are patterns does not depend on the root. -/
lemma ofLines_of_ofLines (root' : Path) (h : ofLines root lines = .ok spec) :
    spec.root = root ∧ ofLines root' lines = .ok { root := root', patterns := spec.patterns } := by
  obtain ⟨patterns, hpatterns, h⟩ := bind_eq_ok.mp h
  cases h
  rw [readLines_eq_ok_iff] at hpatterns
  exact ⟨rfl, bind_eq_ok.mpr ⟨patterns, readLines_eq_ok_iff.mpr hpatterns, rfl⟩⟩

/-- Questions about the same path have the same answer. -/
lemma SeenAlike.agree (h : SeenAlike root p root' q) : Agree isDirectory root p root' q := by
  intro lines spec hspec
  obtain ⟨rfl, hspec'⟩ := ofLines_of_ofLines root' hspec
  have hsame := h.same
  cases hsight : sight? spec.root p with
  | none =>
    rw [hsight] at hsame
    exact ⟨_, false, hspec', ignores_of_sight_eq_none spec hsight,
      ignores_of_sight_eq_none { root := root', patterns := _ } hsame.symm⟩
  | some seen =>
    rw [hsight] at hsame
    rw [ignores_of_sight_eq_some spec hsight, h.relative seen hsight]
    refine ⟨_, !spec.patterns.isEmpty &&
      (verdictUpwards? spec.patterns seen isDirectory).getD false, hspec', ?_, ?_⟩
    · cases spec.patterns.isEmpty <;> rfl
    · rw [ignores_of_sight_eq_some { root := root', patterns := _ } hsame.symm,
        h.relative seen hsight]
      cases spec.patterns.isEmpty <;> rfl

/-! ### Telling paths apart -/

/-- The spec of the line that matches a single path. -/
def single (root : Path) (text : List Char) : IgnoreSpec :=
  { root, patterns := [{ glob := Glob.literals text }] }

lemma ofLines_literalLine (root : Path) (text : List Char) :
    ofLines root [String.ofList (Pattern.literalLine text)] = .ok (single root text) := by
  have hread : readLines (root.child ignoreFileName) 1 [String.ofList (Pattern.literalLine text)] =
      .ok [{ glob := Glob.literals text }] := by
    rw [readLines, String.toList_ofList, Pattern.ofLine_literalLine]
    rfl
  rw [ofLines, hread]
  rfl

lemma verdictAt?_single {level : Path × Bool} :
    verdictAt? (single root text).patterns level =
      if level.1 = ⟨String.ofList text⟩ then some true else none := by
  obtain ⟨⟨written⟩, directory⟩ := level
  have happlies : Pattern.appliesTo { glob := Glob.literals text } (Glob.bytes written.toList)
      directory = true ↔ Path.mk written = ⟨String.ofList text⟩ := by
    rw [Pattern.appliesTo, Path.mk.injEq, ← String.toList_inj, String.toList_ofList]
    exact Glob.matchesBytes_literals
  rw [verdictAt?, verdict?, single, List.reverse_singleton, List.find?_singleton]
  simp only [happlies]
  split_ifs <;> rfl

lemma map_fst_levels (p : Path) (isDirectory : Bool) :
    (levels p isDirectory).map Prod.fst = p.ancestors := by
  simp [levels, Path.ancestors, Function.comp_def]

lemma verdictUpwards?_single (root : Path) (isDirectory : Bool) :
    verdictUpwards? (single root text).patterns seen isDirectory = some true ↔
      ⟨String.ofList text⟩ ∈ seen.ancestors := by
  rw [verdictUpwards?_eq, ← map_fst_levels seen isDirectory, List.mem_map]
  constructor
  · intro h
    obtain ⟨level, hmem, hlevel⟩ := List.exists_of_findSome?_eq_some h
    rw [verdictAt?_single] at hlevel
    split_ifs at hlevel with heq
    exact ⟨level, hmem, heq⟩
  · rintro ⟨level, hmem, heq⟩
    have hlevel : verdictAt? (single root text).patterns level = some true := by
      rw [verdictAt?_single, if_pos heq]
    cases hfound : (levels seen isDirectory).findSome? (verdictAt? (single root text).patterns) with
    | none =>
      rw [List.findSome?_eq_none_iff.mp hfound level hmem] at hlevel
      cases hlevel
    | some ignored =>
      obtain ⟨other, -, hother⟩ := List.exists_of_findSome?_eq_some hfound
      rw [verdictAt?_single] at hother
      split_ifs at hother
      exact hother.symm

/-- A single path and what lies below it are ignored, and an absolute one cannot be matched. -/
lemma ignores_single_eq_ok_iff {ignored : Bool} (h : sight? root p = some seen) :
    (single root text).ignores p isDirectory = .ok ignored ↔
      seen.isAbsolute = false ∧ (ignored = true ↔ ⟨String.ofList text⟩ ∈ seen.ancestors) := by
  rw [ignores_of_sight_eq_some (single root text) h, ← verdictUpwards?_single root isDirectory,
    if_neg (by simp [single])]
  split_ifs with habsolute
  · simp [habsolute]
  · rw [Except.ok.injEq, Bool.eq_iff_iff, Option.getD_eq_iff]
    simp [habsolute, iff_comm]

lemma Agree.symm (h : Agree isDirectory root p root' q) : Agree isDirectory root' q root p := by
  intro lines spec' hspec'
  obtain ⟨-, hspec⟩ := ofLines_of_ofLines root hspec'
  obtain ⟨spec'', ignored, hspec'', hp, hq⟩ := h lines _ hspec
  obtain rfl := Except.ok.inj (hspec'.symm.trans hspec'')
  exact ⟨_, ignored, hspec, hq, hp⟩

/-- What is seen in one path is seen in the other, or above what is seen there. -/
lemma Agree.exists_sight (h : Agree isDirectory root p root' q)
    (hseen : sight? root p = some seen) :
    seen.isAbsolute = false ∧ ∃ seen', sight? root' q = some seen' ∧ seen ∈ seen'.ancestors := by
  have hlines := ofLines_literalLine root' seen.text.toList
  obtain ⟨spec', ignored, hspec', hp, hq⟩ :=
    h _ _ (ofLines_literalLine root seen.text.toList)
  obtain rfl := Except.ok.inj (hlines.symm.trans hspec')
  obtain ⟨hrelative, hignored⟩ := (ignores_single_eq_ok_iff hseen).mp hp
  rw [String.ofList_toList] at hignored
  have htrue : ignored = true := hignored.mpr seen.mem_ancestors_self
  refine ⟨hrelative, ?_⟩
  cases hsight : sight? root' q with
  | none =>
    rw [ignores_of_sight_eq_none (single root' _) hsight, htrue] at hq
    cases hq
  | some seen' =>
    obtain ⟨-, hignored'⟩ := (ignores_single_eq_ok_iff hsight).mp hq
    rw [String.ofList_toList] at hignored'
    exact ⟨seen', rfl, hignored'.mp htrue⟩

lemma Agree.seenAlike (h : Agree isDirectory root p root' q) : SeenAlike root p root' q := by
  cases hp : sight? root p with
  | none =>
    refine ⟨?_, by simp [hp]⟩
    cases hq : sight? root' q with
    | none => exact hp
    | some seen' =>
      obtain ⟨-, seen, hseen, -⟩ := h.symm.exists_sight hq
      rw [hp] at hseen
      cases hseen
  | some seen =>
    obtain ⟨hrelative, seen', hq, habove⟩ := h.exists_sight hp
    obtain ⟨-, seen'', hp', hbelow⟩ := h.symm.exists_sight hq
    obtain rfl := Option.some.inj (hp.symm.trans hp')
    refine ⟨?_, fun s hs => ?_⟩
    · rw [hp, hq, Path.eq_of_mem_ancestors habove hbelow]
    · rw [hp] at hs
      cases hs
      exact hrelative

/-! ### Paths that are seen as they are spelled -/

/-- The text of a path without a leading `./`. -/
def spelled (p : Path) : List Char := dropDot p.text.toList

/-- Whether a leading copy of the root is taken off a path: of a root other than `.` off a path with
several components that starts with the same text. -/
def Strips (root p : Path) : Prop :=
  spelled root ≠ [] ∧ Path.same ⟨String.ofList (spelled root)⟩ ⟨"."⟩ = false ∧ '/' ∈ spelled p ∧
    spelled root <+: spelled p

/-- Whether the patterns see a path as it is spelled. -/
structure IsKept (root p : Path) : Prop where
  nonempty : p.isEmpty = false
  relative : p.isAbsolute = false
  first : (spelled p).head? ≠ some '/'
  kept : ¬ Strips root p

lemma sight?_of_relative (h : p.isAbsolute = false) :
    sight? root p = if p.isEmpty then none else some (seenFrom root p) := by
  rw [sight?, relative?, h]
  rfl

lemma seenFrom_eq (root p : Path) :
    seenFrom root p =
      if Path.same ⟨String.ofList (spelled root)⟩ ⟨"."⟩ || !(spelled p).contains '/' then
        ⟨String.ofList (spelled p)⟩
      else match (spelled root).isPrefixOf? (spelled p) with
        | some ('/' :: r) => ⟨String.ofList r⟩
        | some r => ⟨String.ofList r⟩
        | none => ⟨String.ofList (spelled p)⟩ := rfl

lemma IsKept.sight (h : IsKept root p) : sight? root p = some ⟨String.ofList (spelled p)⟩ := by
  have hseen : seenFrom root p = ⟨String.ofList (spelled p)⟩ := by
    rw [seenFrom_eq]
    split_ifs with hone
    · rfl
    · rw [Bool.or_eq_true, not_or, Bool.not_eq_true, Bool.not_eq_true, Bool.not_eq_false',
        List.contains_iff_mem] at hone
      by_cases hroot : spelled root = []
      · -- taking off nothing leaves a path that starts with no slash
        have hall : (spelled root).isPrefixOf? (spelled p) = some (spelled p) := by
          rw [hroot]
          rfl
        rw [hall]
        split
        · rename_i r hr
          exact absurd (congrArg List.head? (Option.some.inj hr)) h.first
        · rename_i hr
          rw [Option.some.inj hr]
        · rename_i hr
          cases hr
      · have hnone : (spelled root).isPrefixOf? (spelled p) = none := by
          rw [Option.eq_none_iff_forall_ne_some]
          intro rest hrest
          exact h.kept ⟨hroot, hone.1, hone.2, rest,
            List.isPrefixOf?_eq_some_iff_append_eq.mp hrest⟩
        rw [hnone]
  rw [sight?_of_relative h.relative, h.nonempty, hseen]
  rfl

/-- What is seen like a path that is seen as it is spelled. -/
lemma IsKept.seenAlike_iff (h : IsKept root p) :
    SeenAlike root p root' q ↔ sight? root' q = some ⟨String.ofList (spelled p)⟩ := by
  constructor
  · intro halike
    rw [← halike.same, h.sight]
  · intro hq
    refine ⟨h.sight.trans hq.symm, fun seen hseen => ?_⟩
    rw [h.sight] at hseen
    cases hseen
    rw [Bool.eq_false_iff]
    intro habsolute
    obtain ⟨cs, hcs⟩ := Path.isAbsolute_iff.mp habsolute
    rw [String.toList_ofList] at hcs
    exact h.first (congrArg List.head? hcs)

/-- Under an absolute root a path is kept if there is no second slash after a leading `./`. -/
lemma IsKept.of_isAbsolute (hroot : root.isAbsolute = true) (hp : p.isAbsolute = false)
    (hempty : p.isEmpty = false) (hfirst : (spelled p).head? ≠ some '/') : IsKept root p := by
  refine ⟨hempty, hp, hfirst, ?_⟩
  rintro ⟨-, -, -, rest, hrest⟩
  obtain ⟨cs, hcs⟩ := Path.isAbsolute_iff.mp hroot
  have hbase : spelled root = '/' :: cs := by
    rw [spelled, dropDot_of_lead, hcs]
    rw [Path.isAbsolute_iff_lead.mp hroot]
    decide
  rw [← hrest, hbase] at hfirst
  exact hfirst rfl

lemma splitOn_glue {body : List Segment} (h : ∀ s ∈ body, '/' ∉ s) (hne : body ≠ []) :
    (Path.glue body).splitOn '/' = body := List.splitOn_intercalate '/' h hne

lemma fits_trimFillers (p : Path) : Path.Fits .bare (Path.trimFillers p.pieces) := by
  have hhead {s : Segment} (hs : (Path.trimFillers p.pieces).head? = some s) :
      s.isFiller = false := Path.isFiller_of_mem_head?_trimFillers hs
  refine ⟨fun s hs => ?_, fun _ hdot => ?_, fun _ hempty => ?_⟩
  · exact Path.not_mem_of_mem_pieces (Path.mem_of_mem_trimFillers hs)
  · cases hhead hdot
  · cases hhead hempty

/-- What is left of a path between its first step and its last is seen in the absolute path. -/
lemma sight?_join (hroot : root.isAbsolute = true) (hp : p.isAbsolute = false) :
    sight? root (root.join p) = if Path.trimFillers p.pieces = [] then none
      else some (Path.ofParts .bare (Path.trimFillers p.pieces)) := by
  have hfits := fits_trimFillers p
  have hempty : (Path.ofParts .bare (Path.trimFillers p.pieces)).isEmpty = true ↔
      Path.trimFillers p.pieces = [] := by
    constructor
    · intro hempty
      by_contra hne
      rw [Path.isEmpty_iff, Path.pieces, Path.ofParts, String.toList_ofList,
        splitOn_glue hfits.slashes hne] at hempty
      have hhead : [] ∈ (Path.trimFillers p.pieces).head? := by
        rw [hempty]
        rfl
      cases Path.isFiller_of_mem_head?_trimFillers hhead
    · intro hnil
      rw [hnil]
      rfl
  rw [sight?, relative?, Path.isAbsolute_join hroot, if_pos rfl, Path.stripBase?_join hroot hp,
    Option.bind_some, seenFrom_of_isAbsolute hroot (Path.lead_ofParts hfits)]
  simp only [hempty]

/-- After a leading dot a path is spelled by its pieces. -/
lemma spelled_cases (hp : p.isAbsolute = false) :
    Path.trimFillers p.pieces = [] ∧ p.body = [] ∨
      p.body ≠ [] ∧ spelled p = Path.glue p.body ∧
        Path.trimFillers p.pieces = Path.trimFillers p.body := by
  have htext : Path.glue p.pieces = p.text.toList := List.intercalate_splitOn '/'
  rw [Path.isAbsolute, Path.lead] at hp
  rw [Path.body]
  obtain ⟨s, body, -, hparts⟩ | ⟨body, hpieces, hparts⟩ | ⟨-, hparts⟩ := Path.parts_cases p
  · rw [hparts] at hp
    cases hp
  · rw [hparts, hpieces, Path.trimFillers_cons_of_isFiller rfl]
    cases body with
    | nil => exact .inl ⟨rfl, rfl⟩
    | cons s body =>
      refine .inr ⟨List.cons_ne_nil s body, ?_, rfl⟩
      rw [spelled, ← htext, hpieces]
      rfl
  · rw [hparts]
    refine .inr ⟨p.pieces_ne_nil, ?_, rfl⟩
    rw [spelled, dropDot_of_lead, htext]
    rw [Path.lead, hparts]
    rintro ⟨⟩

/-- A path is spelled like what is left between its first step and its last when it starts and ends
with a step. -/
lemma spelled_eq_iff (hp : p.isAbsolute = false) :
    Path.trimFillers p.pieces ≠ [] ∧ spelled p = Path.glue (Path.trimFillers p.pieces) ↔
      Path.IsTrimmed p.body := by
  have hfits := fits_trimFillers p
  obtain ⟨hnil, hbody⟩ | ⟨hne, hspelled, htrim⟩ := spelled_cases hp
  · rw [hnil, hbody]
    refine iff_of_false (fun h => h.1 rfl) fun h => ?_
    obtain ⟨s, hs, -⟩ := h.first
    cases hs
  · rw [← Path.trimFillers_eq_self_iff hne, hspelled]
    constructor
    · rintro ⟨hkept, hglue⟩
      have hsplit := congrArg (List.splitOn '/') hglue
      rw [splitOn_glue hfits.slashes hkept, splitOn_glue (Path.fits_parts p).slashes hne] at hsplit
      rw [← htrim, ← hsplit]
    · intro heq
      rw [htrim, heq]
      exact ⟨hne, rfl⟩

/-! ### Main statements -/

/-- Two questions have the same answer under all lists of lines exactly when the patterns see the
same path in both. Under an absolute root a path is seen as it is spelled, unless a second slash
follows a leading `./`. A path that is seen so under two roots has the same verdict under both, and
another spelling of it has another verdict under some lines; paths with the same components and
without fillers are spelled alike. The absolute path that leads to a path has the same verdict as
the path exactly when there is no filler at its ends. -/
theorem agree_iff_seenAlike (root root' p q : Path) (isDirectory : Bool) :
    (Agree isDirectory root p root' q ↔ SeenAlike root p root' q) ∧
    (root.isAbsolute = true → p.isAbsolute = false → p.isEmpty = false →
      (spelled p).head? ≠ some '/' → IsKept root p) ∧
    (IsKept root p → IsKept root' q →
      (Agree isDirectory root p root' q ↔ spelled p = spelled q) ∧
      (p.IsPlain → q.IsPlain → p.components = q.components → spelled p = spelled q)) ∧
    (root.isAbsolute = true → IsKept root p →
      (Agree isDirectory root p root (root.join p) ↔ Path.IsTrimmed p.body)) := by
  have hagree (r q : Path) : Agree isDirectory root p r q ↔ SeenAlike root p r q :=
    ⟨Agree.seenAlike, SeenAlike.agree⟩
  refine ⟨hagree root' q, IsKept.of_isAbsolute, fun hp hq => ⟨?_, ?_⟩, fun hroot hp => ?_⟩
  · rw [hagree, hp.seenAlike_iff, hq.sight, Option.some.injEq, Path.mk.injEq, String.ofList_inj]
    exact eq_comm
  · intro hplain hplain' hcomponents
    rw [hplain.eq_of_components_eq hplain' hcomponents]
  · rw [hagree, hp.seenAlike_iff, sight?_join hroot hp.relative, ← spelled_eq_iff hp.relative]
    split_ifs with hnil
    · simp [hnil]
    · rw [Path.ofParts, Option.some.injEq, Path.mk.injEq, String.ofList_inj, eq_comm]
      exact (and_iff_right hnil).symm

/-- One verdict under two roots, and for the absolute path too. -/
theorem agree_iff_seenAlike_gen :
    Agree false ⟨"/project"⟩ ⟨"pkg/gen"⟩ ⟨"src"⟩ ⟨"pkg/gen"⟩ ∧
      Agree false ⟨"/project"⟩ ⟨"pkg/gen"⟩ ⟨"/project"⟩ ⟨"/project/pkg/gen"⟩ := by
  obtain ⟨-, hkept, hspelled, hjoin⟩ :=
    agree_iff_seenAlike ⟨"/project"⟩ ⟨"src"⟩ ⟨"pkg/gen"⟩ ⟨"pkg/gen"⟩ false
  have hp : IsKept ⟨"/project"⟩ ⟨"pkg/gen"⟩ := hkept (by decide) (by decide) (by decide) (by decide)
  have hq : IsKept ⟨"src"⟩ ⟨"pkg/gen"⟩ := by
    refine ⟨by decide, by decide, by decide, ?_⟩
    rintro ⟨-, -, -, hstarts⟩
    exact absurd hstarts (by decide)
  exact ⟨(hspelled hp hq).1.mpr rfl, (hjoin (by decide) hp).mpr ⟨by decide, by decide⟩⟩

/-- The same lines under two roots. A relative root is taken off a path that starts with its name, a
slash at the end of a directory hides it unless the path is absolute, and a second slash after a
leading dot leaves nothing that could be matched. -/
theorem not_agree_src :
    ∃ spec spec', ofLines ⟨"src"⟩ ["/x", "build"] = .ok spec ∧
      ofLines ⟨"/project"⟩ ["/x", "build"] = .ok spec' ∧
      spec.ignores ⟨"src/x"⟩ false = .ok true ∧ spec'.ignores ⟨"src/x"⟩ false = .ok false ∧
      Path.components ⟨"build/"⟩ = Path.components ⟨"build"⟩ ∧
      spec'.ignores ⟨"build"⟩ true = .ok true ∧ spec'.ignores ⟨"build/"⟩ true = .ok false ∧
      Path.join ⟨"/project"⟩ ⟨"build/"⟩ = ⟨"/project/build/"⟩ ∧
      spec'.ignores ⟨"/project/build/"⟩ true = .ok true ∧
      Path.components ⟨".//x"⟩ = Path.components ⟨"./x"⟩ ∧
      spec'.ignores ⟨"./x"⟩ false = .ok true ∧
      spec'.ignores ⟨".//x"⟩ false = .error .absoluteRemainder := by
  obtain ⟨spec, hspec, hsrc⟩ :
      ∃ spec, ofLines ⟨"src"⟩ ["/x", "build"] = .ok spec ∧
        spec.ignores ⟨"src/x"⟩ false = .ok true :=
    exists_of_toOption_map (by decide +kernel)
  obtain ⟨spec', hspec', hfacts⟩ :
      ∃ spec, ofLines ⟨"/project"⟩ ["/x", "build"] = .ok spec ∧
        [spec.ignores ⟨"src/x"⟩ false, spec.ignores ⟨"build"⟩ true, spec.ignores ⟨"build/"⟩ true,
          spec.ignores ⟨"/project/build/"⟩ true, spec.ignores ⟨"./x"⟩ false,
          spec.ignores ⟨".//x"⟩ false] =
        [.ok false, .ok true, .ok false, .ok true, .ok true, .error .absoluteRemainder] :=
    exists_of_toOption_map (by decide +kernel)
  simp only [List.cons.injEq, and_true] at hfacts
  obtain ⟨hproject, hbuild, hslash, habsolute, hdot, hfault⟩ := hfacts
  exact ⟨spec, spec', hspec, hspec', hsrc, hproject, by decide, hbuild, hslash, by decide,
    habsolute, by decide, hdot, hfault⟩

end ProjectScope.IgnoreSpec

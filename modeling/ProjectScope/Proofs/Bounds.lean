import ProjectScope.Proofs.Project.NearestRoot
import ProjectScope.Proofs.Session.Answers
import ProjectScope.Proofs.Specifier.Congruence
import ProjectScope.Proofs.Version.Scan
import ProjectScope.Session.Discovery

/-!
# Slices and indexes are in range

Three things are cut or looked up by number: runs of characters in the bytes of a version, the
leading segments of the release that a clause with `~=` shares, and the first of the sources that a
common base is looked for. The last two are given once more with the slice and the index checked.
Each of the checked forms comes to what the plain one comes to, so no check ever fails.
-/

namespace ProjectScope

lemma slice?_zero_of_le {α : Type} {l : List α} {n : ℕ} (h : n ≤ l.length) :
    slice? l 0 n = some (l.take n) := by
  rw [slice?, if_pos ⟨Nat.zero_le n, h⟩, List.drop_zero]

/-! ### Clauses -/

namespace Specifier

variable {x : Specifier}

/-- Whether a version satisfies the clause; nothing, when the clause shares segments that its release
does not have. -/
def contains? (x : Specifier) (c : Version) : Option Bool :=
  match x.operand, x.operator with
  | .version v, .compatible =>
    if v.atMost c.withoutLocal then
      (slice? v.release 0 x.shared).map c.withoutLocal.startsWith
    else some false
  | _, _ => some (x.contains c)

/-- A clause that shares no more segments than it writes slices its release within its length. -/
lemma contains?_eq (h : x.SharesWritten) (c : Version) : x.contains? c = some (x.contains c) := by
  obtain ⟨op, operand, n⟩ := x
  cases operand with
  | wildcard epoch release => rfl
  | text t => rfl
  | version v =>
    cases op with
    | compatible =>
      have hslice : slice? v.release 0 n = some (v.release.take n) := slice?_zero_of_le (h v rfl)
      simp only [contains?, contains]
      rw [hslice]
      cases v.atMost c.withoutLocal <;> rfl
    | equal | notEqual | atMost | atLeast | less | greater | arbitrary => rfl

/-- A clause that is never read shares a segment too many. -/
example : contains? ⟨.compatible, .version { release := [3] }, 2⟩ { release := [3, 8] } = none := by
  cbv

end Specifier

/-! ### The common base -/

namespace Action

variable {α β : Type} {j : Journal}

lemma exists_of_run_bind_eq_ok {x : Action α} {f : α → Action β} {b : β}
    (h : (run (x >>= f) j).1 = .ok b) :
    ∃ a j', x.run j = (.ok a, j') ∧ ((f a).run j').1 = .ok b := by
  rw [run_bind] at h
  rcases hrun : x.run j with ⟨e | a, j'⟩
  all_goals rw [hrun] at h
  · cases h
  · exact ⟨a, j', rfl, h⟩

/-- As many results come of a list as it has elements. -/
lemma length_of_run_mapM {f : α → Action β} {l : List α} {r : List β}
    (h : (run (l.mapM f) j).1 = .ok r) : r.length = l.length := by
  induction l generalizing r j with
  | nil =>
    cases h
    rfl
  | cons a l ih =>
    rw [List.mapM_cons] at h
    obtain ⟨b, j', -, h⟩ := exists_of_run_bind_eq_ok h
    obtain ⟨bs, j'', hrest, h⟩ := exists_of_run_bind_eq_ok h
    cases h
    rw [List.length_cons, List.length_cons, ih (congrArg Prod.fst hrest)]

end Action

/-- The deepest directory that is a candidate for every one of some paths, or else the root of the
first one; nothing, when there is no first one. -/
def FileTree.commonCandidate? (t : FileTree) (paths : List Path) : Option Path :=
  let shared (d : Path) : Bool := paths.tail.all fun p => (t.candidateRoots p).any d.same
  ((paths.head?.elim [] t.candidateRoots).find? shared).or (paths[0]?.map Path.top)

lemma FileTree.commonCandidate?_cons (t : FileTree) (first : Path) (rest : List Path) :
    t.commonCandidate? (first :: rest) = some (t.commonCandidate first rest) :=
  Option.or_some

example (t : FileTree) : t.commonCandidate? [] = none := rfl

namespace Session

variable {s : Session} {t : FileTree} {sources : List Path} {stdin : Option Path}

/-- The resolved sources, or the resolved base of the session where there are none. -/
def resolvedSources (s : Session) (t : FileTree) (sources : List Path) (stdin : Option Path) :
    Action (List Path) := do
  let given := substitute stdin sources
  if given.isEmpty then return [← s.resolve t s.base]
  else given.mapM (s.resolve t)

/-- The deepest directory that is a candidate root for every source; nothing, when no path has been
resolved. -/
def commonBase? (s : Session) (t : FileTree) (sources : List Path) (stdin : Option Path) :
    Action (Option Path) := do
  return t.commonCandidate? (← s.resolvedSources t sources stdin)

/-- Some path has always been resolved. -/
lemma ne_nil_of_run_resolvedSources {j : Journal} {resolved : List Path}
    (h : ((s.resolvedSources t sources stdin).run j).1 = .ok resolved) : resolved ≠ [] := by
  rintro rfl
  rw [resolvedSources] at h
  cases hgiven : substitute stdin sources with
  | nil =>
    rw [hgiven, List.isEmpty_nil, if_pos rfl] at h
    obtain ⟨p, j', -, h⟩ := Action.exists_of_run_bind_eq_ok h
    cases h
  | cons p given =>
    rw [hgiven, List.isEmpty_cons, if_neg Bool.false_ne_true] at h
    cases Action.length_of_run_mapM h

lemma commonBase?_eq (s : Session) (t : FileTree) (sources : List Path) (stdin : Option Path) :
    s.commonBase? t sources stdin = some <$> s.commonBase t sources stdin := by
  rw [commonBase?, commonBase, resolvedSources]
  cases substitute stdin sources with
  | nil =>
    rw [List.isEmpty_nil, if_pos rfl, List.mapM_nil]
    simp only [bind_assoc, pure_bind, map_bind, map_pure, FileTree.commonCandidate?_cons]
  | cons p given =>
    rw [List.isEmpty_cons, if_neg Bool.false_ne_true, List.mapM_cons]
    simp only [bind_assoc, pure_bind, map_bind, map_pure, FileTree.commonCandidate?_cons]

end Session

/-! ### Main statement -/

/-- Nothing is cut or looked up out of range. For every text the scan of its bytes comes to what
the text is read as, so the position and all slices stay within the bytes. Every clause that is
read, or comes of narrowing such, shares written segments only, and slices its release within its
length for every candidate. And for all sources a common base is looked for among some. -/
theorem slices_and_indexes_in_range :
    (∀ s : String, Version.scan s = (Version.ofText s).mapError .fault ∧
      Version.scan s ≠ .error .outOfRange) ∧
    (∀ x : Specifier, x.Arises →
      x.SharesWritten ∧ ∀ c : Version, x.contains? c = some (x.contains c)) ∧
    ∀ (s : Session) (t : FileTree) (sources : List Path) (stdin : Option Path),
      (∀ j resolved, ((s.resolvedSources t sources stdin).run j).1 = .ok resolved →
        resolved ≠ []) ∧
      s.commonBase? t sources stdin = some <$> s.commonBase t sources stdin :=
  ⟨fun s => ⟨Version.scan_eq s, Version.scan_ne_outOfRange s⟩,
    fun _ hx => ⟨hx.sharesWritten, Specifier.contains?_eq hx.sharesWritten⟩,
    fun s t sources stdin =>
      ⟨fun _ _ h => Session.ne_nil_of_run_resolvedSources h,
        Session.commonBase?_eq s t sources stdin⟩⟩

/-- A text with a character beyond ASCII, a clause that is narrowed to all segments that are left of
it, and no sources at all. -/
theorem slices_and_indexes_in_range_narrowed :
    Version.scan "3.8.Ä" = .error (.fault (.unexpectedText 3)) ∧
      (∃ x y, Specifier.parse " ~= 3.8.1.0 " = .ok x ∧ x.narrow = .ok y ∧
        y = ⟨.compatible, .version { release := [3, 8] }, 2⟩ ∧
        ∀ c : Version, y.contains? c = some (y.contains c)) ∧
      ∃ resolved, ((Session.resolvedSources { base := ⟨"/work"⟩ } .workTree [] none).run {}).1 =
        .ok resolved ∧ resolved ≠ [] := by
  obtain ⟨hscan, hcontains, hbase⟩ := slices_and_indexes_in_range
  refine ⟨?_, ?_, ?_⟩
  · have htext : Version.ofText "3.8.Ä" = .error (.unexpectedText 3) := by decide +kernel
    rw [(hscan "3.8.Ä").1, htext]
    rfl
  · have written : Specifier.parse " ~= 3.8.1.0 " =
        .ok ⟨.compatible, .version { release := [3, 8, 1, 0] }, 3⟩ := by decide +kernel
    have narrowed : Specifier.narrow ⟨.compatible, .version { release := [3, 8, 1, 0] }, 3⟩ =
        .ok ⟨.compatible, .version { release := [3, 8] }, 2⟩ := rfl
    exact ⟨_, _, written, narrowed, rfl, (hcontains _ (.narrow (.read written) narrowed)).2⟩
  · have hresolved : ((Session.resolvedSources { base := ⟨"/work"⟩ } .workTree [] none).run {}).1 =
        .ok [⟨"/work"⟩] := by decide +kernel
    exact ⟨_, hresolved, (hbase _ _ _ _).1 _ _ hresolved⟩

end ProjectScope

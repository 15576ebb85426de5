import ProjectScope.Proofs.Ignore.Lines
import ProjectScope.Proofs.Session.Permanence

/-!
# Loading ignore files

The ignore file of a root is read when the root is asked for the first time. A file with a line that
is no pattern is refused for the first such line, once in the answer and once in the log, and
nothing of it is remembered. What is read is remembered for the root, by whatever path it is asked
for later.
-/

namespace ProjectScope

open IgnoreSpec (ofText IsFirstMalformed ArePatternsOf)

/-! ### Reading the file -/

namespace FileTree

variable {t : FileTree} {root : Path} {text : String}

lemma readIgnoreFile_of_ok {spec : IgnoreSpec}
    (htext : t.readText (root.child ignoreFileName) = .ok text)
    (hspec : ofText root text.toList = .ok spec) :
    t.readIgnoreFile root = { value := .ok spec } := by
  rw [ofText] at hspec
  simp only [readIgnoreFile, htext, hspec]

lemma readIgnoreFile_of_error {e : Error}
    (htext : t.readText (root.child ignoreFileName) = .ok text)
    (he : ofText root text.toList = .error e) :
    t.readIgnoreFile root = { value := .error e, log := [⟨.error, e.message⟩] } := by
  rw [ofText] at he
  simp only [readIgnoreFile, htext, he]

lemma readIgnoreFile_of_notFound {e : IoError}
    (htext : t.readText (root.child ignoreFileName) = .error e) (he : e.kind = .notFound) :
    t.readIgnoreFile root =
      { value := .ok { root }
        log := [.debug ("no " ++ ignoreFileName ++ " at " ++ root.text)] } := by
  simp only [readIgnoreFile, htext, he, if_true]

lemma readIgnoreFile_of_failure {e : IoError}
    (htext : t.readText (root.child ignoreFileName) = .error e) (he : e.kind ≠ .notFound) :
    t.readIgnoreFile root = { value := .error (.ofIo (root.child ignoreFileName) e) } := by
  simp only [readIgnoreFile, htext, if_neg he]

end FileTree

/-! ### What is logged -/

/-- Nothing is logged for a remembered answer, and what is logged for another is logged on finding
it. -/
lemma Action.log_remembered {κ α : Type} [DecidableEq κ] (part : CachePart κ α) (k : κ)
    (find : Action α) (j : Journal) :
    (run (remembered part k find) j).2.log =
      match (part.get j.caches).get? k with
      | some _ => j.log
      | none => (find.run j).2.log := by
  rw [run_remembered]
  cases (part.get j.caches).get? k with
  | some a => rfl
  | none =>
    dsimp only
    rcases find.run j with ⟨_ | _, _⟩ <;> rfl

lemma Action.run_ofLogged {α : Type} (r : Logged α) (j : Journal) :
    run (ofLogged r) j = (.ok r.value, { j with log := j.log ++ r.log }) := rfl

namespace Session

open ProjectScope.Action

variable {s : Session} {t : FileTree} {p root : Path} {j : Journal}

lemma log_resolve (s : Session) (t : FileTree) (p : Path) (j : Journal) :
    ((s.resolve t p).run j).2.log = j.log := by
  rw [resolve, log_remembered, run_ofResult]
  split <;> rfl

/-- What belongs to an ignore file that is read is logged. -/
lemma log_ignoreSpec (hroot : ((s.resolve t p).run j).1 = .ok root)
    (hnew : (j.caches.memo .ignores).get? root.components = none) :
    ((s.ignoreSpec t p).run j).2.log = j.log ++ (t.readIgnoreFile root).log := by
  have hmiss : (CachePart.ignores.get ((s.resolve t p).run j).2.caches).get? root.components =
      none := by
    rw [← (s.hasFrame_resolve t p j).frame .ignores (by simp)] at hnew
    exact hnew
  rw [ignoreSpec, run_bind_of_ok hroot, log_remembered, hmiss, ← log_resolve s t p j]
  dsimp only
  rw [run_bind_of_ok (by rw [run_ofLogged]), run_ofResult, run_ofLogged]

end Session

namespace Run

variable {σ : Run} {p root : Path}

/-- An ignore file is refused: the error is the answer, its text is the one record, and no cache but
that of paths has a new entry. -/
structure Refuses (σ : Run) (p : Path) (e : Error) : Prop where
  answer : σ.answer (.ignoreSpec p) = .error e
  log : (σ.perform (.ignoreSpec p)).journal.log = σ.journal.log ++ [⟨.error, e.message⟩]
  memo : ∀ kind, kind ≠ .paths → (σ.perform (.ignoreSpec p)).memo kind = σ.memo kind

/-- A spec is loaded: it is the answer, and also whenever a path that leads to the same root is
asked for later, whatever has happened in between. -/
structure Loads (σ : Run) (p root : Path) (spec : IgnoreSpec) (records : List LogRecord) :
    Prop where
  answer : σ.answer (.ignoreSpec p) = .ok spec
  log : (σ.perform (.ignoreSpec p)).journal.log = σ.journal.log ++ records
  again : ∀ history p' root',
    ((σ.perform (.ignoreSpec p)).after history).answer (.resolve p') = .ok root' →
      root'.components = root.components →
        ((σ.perform (.ignoreSpec p)).after history).answer (.ignoreSpec p') = .ok spec

/-- A file that is read and cannot be compiled is refused. -/
lemma refuses_of_readIgnoreFile {e : Error} (hroot : σ.answer (.resolve p) = .ok root)
    (hnew : (σ.memo .ignores).get? root.components = none)
    (hread : σ.tree.readIgnoreFile root = { value := .error e, log := [⟨.error, e.message⟩] }) :
    σ.Refuses p e := by
  have hanswer : σ.answer (.ignoreSpec p) = .error e := by
    rw [σ.looksUp.ignoreSpec p root hroot hnew, hread]
  refine ⟨hanswer, ?_, fun kind hkind => ?_⟩
  · rw [perform, Call.action, Session.log_ignoreSpec hroot hnew, hread]
  · by_cases hown : kind = .ignores
    · subst hown
      exact ((fills_of_own? (c := .ignoreSpec p) rfl).error e hanswer).1
    · exact (σ.grows_perform (.ignoreSpec p)).frame kind (by simp [Call.frame, hkind, hown])

lemma loads_of_readIgnoreFile {spec : IgnoreSpec} {records : List LogRecord}
    (hroot : σ.answer (.resolve p) = .ok root)
    (hnew : (σ.memo .ignores).get? root.components = none)
    (hread : σ.tree.readIgnoreFile root = { value := .ok spec, log := records }) :
    σ.Loads p root spec records := by
  have hanswer : σ.answer (.ignoreSpec p) = .ok spec := by
    rw [σ.looksUp.ignoreSpec p root hroot hnew, hread]
  refine ⟨hanswer, ?_, fun history p' root' hroot' hsame => ?_⟩
  · rw [perform, Call.action, Session.log_ignoreSpec hroot hnew, hread]
  · exact (σ.recalls history).ignoreSpec p p' spec hanswer
      (.inr ⟨root, root', hroot, hroot', hsame⟩)

/-! ### Main statement -/

/-- A root whose ignore file has not been loaded yet: the file is refused exactly when some line of
it is no pattern, and then for the first such line, by its number in the text and with the line as it
is read; else its patterns are loaded, and none if there is no file. A disk that fails otherwise is
the error. -/
theorem answer_ignoreSpec (hroot : σ.answer (.resolve p) = .ok root)
    (hnew : (σ.memo .ignores).get? root.components = none) :
    (∀ text, σ.tree.readText (root.child ignoreFileName) = .ok text →
      ((∃ file number reason,
          σ.answer (.ignoreSpec p) = .error (.invalidIgnoreFile file number reason)) ↔
        IgnoreSpec.HasMalformedLine text.toList) ∧
      (IgnoreSpec.HasMalformedLine text.toList → ∃ number line fault,
        IsFirstMalformed text.toList number line fault ∧
        σ.Refuses p (.invalidIgnoreFile (root.child ignoreFileName) number
          ("error parsing glob '" ++ String.ofList (Pattern.trimLine line) ++ "': " ++
            fault.message))) ∧
      (¬ IgnoreSpec.HasMalformedLine text.toList → ∃ patterns,
        ArePatternsOf patterns (Text.lines text.toList) ∧ σ.Loads p root { root, patterns } [])) ∧
    (∀ e, σ.tree.readText (root.child ignoreFileName) = .error e →
      (e.kind = .notFound → σ.Loads p root { root }
        [.debug ("no " ++ ignoreFileName ++ " at " ++ root.text)]) ∧
      (e.kind ≠ .notFound → σ.answer (.ignoreSpec p) = .error
        (if e.kind = .permissionDenied then .permissionDenied (root.child ignoreFileName)
          else .io (root.child ignoreFileName) e))) := by
  refine ⟨fun text htext => ?_, fun e htext => ⟨fun he => ?_, fun he => ?_⟩⟩
  · cases hspec : ofText root text.toList with
    | error e =>
      obtain ⟨number, line, fault, hfirst, rfl⟩ := IgnoreSpec.ofText_eq_error_iff.mp hspec
      have hrefuses :=
        refuses_of_readIgnoreFile hroot hnew (σ.tree.readIgnoreFile_of_error htext hspec)
      have hmalformed : IgnoreSpec.HasMalformedLine text.toList :=
        ⟨number, line, fault, hfirst.isLine, hfirst.malformed⟩
      refine ⟨iff_of_true ⟨_, _, _, hrefuses.answer⟩ hmalformed, fun _ => ?_, absurd hmalformed⟩
      exact ⟨number, line, fault, hfirst, hrefuses⟩
    | ok spec =>
      have hloads := loads_of_readIgnoreFile hroot hnew (σ.tree.readIgnoreFile_of_ok htext hspec)
      have hwell : ¬ IgnoreSpec.HasMalformedLine text.toList :=
        IgnoreSpec.not_hasMalformedLine hspec
      obtain ⟨rfl, hpatterns⟩ := IgnoreSpec.ofText_eq_ok_iff.mp hspec
      refine ⟨iff_of_false ?_ hwell, fun h => absurd h hwell,
        fun _ => ⟨spec.patterns, hpatterns, hloads⟩⟩
      rintro ⟨file, number, reason, he⟩
      cases hloads.answer.symm.trans he
  · exact loads_of_readIgnoreFile hroot hnew (FileTree.readIgnoreFile_of_notFound htext he)
  · rw [σ.looksUp.ignoreSpec p root hroot hnew, FileTree.readIgnoreFile_of_failure htext he,
      Error.ofIo_of_ne_notFound _ he]

/-- A root with an ignore file whose fourth line is no pattern. A comment and a blank line stand
before it, one line ends with a carriage return, and the last one has no end. -/
def brokenTree : FileTree :=
  { entries := [(["work"], .directory),
      (["work", ".gitignore"], .file "*.pyc\r\n# notes\n\nfoo[z-a]".toUTF8.toList)] }

/-- The fourth line is refused, and a directory without an ignore file has an empty spec. -/
theorem answer_ignoreSpec_broken :
    Refuses ⟨{ base := ⟨"/work"⟩ }, brokenTree, {}⟩ ⟨"."⟩
      (.invalidIgnoreFile ⟨"/work/.gitignore"⟩ 4
        "error parsing glob 'foo[z-a]': invalid range; 'z' > 'a'") ∧
    (perform ⟨{ base := ⟨"/work"⟩ }, brokenTree, {}⟩ (.ignoreSpec ⟨"."⟩)).journal.log =
      [⟨.error, "could not parse /work/.gitignore (line 4): " ++
        "error parsing glob 'foo[z-a]': invalid range; 'z' > 'a'"⟩] ∧
    Loads ⟨{ base := ⟨"/work"⟩ }, brokenTree, {}⟩ ⟨"/"⟩ ⟨"/"⟩ { root := ⟨"/"⟩ }
      [.debug "no .gitignore at /"] := by
  have htext : brokenTree.readText (Path.child ⟨"/work"⟩ ignoreFileName) =
      .ok "*.pyc\r\n# notes\n\nfoo[z-a]" := by decide +kernel
  have hmissing : brokenTree.readText (Path.child ⟨"/"⟩ ignoreFileName) = .error .notFound := by
    decide +kernel
  have hline : Text.IsLine "*.pyc\r\n# notes\n\nfoo[z-a]".toList 4 "foo[z-a]".toList :=
    Text.getElem?_lines_iff.mp (by decide +kernel)
  obtain ⟨fault, hfault⟩ : ∃ fault, Pattern.ofLine "foo[z-a]".toList = .error fault := by
    have hrefused : (Pattern.ofLine "foo[z-a]".toList).isOk = false := by decide +kernel
    cases hpattern : Pattern.ofLine "foo[z-a]".toList with
    | error fault => exact ⟨fault, rfl⟩
    | ok pattern? =>
      rw [hpattern] at hrefused
      cases hrefused
  have hwork : answer ⟨{ base := ⟨"/work"⟩ }, brokenTree, {}⟩ (.resolve ⟨"."⟩) = .ok ⟨"/work"⟩ := by
    decide +kernel
  have htop : answer ⟨{ base := ⟨"/work"⟩ }, brokenTree, {}⟩ (.resolve ⟨"/"⟩) = .ok ⟨"/"⟩ := by
    decide +kernel
  obtain ⟨hread, -⟩ := answer_ignoreSpec hwork rfl
  obtain ⟨-, hrefused, -⟩ := hread _ htext
  obtain ⟨number, line, fault, -, hrefuses⟩ := hrefused ⟨4, _, fault, hline, hfault⟩
  obtain ⟨-, hfailed⟩ := answer_ignoreSpec htop rfl
  have hanswer : (answer ⟨{ base := ⟨"/work"⟩ }, brokenTree, {}⟩ (.ignoreSpec ⟨"."⟩)).map
      (fun _ => ()) = .error (.invalidIgnoreFile ⟨"/work/.gitignore"⟩ 4
        "error parsing glob 'foo[z-a]': invalid range; 'z' > 'a'") := by decide +kernel
  rw [hrefuses.answer] at hanswer
  rw [Except.error.inj hanswer] at hrefuses
  exact ⟨hrefuses, hrefuses.log, (hfailed _ hmissing).1 rfl⟩

end Run

end ProjectScope

import ProjectScope.Proofs.Session.Transparency

/-!
# The configuration file that applies

The project file at the root comes before the file of the user. Where the file of the user cannot be
determined there is none, whatever the reason: that the home directory is unknown, but also that the
disk has failed while its path was resolved.
-/

namespace ProjectScope

/-! ### Where the file of the user is -/

namespace UserEnvironment

variable {env : UserEnvironment} {tool : String} {e : Error}

/-- Whether the path of the configuration file starts at the home directory. -/
def NeedsHome (env : UserEnvironment) : Prop :=
  env.platform = .windows ∨
    ∀ dir ∈ env.configHome, dir = "" ∨ (Path.components ⟨dir⟩).head? = some (.name "~")

lemma requireHome_eq_error_iff :
    env.requireHome = .error e ↔ env.home = none ∧ e = .homeUnknown := by
  rw [requireHome]
  cases env.home with
  | none => simp [eq_comm]
  | some home => simp

lemma expandTilde?_eq_none_iff {home : Option Path} {p : Path} :
    Path.expandTilde? home p = none ↔ p.components.head? = some (.name "~") ∧ home = none := by
  rw [Path.expandTilde?]
  split_ifs with h
  · simp [beq_iff_eq.mp h]
  · simp [beq_iff_eq] at h
    simp [h]

lemma configDirectory_eq_error_iff : env.configDirectory = .error e ↔
    (∀ dir ∈ env.configHome, dir = "" ∨ (Path.components ⟨dir⟩).head? = some (.name "~")) ∧
      env.home = none ∧ e = .homeUnknown := by
  rw [configDirectory]
  cases env.configHome with
  | none =>
    dsimp only
    rw [bind_pure_eq_error, requireHome_eq_error_iff]
    simp
  | some dir =>
    dsimp only
    split_ifs with hempty
    · rw [bind_pure_eq_error, requireHome_eq_error_iff]
      simp [String.isEmpty_iff.mp hempty]
    · have hdir : dir ≠ "" := fun h => hempty (String.isEmpty_iff.mpr h)
      cases hexpand : Path.expandTilde? env.home ⟨dir⟩ with
      | none =>
        obtain ⟨htilde, hhome⟩ := expandTilde?_eq_none_iff.mp hexpand
        simp [htilde, hhome, eq_comm]
      | some p =>
        have hnot : ¬ ((Path.components ⟨dir⟩).head? = some (.name "~") ∧ env.home = none) := by
          rw [← expandTilde?_eq_none_iff, hexpand]
          simp
        simp only [reduceCtorEq, Option.mem_some_iff, forall_eq', hdir, false_or, false_iff]
        rintro ⟨htilde, hhome, -⟩
        exact hnot ⟨htilde, hhome⟩

/-- The path is found unless the home directory is needed and unknown. -/
lemma configPath_eq_error_iff : env.configPath tool = .error e ↔
    env.NeedsHome ∧ env.home = none ∧ e = .homeUnknown := by
  rw [configPath, NeedsHome]
  cases env.platform with
  | windows =>
    dsimp only
    rw [bind_pure_eq_error, requireHome_eq_error_iff]
    simp
  | unix =>
    dsimp only
    rw [bind_pure_eq_error, configDirectory_eq_error_iff]
    simp

end UserEnvironment

/-! ### Failures of the disk -/

/-- Whether an error is a failure of the disk. -/
def Error.IsIo : Error → Prop
  | .pathNotFound _ | .permissionDenied _ | .io _ _ => True
  | _ => False

lemma Error.isIo_ofIo (p : Path) (cause : IoError) : (ofIo p cause).IsIo := by
  rw [ofIo]
  split <;> trivial

namespace FileTree

variable {t : FileTree} {p : Path} {e : Error}

lemma splitExisting_error_cases {before rest : List Component}
    (h : t.splitExisting p before rest = .error e) :
    (∃ reason, e = .invalidPath p reason) ∨ e.IsIo := by
  induction before generalizing rest with
  | nil =>
    cases h
    exact .inl ⟨_, rfl⟩
  | cons c before ih =>
    simp only [splitExisting] at h
    split at h
    · cases h
    · rename_i cause _
      split_ifs at h
      · exact ih h
      · cases h
        exact .inr (Error.isIo_ofIo _ cause)

/-- A path does not resolve when no part of it exists or the disk fails. -/
lemma resolve_error_cases (h : t.resolve p = .error e) :
    (∃ reason, e = .invalidPath p reason) ∨ e.IsIo := by
  obtain hsplit | ⟨found, -, h⟩ := bind_eq_error.mp h
  · exact splitExisting_error_cases hsplit
  · cases hrest : found.rest <;> simp [hrest, pure, Except.pure] at h

/-! ### Which file applies -/

/-- The configuration file that applies below a root, by where the file of the user is found, or why
it is not. -/
inductive Applies (t : FileTree) (user : Except Error Path) (root : ProjectRoot) :
    Option FoundConfig → Prop
  /-- The project file at the root comes first. -/
  | project (h : t.isFile (root.path.child projectFileName) = true) :
      Applies t user root (some ⟨root.path.child projectFileName, .project, root⟩)
  | user {p : Path} (h : t.isFile (root.path.child projectFileName) = false) (hp : user = .ok p)
      (hfile : t.isFile p = true) : Applies t user root (some ⟨p, .user, root⟩)
  | none (h : t.isFile (root.path.child projectFileName) = false)
      (hnone : ∀ p, user = .ok p → t.isFile p = false) : Applies t user root none

lemma applies_iff {user : Except Error Path} {root : ProjectRoot} {found : Option FoundConfig} :
    t.Applies user root found ↔ t.configBelow user.toOption root = found := by
  constructor
  · rintro (h | ⟨h, rfl, hfile⟩ | ⟨h, hnone⟩)
    · simp [configBelow, h]
    · simp [configBelow, h, hfile, Except.toOption]
    · cases user with
      | error e => simp [configBelow, h, Except.toOption]
      | ok p => simp [configBelow, h, hnone p rfl, Except.toOption]
  · rintro rfl
    cases h : t.isFile (root.path.child projectFileName) with
    | true => simpa [configBelow, h] using Applies.project h
    | false =>
      cases user with
      | error e =>
        have hnone : ∀ q, Except.error e = .ok q → t.isFile q = false := fun _ => nofun
        simpa [configBelow, h, Except.toOption] using Applies.none h hnone
      | ok p =>
        cases hfile : t.isFile p with
        | true => simpa [configBelow, h, hfile, Except.toOption] using Applies.user h rfl hfile
        | false =>
          have hnone : ∀ q, (.ok p : Except Error Path) = .ok q → t.isFile q = false := by
            rintro _ ⟨⟩
            exact hfile
          simpa [configBelow, h, hfile, Except.toOption] using Applies.none h hnone

/-- A repository with a configuration file in a home directory, and a link to itself. -/
def homeTree : FileTree :=
  { entries := [([".git"], .directory), (["home"], .directory), (["home", ".config"], .directory),
      (["home", ".config", "black"], .file []), (["loop"], .link ⟨"loop"⟩)] }

end FileTree

namespace Session

open ProjectScope.Action

variable {s : Session} {t : FileTree}

lemma run_userConfig_empty : (run (s.userConfig t) {}).1 =
    s.user.configPath s.tool >>= fun p => t.resolve (.absolutize s.base p) :=
  (answers_userConfig {} (Caches.isSound_empty t s.base)).1

lemma run_findConfig_empty (sources : List Path) (stdin : Option Path) :
    (run (s.findConfig t sources stdin) {}).1 =
      (run (s.locate t sources stdin) {}).1.map
        (t.configBelow (run (s.userConfig t) {}).1.toOption) := by
  have sound := isSound_run_locate (j := {}) (Caches.isSound_empty t s.base) sources stdin
  rw [findConfig_eq, run_userConfig_empty]
  cases hroot : (run (s.locate t sources stdin) {}).1 with
  | error e => rw [run_bind_of_error hroot, Except.map]
  | ok root => rw [run_bind_of_ok hroot, (answers_findBelow root _ sound).1, Except.map]

/-- The home directory is missed only where it is needed. -/
lemma userConfig_eq_homeUnknown_iff : (run (s.userConfig t) {}).1 = .error .homeUnknown ↔
    s.user.NeedsHome ∧ s.user.home = none := by
  rw [run_userConfig_empty, bind_eq_error, UserEnvironment.configPath_eq_error_iff]
  constructor
  · rintro (⟨hneeds, hhome, -⟩ | ⟨p, -, hp⟩)
    · exact ⟨hneeds, hhome⟩
    · obtain ⟨reason, he⟩ | hio := FileTree.resolve_error_cases hp
      · cases he
      · exact hio.elim
  · rintro ⟨hneeds, hhome⟩
    exact .inl ⟨hneeds, hhome, rfl⟩

/-! ### Main statement -/

/-- On fresh caches the search for a configuration file fails exactly when the search for the root
does; from a root it finds the project file there, or else the file of the user, or else none. The
home directory is missed only where it is needed, and there is no file of the user then. Nor is there
one when the disk fails on the way to it. Such a failure is never reported, so the rule that it is one
of the search holds exactly where there is none. -/
theorem findConfig_applies (s : Session) (t : FileTree) (sources : List Path)
    (stdin : Option Path) :
    let root := (run (s.locate t sources stdin) {}).1
    let user := (run (s.userConfig t) {}).1
    let found := (run (s.findConfig t sources stdin) {}).1
    (∀ config, found = .ok config ↔ ∃ r, root = .ok r ∧ t.Applies user r config) ∧
      (∀ e, found = .error e ↔ root = .error e) ∧
      (user = .error .homeUnknown ↔ s.user.NeedsHome ∧ s.user.home = none) ∧
      ((∀ e, found = .error e ↔ root = .error e ∨ ∃ r, root = .ok r ∧
          t.isFile (r.path.child projectFileName) = false ∧ user = .error e ∧ e.IsIo) ↔
        ∀ r e, root = .ok r → t.isFile (r.path.child projectFileName) = false →
          user = .error e → ¬ e.IsIo) := by
  intro root user found
  have hfound : found = root.map (t.configBelow user.toOption) := run_findConfig_empty sources stdin
  have errors (e : Error) : found = .error e ↔ root = .error e := by
    rw [hfound]
    cases root <;> simp [Except.map]
  refine ⟨fun config => ?_, errors, userConfig_eq_homeUnknown_iff, ?_⟩
  · simp only [FileTree.applies_iff]
    rw [hfound]
    cases root <;> simp [Except.map]
  · constructor
    · intro h r e hr hfile huser hio
      have hroot := (errors e).mp ((h e).mpr (.inr ⟨r, hr, hfile, huser, hio⟩))
      rw [hr] at hroot
      cases hroot
    · intro h e
      rw [errors]
      constructor
      · exact .inl
      · rintro (hroot | ⟨r, hr, hfile, huser, hio⟩)
        · exact hroot
        · exact absurd hio (h r e hr hfile huser)

/-- The root has no project file, and the user has a file in the home directory. -/
theorem findConfig_applies_home :
    ∃ r, (run (Session.locate { base := ⟨"/"⟩, user := { home := some ⟨"/home"⟩ } } .homeTree
        [⟨"."⟩] none) {}).1 = .ok r ∧
      FileTree.homeTree.Applies (run (Session.userConfig
        { base := ⟨"/"⟩, user := { home := some ⟨"/home"⟩ } } .homeTree) {}).1 r
        (some ⟨⟨"/home/.config/black"⟩, .user, ⟨⟨"/"⟩, .git⟩⟩) := by
  obtain ⟨hfound, -⟩ := findConfig_applies
    { base := ⟨"/"⟩, user := { home := some ⟨"/home"⟩ } } .homeTree [⟨"."⟩] none
  exact (hfound _).mp (by decide +kernel)

/-- The path of the file of the user meets a link to itself, and the failure is not reported. -/
theorem findConfig_user_loop :
    (run (Session.findConfig { base := ⟨"/"⟩, user := { configHome := some "/loop" } } .homeTree
        [⟨"."⟩] none) {}).1 = .ok none ∧
      (run (Session.userConfig { base := ⟨"/"⟩, user := { configHome := some "/loop" } }
        .homeTree) {}).1 = .error (.io ⟨"/loop/black"⟩ .tooManyLinks) := by
  decide +kernel

end Session

end ProjectScope

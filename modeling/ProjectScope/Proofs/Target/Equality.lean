import ProjectScope.Proofs.Specifier.RoundTrip
import ProjectScope.Proofs.Target.Admission

/-!
# Versions and the clauses that ask for them

A version infers its target in three ways: by itself, where its first two segments are looked up;
after `==`, where the clause is narrowed and compared in the order of versions; and after `===`, where
the minor version is printed and compared as a text. All three say that the minor version is the final
release of the target.
-/

namespace ProjectScope

namespace Target

lemma minor_injective : Function.Injective minor := by
  intro t u h
  have hsome : some t = some u := by
    rw [← t.ofMinor?_minor, h, u.ofMinor?_minor]
  exact Option.some.inj hsome

lemma version_injective : Function.Injective version := by
  intro t u h
  have hrelease : [3, t.minor] = [3, u.minor] := congrArg Version.release h
  apply minor_injective
  simpa using hrelease

end Target

namespace Version

variable {s : String} {v : Version} {t : Target}

/-! ### The text of a version -/

lemma not_isBlank_of_mem_trim (h : Version.parse s = .ok v) :
    ∀ c ∈ Text.trim s.toList, Text.isBlank c = false := by
  rw [Version.parse, mapError_eq_ok, ofText] at h
  exact fun c hc => not_isBlank_of_isGrammarChar_toLower
    (isGrammarChar_of_ofLowered h _ (List.mem_map_of_mem hc))

lemma trim_ne_nil (h : Version.parse s = .ok v) : Text.trim s.toList ≠ [] := by
  intro hnil
  rw [Version.parse, mapError_eq_ok, ofText, hnil] at h
  cases h

lemma not_mem_of_parse (h : Version.parse s = .ok v) {c : Char} (hblank : Text.isBlank c = false)
    (hgrammar : isGrammarChar c.toLower = false) : c ∉ s.toList := by
  intro hc
  rw [isGrammarChar_of_parse h hc hblank] at hgrammar
  cases hgrammar

/-- A version is read from its text without the outer blanks. -/
lemma ofText_trim (h : Version.parse s = .ok v) :
    ofText (String.ofList (Text.trim s.toList)) = .ok v := by
  rw [ofText, String.toList_ofList, Text.trim_eq_self (not_isBlank_of_mem_trim h)]
  rwa [Version.parse, mapError_eq_ok] at h

/-! ### The target of a version -/

/-- The target of a version is the one whose final release is its minor version. -/
lemma exactTarget?_eq_some : VersionRange.exactTarget? v = some t ↔ v.minorOf = t.version := by
  constructor
  · intro h
    simp only [VersionRange.exactTarget?, Option.ite_none_right_eq_some, Option.bind_eq_some_iff] at h
    obtain ⟨hmajor, n, hn, ht⟩ := h
    have hminor : t.minor = n := by simpa [Target.ofMinor?] using List.find?_some ht
    have hsegment : v.segment 1 = n := by
      rw [segment, show v.release[1]? = some n from hn]
      rfl
    exact minorOf_eq_version_iff.mpr ⟨hmajor, hsegment.trans hminor.symm⟩
  · intro h
    obtain ⟨rest, hrest⟩ := prefix_of_minorOf_eq h
    have hmajor : v.major = 3 := (minorOf_eq_version_iff.mp h).1
    have hsecond : v.minor? = some t.minor := by
      rw [minor?, ← hrest]
      rfl
    rw [VersionRange.exactTarget?, if_pos hmajor, hsecond]
    exact t.ofMinor?_minor

/-- The targets whose final release is the minor version of a version; there is at most one. -/
def targetsOf (v : Version) : Targets := Target.all.filter (v.minorOf = ·.version)

lemma targetsOf_eq (v : Version) : v.targetsOf = (VersionRange.exactTarget? v).toList := by
  cases hv : VersionRange.exactTarget? v with
  | none =>
    rw [Option.toList_none, targetsOf, List.filter_eq_nil_iff]
    intro t _ ht
    rw [decide_eq_true_eq, ← exactTarget?_eq_some, hv] at ht
    cases ht
  | some t =>
    have hsame (u : Target) : decide (v.minorOf = u.version) = decide (t = u) := by
      rw [decide_eq_decide, exactTarget?_eq_some.mp hv, Target.version_injective.eq_iff]
    rw [targetsOf, List.filter_congr fun u _ => hsame u]
    cases t <;> decide

/-- A version infers its own target. -/
lemma inferred_of_parse (h : Version.parse s = .ok v) : inferred s = v.targetsOf := by
  rw [targetsOf_eq, inferred, inferTargets, VersionRange.parse, h]
  simp only [VersionRange.targets]
  cases VersionRange.exactTarget? v <;> rfl

end Version

namespace Specifier

variable {op : Operator} {s : List Char} {v : Version} {t : Target} {shared : ℕ}

/-! ### Clauses that are written out -/

lemma narrowed_symbol_append {x : Specifier} (hop : op = .arbitrary ∨ '=' ∉ s)
    (hne : Text.trim s ≠ []) (hblank : ∀ c ∈ Text.trim s, Text.isBlank c = false)
    (hx : ofOperand op (Text.trim s) = .ok x) :
    narrowed (Text.trim (op.symbol.toList ++ s)) = x.narrow := by
  have hparse : Specifier.parse (String.ofList (Text.trim (op.symbol.toList ++ s))) = .ok x := by
    rw [Specifier.parse, mapError_eq_ok, String.toList_ofList, ofChars_symbol_append hop hne hblank]
    exact hx
  exact narrowed_of_parse hparse

end Specifier

section Inferred

variable {s : String} {v : Version} {op : Operator} {x y : Specifier}

/-- An operator before a text without commas makes one clause of it. -/
lemma SpecifierSet.pieces_symbol_append (hcomma : ',' ∉ s.toList) :
    SpecifierSet.pieces (op.symbol ++ s) = [Text.trim (op.symbol.toList ++ s.toList)] := by
  have hnone : ',' ∉ op.symbol.toList ++ s.toList := by
    rw [List.mem_append, not_or]
    exact ⟨by cases op <;> decide, hcomma⟩
  have hsymbol := Specifier.symbol_ne_nil op
  have hne : Text.trim (op.symbol.toList ++ s.toList) ≠ [] := by
    rw [Text.trim_append_of_not hsymbol fun c => Specifier.not_isBlank_of_mem_symbol]
    simp [hsymbol]
  rw [SpecifierSet.pieces, String.toList_append, List.splitOn_eq_singleton hnone]
  simp [hne]

/-- An operator before a version makes a clause; where the narrowed clause asks for the minor version,
the target of the version is inferred. -/
lemma inferred_symbol_append (h : Version.parse s = .ok v)
    (hx : Specifier.ofOperand op (Text.trim s.toList) = .ok x) (hy : x.narrow = .ok y)
    (hcontains : ∀ t : Target, y.contains t.version = true ↔ v.minorOf = t.version) :
    inferred (op.symbol ++ s) = v.targetsOf := by
  have hequals : '=' ∉ s.toList := Version.not_mem_of_parse h (by decide) (by decide)
  have hcomma : ',' ∉ s.toList := Version.not_mem_of_parse h (by decide) (by decide)
  have hnarrowed := Specifier.narrowed_symbol_append (.inr hequals) (Version.trim_ne_nil h)
    (Version.not_isBlank_of_mem_trim h) hx
  obtain ⟨c, hc, hgrammar, hblank⟩ := Specifier.exists_mem_symbol op
  have hversion : (Version.parse (op.symbol ++ s)).isOk = false :=
    not_version_of_mem (by simp [hc]) hblank hgrammar
  rw [inferred_eq hversion, SpecifierSet.pieces_symbol_append hcomma, if_neg (by simp),
    Version.targetsOf]
  apply List.filter_congr
  intro t _
  simp only [List.all_cons, List.all_nil, Bool.and_true, Specifier.admits, hnarrowed, hy]
  rw [Bool.eq_iff_iff, decide_eq_true_eq]
  exact hcontains t

lemma inferred_equal (h : Version.parse s = .ok v) : inferred ("==" ++ s) = v.targetsOf := by
  have hstar : '*' ∉ Text.trim s.toList := by
    rw [Text.mem_trim (by decide)]
    exact Version.not_mem_of_parse h (by decide) (by decide)
  have hread : Specifier.readVersion (Text.trim s.toList) = .ok v := by
    rw [Specifier.readVersion, mapError_eq_ok]
    exact Version.ofText_trim h
  have hx : Specifier.ofOperand .equal (Text.trim s.toList) = .ok ⟨.equal, .version v, 0⟩ := by
    rw [Specifier.ofOperand, Text.stripSuffix?_of_not_mem (by decide) hstar, hread]
    simp [Operator.isEquality, bind, Except.bind, pure, Except.pure]
  show inferred (Operator.equal.symbol ++ s) = v.targetsOf
  exact inferred_symbol_append h hx rfl fun t => Specifier.contains_equal_minorOf

lemma inferred_arbitrary (h : Version.parse s = .ok v) : inferred ("===" ++ s) = v.targetsOf := by
  have hread : Version.parse (String.ofList (Text.trim s.toList)) = .ok v := by
    rw [Version.parse, mapError_eq_ok]
    exact Version.ofText_trim h
  have hnarrow : Specifier.narrow ⟨.arbitrary, .text (String.ofList (Text.trim s.toList)), 0⟩ =
      .ok ⟨.arbitrary, .text v.minorOf.toText, 0⟩ := by
    simp only [Specifier.narrow, hread]
    rfl
  show inferred (Operator.arbitrary.symbol ++ s) = v.targetsOf
  exact inferred_symbol_append h rfl hnarrow fun t => Specifier.contains_text_minorOf

end Inferred

/-! ### Main statement -/

/-- A version, the same version after `==` and the same version after `===` infer the same targets. -/
theorem inferTargets_eq_of_version {s : String} (h : (Version.parse s).isOk = true) :
    (inferTargets ("==" ++ s)).value = (inferTargets s).value ∧
      (inferTargets ("===" ++ s)).value = (inferTargets s).value := by
  obtain ⟨v, hv⟩ := exists_of_isOk h
  simp only [inferTargets_value, Version.inferred_of_parse hv, inferred_equal hv,
    inferred_arbitrary hv, and_self]

/-- A version with a mark, an epoch, leading zeros, a long name of its phase, a local label and blanks,
one of a single segment, and one that no target has. -/
theorem inferTargets_eq_of_version_preview :
    ((inferTargets "== V1!03.08.0-Preview_2+Ubuntu.1\t").value = some [.py38] ∧
      (inferTargets "=== V1!03.08.0-Preview_2+Ubuntu.1\t").value = some [.py38]) ∧
    ((inferTargets "==3").value = none ∧ (inferTargets "===3").value = none) ∧
    (inferTargets "==3.99").value = none ∧ (inferTargets "===3.99").value = none := by
  have hpreview : (inferTargets " V1!03.08.0-Preview_2+Ubuntu.1\t").value = some [.py38] := by
    decide +kernel
  have hmajor : (inferTargets "3").value = none := by decide +kernel
  have hunsupported : (inferTargets "3.99").value = none := by decide +kernel
  obtain ⟨hequal, harbitrary⟩ := inferTargets_eq_of_version
    (s := " V1!03.08.0-Preview_2+Ubuntu.1\t") (by decide +kernel)
  obtain ⟨hequalMajor, harbitraryMajor⟩ :=
    inferTargets_eq_of_version (s := "3") (by decide +kernel)
  obtain ⟨hequalLater, harbitraryLater⟩ :=
    inferTargets_eq_of_version (s := "3.99") (by decide +kernel)
  exact ⟨⟨hequal.trans hpreview, harbitrary.trans hpreview⟩,
    ⟨hequalMajor.trans hmajor, harbitraryMajor.trans hmajor⟩,
    hequalLater.trans hunsupported, harbitraryLater.trans hunsupported⟩

end ProjectScope

import ProjectScope.Proofs.Specifier.Parser
import ProjectScope.Proofs.Specifier.Set
import ProjectScope.Proofs.Version.RoundTrip
import ProjectScope.Proofs.Version.TotalOrder

/-!
# Printed specifiers are read back

A printed clause starts with its operator, and what follows cannot make a longer operator of it: a
version starts with a digit, and no operator is longer than `===`. It holds no blank, so nothing is
trimmed, and in a set it holds no comma, so nothing is split. The number of shared segments of a
`~=` clause is not printed, but the segments are, trailing zeros included, and they give it again.
-/

namespace ProjectScope

namespace Text

variable {suffix s stem : List Char}

lemma stripSuffix?_eq_some : stripSuffix? suffix s = some stem ↔ s = stem ++ suffix := by
  rw [stripSuffix?, Option.map_eq_some_iff]
  constructor
  · rintro ⟨r, hr, rfl⟩
    rw [List.isPrefixOf?_eq_some_iff_append_eq] at hr
    rw [← List.reverse_inj, ← hr]
    simp
  · rintro rfl
    refine ⟨stem.reverse, ?_, List.reverse_reverse stem⟩
    rw [List.isPrefixOf?_eq_some_iff_append_eq, List.reverse_append]

lemma stripSuffix?_of_not_mem {c : Char} (hc : c ∈ suffix) (hs : c ∉ s) :
    stripSuffix? suffix s = none := by
  rw [Option.eq_none_iff_forall_ne_some]
  intro stem h
  rw [stripSuffix?_eq_some.mp h] at hs
  exact hs (List.mem_append_right stem hc)

end Text

namespace Version

lemma render_ne_nil {v : Version} (h : v.IsPrintable) : v.render ≠ [] := by
  obtain ⟨r, hr, -⟩ := h.exists_reading
  rw [← hr]
  exact r.text_ne_nil

lemma not_isBlank_of_isGrammarChar {c : Char} (h : isGrammarChar c = true) :
    Text.isBlank c = false := by
  apply not_isBlank_of_isGrammarChar_toLower
  have hlower : Text.lower [c] = [c] := lower_of_inGrammar (inGrammar_cons.mpr ⟨h, inGrammar_nil⟩)
  rw [(List.cons.inj hlower).1]
  exact h

end Version

lemma Operand.same_self (o : Operand) : o.same o = true := by
  cases o with
  | version v => exact v.same_self
  | wildcard epoch release => simp [same]
  | text t => simp [same]

namespace Specifier

variable {op : Operator} {s : List Char} {x : Specifier} {v : Version}

/-! ### What is printed of an operand -/

lemma isPrintable_of_readVersion (h : readVersion s = .ok v) : v.IsPrintable := by
  rw [readVersion, mapError_eq_ok] at h
  exact (Version.Arises.of_ofText h).isPrintable

lemma readVersion_render (h : v.IsPrintable) : readVersion v.render = .ok v := by
  rw [readVersion, mapError_eq_ok]
  exact h.ofText_of_lower_eq (by rw [String.toList_ofList])

lemma star_not_mem_render (h : v.IsPrintable) : '*' ∉ v.render := by
  intro hmem
  have hstar := h.inGrammar_render '*' hmem
  revert hstar
  decide

/-- What is printed of a version is no wildcard. -/
lemma stripSuffix?_render (h : v.IsPrintable) : Text.stripSuffix? ['.', '*'] v.render = none :=
  Text.stripSuffix?_of_not_mem (by decide) (star_not_mem_render h)

/-- A wildcard is printed as the final release that it is about, and the mark. -/
lemma render_wildcard (epoch : UInt64) (release : List UInt64) :
    Operand.render (.wildcard epoch release) =
      Version.render { epoch, release } ++ ['.', '*'] := by
  simp [Operand.render, Version.render, Version.prePart, Version.postPart, Version.devPart,
    Version.labelPart]

lemma isGrammarChar_or_star {stem : List Char} (h : Version.InGrammar stem) {c : Char}
    (hc : c ∈ stem ++ ['.', '*']) : Version.isGrammarChar c = true ∨ c = '*' := by
  rw [List.mem_append] at hc
  rcases hc with hc | hc
  · exact .inl (h c hc)
  · simp only [List.mem_cons, List.not_mem_nil, or_false] at hc
    rcases hc with rfl | rfl
    · left
      decide
    · exact .inr rfl

lemma mem_render_operand (shape : OperandShape op s x) {c : Char} (hc : c ∈ x.operand.render) :
    (op = .arbitrary ∧ c ∈ s) ∨ Version.isGrammarChar c = true ∨ c = '*' := by
  cases shape with
  | text hop =>
    left
    rw [Operand.render, String.toList_ofList] at hc
    exact ⟨hop, hc⟩
  | wildcard stem v hop hs hv plain =>
    right
    have printable : Version.IsPrintable { epoch := v.epoch, release := v.release } :=
      ⟨(isPrintable_of_readVersion hv).release, by simp⟩
    rw [render_wildcard] at hc
    exact isGrammarChar_or_star printable.inGrammar_render hc
  | compatible v hop hs hv =>
    exact .inr (.inl ((isPrintable_of_readVersion hv).inGrammar_render c hc))
  | version v hop hop' hs hv =>
    exact .inr (.inl ((isPrintable_of_readVersion hv).inGrammar_render c hc))

lemma render_operand_ne_nil (shape : OperandShape op s x) (hne : s ≠ []) :
    x.operand.render ≠ [] := by
  cases shape with
  | text hop => simpa [Operand.render] using hne
  | wildcard stem v => simp [Operand.render]
  | compatible v hop hs hv => exact Version.render_ne_nil (isPrintable_of_readVersion hv)
  | version v hop hop' hs hv => exact Version.render_ne_nil (isPrintable_of_readVersion hv)

lemma ofOperand_wildcard {epoch : UInt64} {release : List UInt64} {stem : List Char}
    (hop : op.isEquality = true) (hstem : readVersion stem = .ok { epoch, release }) :
    ofOperand op (stem ++ ['.', '*']) =
      .ok { operator := op, operand := .wildcard epoch release } := by
  have harbitrary : op ≠ .arbitrary := by
    rintro rfl
    cases hop
  simp only [ofOperand, harbitrary, if_false, Text.stripSuffix?_eq_some.mpr rfl, hop, hstem]
  rfl

/-- What is printed of an operand is read as the clause again. -/
lemma ofOperand_render (shape : OperandShape op s x) : ofOperand op x.operand.render = .ok x := by
  cases shape with
  | text hop =>
    subst hop
    simp only [ofOperand, Operand.render, String.toList_ofList]
    rfl
  | wildcard stem v hop hs hv plain =>
    have printable : Version.IsPrintable { epoch := v.epoch, release := v.release } :=
      ⟨(isPrintable_of_readVersion hv).release, by simp⟩
    rw [render_wildcard]
    exact ofOperand_wildcard hop (readVersion_render printable)
  | compatible v hop hs hv hlocal hlen =>
    have printable := isPrintable_of_readVersion hv
    subst hop
    simp only [ofOperand, Operand.render, stripSuffix?_render printable,
      readVersion_render printable, bind, Except.bind, hlocal, Nat.not_lt.mpr hlen, if_false]
    rfl
  | version v hop hop' hs hv hlocal =>
    have printable := isPrintable_of_readVersion hv
    have hallowed : (v.isLocal && !op.isEquality) = false := by
      simpa using hlocal
    simp only [ofOperand, Operand.render, stripSuffix?_render printable,
      readVersion_render printable, bind, Except.bind, hop, hop', hallowed, if_false]
    rfl

/-! ### Clauses -/

/-- An operator is read from what starts with it, unless an equals sign comes next; after `===`
anything may come. -/
lemma operator?_symbol_append (h : op = .arbitrary ∨ s.head? ≠ some '=') :
    operator? (op.symbol.toList ++ s) = some (op, s) := by
  rcases h with rfl | h
  · simp [operator?, Operator.all, Operator.symbol, List.isPrefixOf?]
  · have hlonger : List.isPrefixOf? ['='] s = none := by
      cases s with
      | nil => rfl
      | cons c s =>
        have hc : '=' ≠ c := fun heq => h (by rw [heq]; rfl)
        simp [List.isPrefixOf?, hc]
    cases op <;> simp [operator?, Operator.all, Operator.symbol, List.isPrefixOf?, hlonger]

lemma OperandShape.operator_eq (shape : OperandShape op s x) : x.operator = op := by
  cases shape <;> rfl

lemma symbol_ne_nil (op : Operator) : op.symbol.toList ≠ [] := by
  cases op <;> decide

lemma not_isBlank_of_mem_symbol {c : Char} (hc : c ∈ op.symbol.toList) :
    Text.isBlank c = false := by
  have hnone : op.symbol.toList.any Text.isBlank = false := by
    cases op <;> rfl
  rw [Bool.eq_false_iff]
  exact List.any_eq_false.mp hnone c hc

/-- Nothing of a printed clause is trimmed. -/
lemma not_isBlank_of_mem_render (shape : OperandShape op s x) (hblank : s.any Text.isBlank = false)
    {c : Char} (hc : c ∈ x.render) : Text.isBlank c = false := by
  rw [render, List.mem_append] at hc
  rcases hc with hc | hc
  · exact not_isBlank_of_mem_symbol hc
  · rcases mem_render_operand shape hc with ⟨-, hc⟩ | hc | rfl
    · simpa using List.any_eq_false.mp hblank c hc
    · exact Version.not_isBlank_of_isGrammarChar hc
    · decide

lemma ofChars_render (shape : OperandShape op s x) (hne : s ≠ [])
    (hblank : s.any Text.isBlank = false) : ofChars x.render = .ok x := by
  have bare {c : Char} (hc : c ∈ x.render) : Text.isBlank c = false :=
    not_isBlank_of_mem_render shape hblank hc
  have bareOperand : ∀ c ∈ x.operand.render, Text.isBlank c = false :=
    fun c hc => bare (List.mem_append_right _ hc)
  have hoperator : operator? x.render = some (op, x.operand.render) := by
    rw [render, shape.operator_eq]
    apply operator?_symbol_append
    by_cases hop : op = .arbitrary
    · exact .inl hop
    · right
      intro hhead
      rcases mem_render_operand shape (List.mem_of_head? hhead) with ⟨h, -⟩ | h | h
      · exact hop h
      · revert h
        decide
      · revert h
        decide
  have hnonempty : x.operand.render.isEmpty = false := by
    simpa using render_operand_ne_nil shape hne
  have hnone : x.operand.render.any Text.isBlank = false := by
    simpa using bareOperand
  simp only [ofChars, Text.trim_eq_self fun c hc => bare hc, hoperator,
    Text.trim_eq_self bareOperand, hnonempty, hnone]
  exact ofOperand_render shape

lemma parse_toText_of_shape (shape : OperandShape op s x) (hne : s ≠ [])
    (hblank : s.any Text.isBlank = false) : Specifier.parse x.toText = .ok x := by
  rw [Specifier.parse, mapError_eq_ok, toText, String.toList_ofList]
  exact ofChars_render shape hne hblank

lemma toText_eq (x : Specifier) : x.toText = x.operator.symbol ++ String.ofList x.operand.render := by
  rw [toText, render, String.ofList_append, String.ofList_toList]

lemma any_isBlank_render (hv : v.IsPrintable) : v.render.any Text.isBlank = false := by
  rw [List.any_eq_false]
  intro c hc
  simp [Version.not_isBlank_of_isGrammarChar (hv.inGrammar_render c hc)]

/-- A version is read from what is printed of it, after an operator that compares versions. -/
lemma parse_toText_version (op : Operator) (hv : v.IsPrintable) (hop : op ≠ .arbitrary)
    (hop' : op ≠ .compatible) (hlocal : v.isLocal = true → op.isEquality = true) :
    Specifier.parse (toText { operator := op, operand := .version v }) =
      .ok { operator := op, operand := .version v } :=
  parse_toText_of_shape
    (.version v hop hop' (stripSuffix?_render hv) (readVersion_render hv) hlocal)
    (Version.render_ne_nil hv) (any_isBlank_render hv)

/-- Blanks after the operator and at the end of a clause do not matter. -/
lemma ofChars_symbol_append (hop : op = .arbitrary ∨ '=' ∉ s) (hne : Text.trim s ≠ [])
    (hblank : ∀ c ∈ Text.trim s, Text.isBlank c = false) :
    ofChars (Text.trim (op.symbol.toList ++ s)) = ofOperand op (Text.trim s) := by
  have hsymbol := symbol_ne_nil op
  have hrest : Text.trim (Text.trimRight (Text.trimRight s)) = Text.trim s := by
    rw [Text.trim_trimRight, Text.trim_trimRight]
  have hoperator : operator? (op.symbol.toList ++ Text.trimRight (Text.trimRight s)) =
      some (op, Text.trimRight (Text.trimRight s)) := by
    apply operator?_symbol_append
    refine hop.imp_right fun hequals hhead => hequals ?_
    rw [← Text.mem_trim (by decide), ← hrest, Text.mem_trim (by decide)]
    exact List.mem_of_head? hhead
  have hempty : (Text.trim s).isEmpty = false := by simpa using hne
  have hany : (Text.trim s).any Text.isBlank = false := by simpa using hblank
  rw [Text.trim_append_of_not hsymbol fun c => not_isBlank_of_mem_symbol]
  simp only [ofChars, Text.trim_append_of_not hsymbol fun c => not_isBlank_of_mem_symbol, hoperator,
    hrest, hempty, hany]
  rfl

/-- A wildcard is read from a text of its release and the mark, after an operator that takes one. -/
lemma parse_wildcard (op : Operator) {epoch : UInt64} {release : List UInt64} {stem : List Char}
    (hop : op.isEquality = true) (hgrammar : Version.InGrammar stem)
    (hstem : readVersion stem = .ok { epoch, release }) :
    Specifier.parse (op.symbol ++ String.ofList stem ++ ".*") =
      .ok { operator := op, operand := .wildcard epoch release } := by
  have hbare {c : Char} (hc : c ∈ stem ++ ['.', '*']) : Text.isBlank c = false := by
    rcases isGrammarChar_or_star hgrammar hc with hc | rfl
    · exact Version.not_isBlank_of_isGrammarChar hc
    · decide
  have hequals : '=' ∉ stem ++ ['.', '*'] :=
    fun hc => absurd (isGrammarChar_or_star hgrammar hc) (by decide)
  have htrim : Text.trim (stem ++ ['.', '*']) = stem ++ ['.', '*'] :=
    Text.trim_eq_self fun c => hbare
  have hclause : Text.trim (op.symbol.toList ++ (stem ++ ['.', '*'])) =
      op.symbol.toList ++ (stem ++ ['.', '*']) := by
    refine Text.trim_eq_self fun c hc => ?_
    exact (List.mem_append.mp hc).elim not_isBlank_of_mem_symbol hbare
  have htext : (op.symbol ++ String.ofList stem ++ ".*").toList =
      op.symbol.toList ++ (stem ++ ['.', '*']) := by
    simp
  rw [Specifier.parse, mapError_eq_ok, htext, ← hclause,
    ofChars_symbol_append (.inr hequals) (by simp [htrim]) (fun c hc => hbare (htrim ▸ hc)), htrim]
  exact ofOperand_wildcard hop hstem

/-- A clause that has been read is read again from what is printed of it. -/
lemma parse_toText {t : String} (h : Specifier.parse t = .ok x) :
    Specifier.parse x.toText = .ok x := by
  obtain ⟨op, rest, -, hne, hblank, shape⟩ := exists_operandShape_of_parse h
  exact parse_toText_of_shape shape hne hblank

lemma same_self (x : Specifier) : x.same x = true := by
  simp [same, x.operand.same_self]

/-! ### Clauses of a set -/

lemma render_ne_nil (x : Specifier) : x.render ≠ [] :=
  List.append_ne_nil_of_left_ne_nil (symbol_ne_nil x.operator) _

lemma trim_render {t : String} (h : Specifier.parse t = .ok x) : Text.trim x.render = x.render := by
  obtain ⟨op, rest, -, -, hblank, shape⟩ := exists_operandShape_of_parse h
  exact Text.trim_eq_self fun c hc => not_isBlank_of_mem_render shape hblank hc

/-- A clause that is read from a text without commas is printed without them. -/
lemma comma_not_mem_render {t : String} (h : Specifier.parse t = .ok x) (ht : ',' ∉ t.toList) :
    ',' ∉ x.render := by
  obtain ⟨op, rest, hop, -, -, shape⟩ := exists_operandShape_of_parse h
  intro hc
  rw [render, List.mem_append] at hc
  rcases hc with hc | hc
  · revert hc
    cases x.operator <;> decide
  · rcases mem_render_operand shape hc with ⟨-, hc⟩ | hc | hc
    · rw [Text.mem_trim (by decide)] at hc
      apply ht
      rw [← Text.mem_trim (by decide), eq_symbol_append_of_operator? hop]
      exact List.mem_append_right _ hc
    · revert hc
      decide
    · revert hc
      decide

end Specifier

namespace SpecifierSet

variable {s : String} {xs : SpecifierSet}

/-- Every clause of a set is read from a text without commas. -/
lemma exists_parse_of_mem_clauses (h : SpecifierSet.parse s = .ok xs) {x : Specifier}
    (hx : x ∈ xs.clauses) : ∃ t : String, Specifier.parse t = .ok x ∧ ',' ∉ t.toList := by
  obtain ⟨piece, hp, hparse⟩ := exists_of_mem_mapM (parse_eq_ok.mp h) hx
  refine ⟨_, hparse, ?_⟩
  rw [String.toList_ofList]
  exact comma_not_mem_of_mem_pieces hp

lemma pieces_toText (h : SpecifierSet.parse s = .ok xs) :
    pieces xs.toText = xs.clauses.map Specifier.render := by
  apply pieces_intercalate
  all_goals
    intro piece hp
    obtain ⟨x, hx, rfl⟩ := List.mem_map.mp hp
    obtain ⟨t, hparse, hcomma⟩ := exists_parse_of_mem_clauses h hx
  · exact x.render_ne_nil
  · exact Specifier.trim_render hparse
  · exact Specifier.comma_not_mem_render hparse hcomma

lemma parse_toText (h : SpecifierSet.parse s = .ok xs) : SpecifierSet.parse xs.toText = .ok xs := by
  rw [parse_eq_ok, pieces_toText h, mapM_eq_ok, List.forall₂_map_left_iff, List.forall₂_same]
  intro x hx
  obtain ⟨t, hparse, -⟩ := exists_parse_of_mem_clauses h hx
  exact Specifier.parse_toText hparse

lemma same_self (xs : SpecifierSet) : xs.same xs = true := by
  rw [same, beq_self_eq_true, Bool.true_and, List.all_eq_true]
  rintro ⟨x, y⟩ hxy
  obtain ⟨i, hi, hpair⟩ := List.mem_iff_getElem.mp hxy
  rw [List.getElem_zip] at hpair
  cases hpair
  exact Specifier.same_self _

end SpecifierSet

/-! ### Main statement -/

/-- A clause and a set that have been read are read again from what is printed of them: with the
same operator, operand and shared segments, and with the same clauses in the same order. So what is
printed of them then is the same text. -/
theorem Specifier.parse_toText_of_parse :
    (∀ (s : String) (x : Specifier), Specifier.parse s = .ok x →
      ∃ y, Specifier.parse x.toText = .ok y ∧ y = x ∧ y.same x = true ∧ y.toText = x.toText) ∧
    ∀ (s : String) (xs : SpecifierSet), SpecifierSet.parse s = .ok xs →
      ∃ ys, SpecifierSet.parse xs.toText = .ok ys ∧ ys = xs ∧ ys.same xs = true ∧
        ys.toText = xs.toText := by
  constructor
  · intro s x h
    exact ⟨x, Specifier.parse_toText h, rfl, x.same_self, rfl⟩
  · intro s xs h
    exact ⟨xs, SpecifierSet.parse_toText h, rfl, xs.same_self, rfl⟩

/-- A pinned clause with a trailing zero, and a set with blank clauses, a wildcard and a text that
itself looks like an operator before a wildcard. -/
theorem Specifier.parse_toText_of_parse_zeros :
    (∃ x, Specifier.parse " ~= V1!03.8.0 " = .ok x ∧ x.shared = 2 ∧ x.toText = "~=1!3.8.0" ∧
      Specifier.parse "~=1!3.8.0" = .ok x) ∧
    ∃ xs, SpecifierSet.parse "==v1!3.0.*,, ===\t=1.* ,<4RC1" = .ok xs ∧
      xs.toText = "==1!3.0.*,====1.*,<4rc1" ∧
      SpecifierSet.parse "==1!3.0.*,====1.*,<4rc1" = .ok xs := by
  obtain ⟨clauses, sets⟩ := Specifier.parse_toText_of_parse
  have pinned : Specifier.parse " ~= V1!03.8.0 " =
      .ok ⟨.compatible, .version { epoch := 1, release := [3, 8, 0] }, 2⟩ := by decide +kernel
  have mixed : SpecifierSet.parse "==v1!3.0.*,, ===\t=1.* ,<4RC1" = .ok ⟨[
      ⟨.equal, .wildcard 1 [3, 0], 0⟩, ⟨.arbitrary, .text "=1.*", 0⟩,
      ⟨.less, .version { release := [4], pre := some (.candidate, 1) }, 0⟩]⟩ := by decide +kernel
  refine ⟨⟨_, pinned, rfl, by decide +kernel, ?_⟩, _, mixed, by decide +kernel, ?_⟩
  · obtain ⟨y, hy, rfl, -⟩ := clauses _ _ pinned
    exact hy
  · obtain ⟨ys, hys, rfl, -⟩ := sets _ _ mixed
    exact hys

end ProjectScope

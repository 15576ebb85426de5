import ProjectScope.Config.Options
import ProjectScope.Proofs.Toml.Table

/-!
# Options of one name

Keys that differ in hyphens and underscores only give one option. The option is what the last of
these keys in the order of the table says, and as the hyphen sorts below the underscore, no other
key comes after the one that is spelled as the option itself.
-/

namespace ProjectScope

open Toml

variable {key name : String}

/-! ### Names -/

/-- The character that a name has for a character of its key. -/
def underscored (c : Char) : Char := if c = '-' then '_' else c

@[simp] lemma toList_optionName (key : String) :
    (optionName key).toList = key.toList.map underscored :=
  String.toList_ofList

lemma underscored_ne (c : Char) : underscored c ≠ '-' := by
  rw [underscored]
  split_ifs with h
  · decide
  · exact h

lemma hyphen_notMem_optionName (key : String) : '-' ∉ (optionName key).toList := by
  rw [toList_optionName, List.mem_map]
  rintro ⟨c, -, hc⟩
  exact underscored_ne c hc

/-- A key without hyphens is the name of its option. -/
lemma optionName_eq_self (h : '-' ∉ key.toList) : optionName key = key := by
  rw [← String.toList_inj, toList_optionName, List.map_congr_left (g := id), List.map_id]
  intro c hc
  refine if_neg ?_
  rintro rfl
  exact h hc

lemma map_underscored_lt {cs : List Char} (h : '-' ∈ cs) : cs < cs.map underscored := by
  induction cs with
  | nil => cases h
  | cons c cs ih =>
    rw [List.map_cons]
    by_cases hc : c = '-'
    · subst hc
      exact List.Lex.rel (by decide)
    · have hrest : '-' ∈ cs := (List.mem_cons.mp h).resolve_left (Ne.symm hc)
      rw [underscored, if_neg hc]
      exact List.Lex.cons (ih hrest)

/-- A key with hyphens comes before the name of its option. -/
lemma lt_optionName (h : '-' ∈ key.toList) : key < optionName key := by
  rw [String.lt_iff_toList_lt, toList_optionName]
  exact map_underscored_lt h

/-! ### The key that decides an option -/

namespace Options

variable {t entries : Table} {k : String} {v : Value}

/-- Of the keys of a table that give an option, the last in the order of the bytes. -/
structure IsLastSpelling (t : Table) (name key : String) : Prop where
  mem : key ∈ t.keys
  gives : optionName key = name
  last : ∀ k ∈ t.keys, optionName k = name → k ≠ key → Text.bytes k < Text.bytes key

/-- No other key that gives an option comes after the one without hyphens. -/
lemma isLastSpelling_self (hmem : name ∈ t.keys) (h : '-' ∉ name.toList) :
    IsLastSpelling t name name where
  mem := hmem
  gives := optionName_eq_self h
  last k _ hk hne := by
    subst hk
    rw [Text.bytes_lt_bytes_iff]
    refine lt_optionName ?_
    contrapose! hne
    exact (optionName_eq_self hne).symm

section Concat

variable (hkey : ∀ k ∈ t.keys, k < key)
include hkey

lemma isLastSpelling_concat_iff (hname : optionName key = name) :
    IsLastSpelling (t ++ [(key, v)]) name k ↔ k = key := by
  have hmem {k : String} : k ∈ Table.keys (t ++ [(key, v)]) ↔ k = key ∨ k ∈ t.keys := by
    rw [← Table.insert_of_forall_lt hkey, Table.mem_keys_insert]
  constructor
  · intro h
    by_contra hne
    have hbelow : k < key := hkey k ((hmem.mp h.mem).resolve_left hne)
    have habove := h.last key (hmem.mpr (.inl rfl)) hname (Ne.symm hne)
    exact hbelow.asymm (Text.bytes_lt_bytes_iff.mp habove)
  · rintro rfl
    refine ⟨hmem.mpr (.inl rfl), hname, fun k' hk' _ hne => ?_⟩
    exact Text.bytes_lt_bytes_iff.mpr (hkey k' ((hmem.mp hk').resolve_left hne))

lemma isLastSpelling_concat_iff_of_ne (hname : optionName key ≠ name) :
    IsLastSpelling (t ++ [(key, v)]) name k ↔ IsLastSpelling t name k := by
  have hmem {k : String} (hk : optionName k = name) :
      k ∈ Table.keys (t ++ [(key, v)]) ↔ k ∈ t.keys := by
    rw [← Table.insert_of_forall_lt hkey, Table.mem_keys_insert, or_iff_right]
    rintro rfl
    exact hname hk
  constructor
  · intro h
    exact ⟨(hmem h.gives).mp h.mem, h.gives, fun k' hk' hgives =>
      h.last k' ((hmem hgives).mpr hk') hgives⟩
  · intro h
    exact ⟨(hmem h.gives).mpr h.mem, h.gives, fun k' hk' hgives =>
      h.last k' ((hmem hgives).mp hk') hgives⟩

end Concat

/-! ### Options of a table -/

/-- There is an option of a name when some key gives it, however the key is spelled. -/
lemma isSome_get?_ofTable :
    ((ofTable entries).get? name).isSome = true ↔
      ∃ entry ∈ entries, optionName entry.1 = name := by
  have hkeys : ((ofTable entries).get? name).isSome = true ↔ name ∈ (ofTable entries).table.keys :=
    Table.contains_iff
  rw [hkeys, ofTable, Table.mem_keys_ofList, Table.keys, List.map_map, List.mem_map]
  rfl

lemma isOrdered_ofTable (entries : Table) : (ofTable entries).table.IsOrdered :=
  Table.isOrdered_ofList _

/-- What one more key does to the options: it decides the option that it gives. -/
lemma get?_ofTable_concat (t : Table) (key : String) (v : Value) (name : String) :
    (ofTable (t ++ [(key, v)])).get? name =
      if name = optionName key then some v else (ofTable t).get? name := by
  rw [get?, get?, ofTable, List.map_append, List.map_singleton, Table.ofList_concat,
    Table.get?_insert]
  rfl

/-- An option has the value of the last key that gives it. -/
lemma get?_ofTable_eq_some_iff (h : t.IsOrdered) :
    (ofTable t).get? name = some v ↔ ∃ key, t.get? key = some v ∧ IsLastSpelling t name key := by
  -- the keys so far are below the next one, which therefore decides the option that it gives
  induction t using List.reverseRecOn with
  | nil => simp [ofTable, get?, Table.ofList]
  | append_singleton t entry ih =>
    obtain ⟨key, w⟩ := entry
    obtain ⟨ht, hkey⟩ := Table.isOrdered_concat.mp h
    have hget (k : String) :
        Table.get? (t ++ [(key, w)]) k = if k = key then some w else Table.get? t k := by
      rw [← Table.insert_of_forall_lt hkey, Table.get?_insert]
    rw [get?_ofTable_concat]
    by_cases hname : optionName key = name
    · simp only [if_pos hname.symm, isLastSpelling_concat_iff hkey hname, exists_eq_right, hget,
        if_pos]
    · rw [if_neg (Ne.symm hname), ih ht]
      refine exists_congr fun k => ?_
      rw [isLastSpelling_concat_iff_of_ne hkey hname, hget]
      refine and_congr_left fun hk => ?_
      have hne : k ≠ key := by
        rintro rfl
        exact hname hk.gives
      rw [if_neg hne]

lemma hyphen_notMem_of_mem_keys_ofTable (h : name ∈ (ofTable t).table.keys) :
    '-' ∉ name.toList := by
  rw [ofTable, Table.mem_keys_ofList, Table.keys, List.map_map, List.mem_map] at h
  obtain ⟨entry, -, rfl⟩ := h
  exact hyphen_notMem_optionName entry.1

/-- Options that are brought to their names once more stay as they are. -/
lemma ofTable_of_isOrdered (h : t.IsOrdered) (hnames : ∀ name ∈ t.keys, '-' ∉ name.toList) :
    ofTable t = ⟨t⟩ := by
  have hentries : (t.map fun entry => (optionName entry.1, entry.2)) = t := by
    rw [List.map_congr_left (g := id), List.map_id]
    intro entry hentry
    exact Prod.ext (optionName_eq_self (hnames _ (List.mem_map_of_mem hentry))) rfl
  show (⟨Table.ofList (t.map fun entry => (optionName entry.1, entry.2))⟩ : Options) = ⟨t⟩
  rw [hentries, Table.ofList_of_isOrdered h]

/-- The options of a table are its entries by the names of their keys. Of the keys that give one
option the last in the order of the bytes decides, which is the key without hyphens if there is
one; the names have no hyphens, and to bring them to underscores again changes nothing. -/
theorem ofTable_renames (t : Table)
    (ht : t.keys.Pairwise fun k l => Text.bytes k < Text.bytes l) :
    (∀ name, (ofTable t).table.contains name = true ↔ ∃ key ∈ t.keys, optionName key = name) ∧
    (∀ name v, (ofTable t).get? name = some v ↔
      ∃ key, t.get? key = some v ∧ IsLastSpelling t name key) ∧
    (∀ name ∈ t.keys, '-' ∉ name.toList → (ofTable t).get? name = t.get? name) ∧
    (∀ name ∈ (ofTable t).table.keys, '-' ∉ name.toList) ∧
    ((ofTable t).table.keys.Pairwise fun k l => Text.bytes k < Text.bytes l) ∧
    ofTable (ofTable t).table = ofTable t := by
  have hordered : t.IsOrdered := Table.isOrdered_iff_bytes.mpr ht
  refine ⟨?contains, ?value, ?plain, ?names, ?order, ?again⟩
  case contains =>
    intro name
    have hkeys : (∃ key ∈ t.keys, optionName key = name) ↔
        ∃ entry ∈ t, optionName entry.1 = name := by
      simp [Table.keys]
    exact isSome_get?_ofTable.trans hkeys.symm
  case value => exact fun name v => get?_ofTable_eq_some_iff hordered
  case plain =>
    intro name hmem h
    obtain ⟨v, hv⟩ := Option.isSome_iff_exists.mp (Table.contains_iff.mpr hmem)
    rw [hv, get?_ofTable_eq_some_iff hordered]
    exact ⟨name, hv, isLastSpelling_self hmem h⟩
  case names => exact fun name => hyphen_notMem_of_mem_keys_ofTable
  case order => exact Table.isOrdered_iff_bytes.mp (isOrdered_ofTable t)
  case again =>
    exact ofTable_of_isOrdered (isOrdered_ofTable t) fun _ => hyphen_notMem_of_mem_keys_ofTable

theorem ofTable_renames_mixed :
    let t : Table := [("a-b-c", .integer 1), ("a-b_c", .integer 2),
      ("a_b-c", .table [("inner-key", .boolean true)]), ("a_c", .integer 4)]
    (t.keys.Pairwise fun k l => Text.bytes k < Text.bytes l) ∧
      (ofTable t).table.keys = ["a_b_c", "a_c"] ∧
      (ofTable t).get? "a_b_c" = some (.table [("inner-key", .boolean true)]) ∧
      ofTable (ofTable t).table = ofTable t := by
  intro t
  have ht : t.keys.Pairwise fun k l => Text.bytes k < Text.bytes l := by decide +kernel
  obtain ⟨-, hvalue, -, -, -, hagain⟩ := ofTable_renames t ht
  refine ⟨ht, by decide +kernel, ?_, hagain⟩
  exact (hvalue _ _).mpr ⟨"a_b-c", rfl, by decide, by decide +kernel, by decide +kernel⟩

end Options

end ProjectScope

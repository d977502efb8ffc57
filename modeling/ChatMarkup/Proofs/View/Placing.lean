import ChatMarkup.Proofs.Block.Table
import ChatMarkup.Proofs.View.Rendering

/-!
# Blocks under their keys

A pass over a table counts the blocks that it meets and stamps the rows that it sees. What comes of
it can be said without counters and stamps: a block is known by its language and code and by how
many blocks with the same two stand before it, it is shown with the row of that key, and the rows
left are those of the blocks that are shown.

* `Passing`: the invariant of a pass, as far as it has come;
* `rendered_of_sketch`: what a tree that can be shown is shown as, and what rows are left;
* `rendered_display`, `rendered_editor`: the same of a document, on a page and in an editor;
* `nodup_keys`: no two blocks of a view have the same key.
-/

namespace ChatMarkup

/-- The rows of a message, by their keys. -/
abbrev Rows := BlockKey → Option BlockFlags

namespace Rows

/-- The flags of a block: those of its row, or of a new one. Prose starts open. -/
def flags (rows : Rows) (key : BlockKey) : BlockFlags :=
  (rows key).getD ⟨key.lang ≠ "text", false, false⟩

/-- One row for each of the blocks, as it is shown. -/
def ofBlocks (blocks : List CodeBlock) : Rows := fun key =>
  (blocks.find? fun block => block.key = key).bind CodeBlock.controls

end Rows

/-- How many of the blocks have this language and code. -/
def occurrences (sources : List CodeSource) (lang code : String) : Nat :=
  sources.countP fun source => source.lang = lang ∧ source.code = code

namespace View

/-- The key of a block behind others. -/
def keyAfter (earlier : List CodeSource) (source : CodeSource) : BlockKey :=
  ⟨source.lang, source.code, occurrences earlier source.lang source.code⟩

/-- A block behind others, under its key. -/
def placeAfter (controls : BlockKey → Option BlockFlags) (earlier : List CodeSource)
    (source : CodeSource) : CodeBlock × List CodeSource :=
  (⟨source, keyAfter earlier source, controls (keyAfter earlier source)⟩, earlier ++ [source])

/-- The view with its blocks under their keys. -/
def withKeys (controls : BlockKey → Option BlockFlags) (view : View CodeSource) :
    View CodeBlock :=
  (view.fill (placeAfter controls) []).1

end View

theorem occurrences_append (earlier : List CodeSource) (source : CodeSource) (lang code : String) :
    occurrences (earlier ++ [source]) lang code =
      occurrences earlier lang code + if source.lang = lang ∧ source.code = code then 1 else 0 := by
  simp [occurrences, List.countP_append, List.countP_cons]

/-- Whether a key is that of one of the blocks. -/
def HasKey (sources : List CodeSource) (key : BlockKey) : Prop :=
  key.occurrence < occurrences sources key.lang key.code

instance (sources : List CodeSource) (key : BlockKey) : Decidable (HasKey sources key) :=
  inferInstanceAs (Decidable (_ < _))

theorem hasKey_append (earlier : List CodeSource) (source : CodeSource) (key : BlockKey) :
    HasKey (earlier ++ [source]) key ↔ HasKey earlier key ∨ key = View.keyAfter earlier source := by
  obtain ⟨lang, code, occurrence⟩ := key
  rw [HasKey, HasKey, occurrences_append, View.keyAfter, BlockKey.mk.injEq]
  by_cases h : source.lang = lang ∧ source.code = code
  · obtain ⟨rfl, rfl⟩ := h
    simp only [and_self, if_true, true_and]
    omega
  · have hne : ¬ (lang = source.lang ∧ code = source.code) := fun heq =>
      h ⟨heq.1.symm, heq.2.symm⟩
    rw [if_neg h, Nat.add_zero, ← and_assoc]
    exact ⟨.inl, fun hor => hor.resolve_right fun heq => hne heq.1⟩

theorem not_hasKey_keyAfter (earlier : List CodeSource) (source : CodeSource) :
    ¬ HasKey earlier (View.keyAfter earlier source) :=
  Nat.lt_irrefl _

/-! ## The keys of a view -/

theorem occurrence_le_of_mem {controls : BlockKey → Option BlockFlags}
    {earlier sources : List CodeSource} {block : CodeBlock}
    (h : block ∈ (View.fillEach (View.placeAfter controls) earlier sources).1) :
    ¬ HasKey earlier block.key := by
  induction sources generalizing earlier with
  | nil => cases h
  | cons source sources ih =>
    rcases List.mem_cons.mp h with rfl | hrest
    · exact not_hasKey_keyAfter earlier source
    · intro hkey
      exact ih hrest ((hasKey_append earlier source block.key).mpr (.inl hkey))

theorem nodup_keys_fillEach (controls : BlockKey → Option BlockFlags)
    (earlier sources : List CodeSource) :
    ((View.fillEach (View.placeAfter controls) earlier sources).1.map CodeBlock.key).Nodup := by
  induction sources generalizing earlier with
  | nil => exact List.nodup_nil
  | cons source sources ih =>
    refine List.nodup_cons.mpr ⟨fun hmem => ?_, ih _⟩
    obtain ⟨block, hblock, hkey⟩ := List.mem_map.mp hmem
    apply occurrence_le_of_mem hblock
    rw [hkey]
    exact (hasKey_append earlier source _).mpr (.inr rfl)

/-- No two blocks of a view have the same key. -/
theorem nodup_keys (controls : BlockKey → Option BlockFlags) (view : View CodeSource) :
    ((view.withKeys controls).blocks.map CodeBlock.key).Nodup := by
  rw [View.withKeys, View.blocks_fill]
  exact nodup_keys_fillEach controls [] view.blocks

theorem HasKey.append {earlier : List CodeSource} {key : BlockKey} (h : HasKey earlier key)
    (sources : List CodeSource) : HasKey (earlier ++ sources) key := by
  rw [HasKey, occurrences, List.countP_append]
  exact Nat.lt_add_right _ h

theorem not_hasKey_nil (key : BlockKey) : ¬ HasKey [] key :=
  Nat.not_lt_zero _

theorem ofBlocks_fillEach (controls : BlockKey → Option BlockFlags)
    (earlier sources : List CodeSource) (key : BlockKey) :
    Rows.ofBlocks (View.fillEach (View.placeAfter controls) earlier sources).1 key =
      if HasKey (earlier ++ sources) key ∧ ¬ HasKey earlier key then controls key else none := by
  induction sources generalizing earlier with
  | nil =>
    rw [List.append_nil, if_neg fun h => h.2 h.1]
    rfl
  | cons source sources ih =>
    have hsplit : earlier ++ source :: sources = earlier ++ [source] ++ sources := by simp
    rw [hsplit]
    by_cases hkey : View.keyAfter earlier source = key
    · subst hkey
      have hhas := ((hasKey_append earlier source _).mpr (.inr rfl)).append sources
      rw [if_pos ⟨hhas, not_hasKey_keyAfter earlier source⟩]
      simp [Rows.ofBlocks, View.fillEach, View.placeAfter]
    · have hcons : Rows.ofBlocks
          (View.fillEach (View.placeAfter controls) earlier (source :: sources)).1 key =
          Rows.ofBlocks
            (View.fillEach (View.placeAfter controls) (earlier ++ [source]) sources).1 key := by
        simp [Rows.ofBlocks, View.fillEach, View.placeAfter, hkey]
      have hiff : HasKey (earlier ++ [source]) key ↔ HasKey earlier key := by
        rw [hasKey_append]
        exact or_iff_left (Ne.symm hkey)
      simp only [hcons, ih, hiff]

/-- One row for each block of a view: the rows are those of the keys that its blocks have. -/
theorem ofBlocks_withKeys (controls : BlockKey → Option BlockFlags) (view : View CodeSource)
    (key : BlockKey) :
    Rows.ofBlocks (view.withKeys controls).blocks key =
      if HasKey view.blocks key then controls key else none := by
  rw [View.withKeys, View.blocks_fill, ofBlocks_fillEach, List.nil_append]
  simp only [not_hasKey_nil, not_false_eq_true, and_true]

/-! ## A pass over a table -/

/-- How far a pass over a table has come: the blocks met so far are counted, and have the rows of
this pass; the others have the rows that they had before. -/
structure Passing (base table : BlockTable) (earlier : List CodeSource) : Prop where
  sound : table.IsSound
  pass : table.pass = base.pass + 1
  met : ∀ lang code, table.met.count (lang, code) = occurrences earlier lang code
  row : ∀ key, table.row? key =
    if HasKey earlier key then some ⟨key, Rows.flags base.get? key, base.pass + 1⟩
    else base.row? key

theorem passing_beginPass {base : BlockTable} (h : base.IsSound) :
    Passing base base.beginPass [] where
  sound := h.beginPass
  pass := rfl
  met := fun _ _ => rfl
  row := fun key => by rw [if_neg (not_hasKey_nil key), BlockTable.row?_beginPass]

/-- One more block is met. -/
theorem count_nextKey {table : BlockTable} {earlier : List CodeSource}
    (hmet : ∀ lang code, table.met.count (lang, code) = occurrences earlier lang code)
    (source : CodeSource) :
    (table.nextKey source.lang source.code).1 = View.keyAfter earlier source ∧
      ∀ lang code, (table.nextKey source.lang source.code).2.met.count (lang, code) =
        occurrences (earlier ++ [source]) lang code := by
  refine ⟨?_, fun lang code => ?_⟩
  · rw [BlockTable.nextKey, View.keyAfter, hmet]
  · show List.count (lang, code) ((source.lang, source.code) :: table.met) = _
    rw [List.count_cons, hmet, occurrences_append]
    simp [Prod.ext_iff]

theorem Passing.place {base table : BlockTable} {earlier : List CodeSource}
    (h : Passing base table earlier) (save : Bool) (source : CodeSource) :
    (Rendering.place (.display save) table source).1 =
        (View.placeAfter (fun key => some (Rows.flags base.get? key)) earlier source).1 ∧
      Passing base (Rendering.place (.display save) table source).2
        (View.placeAfter (fun key => some (Rows.flags base.get? key)) earlier source).2 := by
  obtain ⟨hkey, hmet⟩ := count_nextKey h.met source
  have hnew := not_hasKey_keyAfter earlier source
  have hget : (table.nextKey source.lang source.code).2.get? (View.keyAfter earlier source) =
      base.get? (View.keyAfter earlier source) := by
    show (table.row? _).map _ = (base.row? _).map _
    rw [h.row, if_neg hnew]
  have hplace : Rendering.place (.display save) table source =
      (⟨source, (table.nextKey source.lang source.code).1,
        some ((table.nextKey source.lang source.code).2.observe
          (table.nextKey source.lang source.code).1 (source.lang ≠ proseLang)).1⟩,
        ((table.nextKey source.lang source.code).2.observe
          (table.nextKey source.lang source.code).1 (source.lang ≠ proseLang)).2) := rfl
  rw [hplace, hkey]
  refine ⟨?_, ?_⟩
  · rw [View.placeAfter, BlockTable.flags_observe, hget]
    rfl
  · refine ⟨(h.sound.nextKey _ _).observe _ _, ?_, fun lang code => ?_, fun key => ?_⟩
    · rw [BlockTable.pass_observe]
      exact h.pass
    · rw [BlockTable.met_observe]
      exact hmet lang code
    · rw [BlockTable.row?_observe, hget]
      show (if key = View.keyAfter earlier source then _ else table.row? key) = _
      simp only [View.placeAfter, hasKey_append]
      by_cases hsame : key = View.keyAfter earlier source
      · subst hsame
        rw [if_pos rfl, if_pos (.inr rfl), ← h.pass]
        rfl
      · rw [if_neg hsame, h.row]
        simp only [hsame, or_false]

/-- What a pass leaves: the rows of the blocks that it has met. -/
theorem Passing.finish {base table : BlockTable} {sources : List CodeSource}
    (h : Passing base table sources) (hbase : base.IsSound) (key : BlockKey) :
    table.finishPass.get? key =
      if HasKey sources key then some (Rows.flags base.get? key) else none := by
  rw [BlockTable.get?, h.sound.row?_finishPass, h.row, h.pass]
  split
  · simp [Option.filter]
  · -- a row that was not seen has the number of an older pass
    cases hrow : base.row? key with
    | none => rfl
    | some row =>
      have := hbase.past row (List.mem_of_find?_eq_some hrow)
      have hold : row.seenIn ≠ base.pass + 1 := by omega
      simp [Option.filter, hold]

namespace View

theorem state_placeAfter (controls : BlockKey → Option BlockFlags) (earlier : List CodeSource)
    (sources : List CodeSource) :
    (fillEach (placeAfter controls) earlier sources).2 = earlier ++ sources := by
  induction sources generalizing earlier with
  | nil => exact (List.append_nil earlier).symm
  | cons source sources ih =>
    show (fillEach (placeAfter controls) (earlier ++ [source]) sources).2 = _
    rw [ih, List.append_assoc, List.singleton_append]

end View

namespace Rendering

open Source

/-- A tree that can be shown is shown with its blocks under their keys, each as its row says, and
then the table has one row for each of them. -/
theorem rendered_of_sketch {tree : Node} {outline : View CodeSource}
    (h : (View.sketch tree).result = .ok outline) (save : Bool) {table : BlockTable}
    (htable : table.IsSound) :
    (render (.display save) table tree).view =
        .ok (outline.withKeys fun key => some (Rows.flags table.get? key)) ∧
      (render (.display save) table tree).table.IsSound ∧
      (render (.display save) table tree).table.get? =
        Rows.ofBlocks (outline.withKeys fun key => some (Rows.flags table.get? key)).blocks := by
  obtain ⟨hview, hleft⟩ := render_of_sketch h (.display save) table
  have hrelated : View.Related (place (.display save))
      (View.placeAfter fun key => some (Rows.flags table.get? key)) (Passing table) :=
    fun _ _ source ht => ht.place save source
  obtain ⟨hsame, hpassed⟩ :=
    View.fill_related hrelated outline table.beginPass [] (passing_beginPass htable)
  rw [View.state_fill _ [], View.state_placeAfter, List.nil_append] at hpassed
  refine ⟨?_, ?_, ?_⟩
  · rw [hview, hsame]
    rfl
  · rw [hleft]
    exact hpassed.sound.finishPass
  · funext key
    rw [hleft, hpassed.finish htable, ofBlocks_withKeys]

/-- A document is shown so, since it can be shown. -/
theorem rendered_display {tree : Node} (h : IsDocument tree) (save : Bool) {table : BlockTable}
    (htable : table.IsSound) :
    ∃ outline, (View.sketch tree).result = .ok outline ∧
      (render (.display save) table tree).view =
        .ok (outline.withKeys fun key => some (Rows.flags table.get? key)) ∧
      (render (.display save) table tree).table.IsSound ∧
      (render (.display save) table tree).table.get? =
        Rows.ofBlocks (outline.withKeys fun key => some (Rows.flags table.get? key)).blocks := by
  obtain ⟨outline, hresult, -⟩ := View.sketch_of_document h
  exact ⟨outline, hresult, rendered_of_sketch hresult save htable⟩

/-- An editor shows the blocks under their keys, without controls. -/
theorem rendered_editor {tree : Node} (h : IsDocument tree) :
    ∃ outline, (View.sketch tree).result = .ok outline ∧
      (render .editor .empty tree).view = .ok (outline.withKeys fun _ => none) := by
  obtain ⟨outline, hresult, -⟩ := View.sketch_of_document h
  have hrelated : View.Related (place .editor) (View.placeAfter fun _ => none)
      (fun table earlier => ∀ lang code,
        table.met.count (lang, code) = occurrences earlier lang code) := by
    intro table earlier source hmet
    obtain ⟨hkey, hnext⟩ := count_nextKey hmet source
    refine ⟨?_, hnext⟩
    show CodeBlock.mk source (table.nextKey source.lang source.code).1 none = _
    rw [hkey]
    rfl
  refine ⟨outline, hresult, ?_⟩
  rw [(render_of_sketch hresult .editor .empty).1,
    (View.fill_related hrelated outline BlockTable.empty.beginPass [] fun _ _ => rfl).1]
  rfl

end Rendering

end ChatMarkup

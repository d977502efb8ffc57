import ChatMarkup.Proofs.Block.Token
import ChatMarkup.Proofs.View.Placing

/-!
# Tokens of the blocks of a view

The blocks of a view have different keys in every rendering, and a page names each by the token of
its key. A token is as good as the hash in it: two blocks of a view have the same one exactly if
the hash confuses them.

* `keys_place`: the keys that a pass gives, whatever the mode and the table;
* `tokens_of_read`: when two blocks of a view have the same token;
* `tokens_not_unique`: a source that has two such blocks.
-/

namespace ChatMarkup

/-- Two keys that the hash confuses: different languages or codes, with the same hash, each as often
as the other. -/
structure BlockKey.Collides (key other : BlockKey) : Prop where
  occurrence : key.occurrence = other.occurrence
  message : key.message ≠ other.message
  hash : BlockKey.hashBytes key.message = BlockKey.hashBytes other.message

theorem BlockKey.token_eq_iff_collides {key other : BlockKey} (hkey : key.IsSeparated)
    (hother : other.IsSeparated) (hne : key ≠ other) :
    key.token = other.token ↔ key.Collides other := by
  rw [token_eq_iff]
  refine ⟨fun h => ⟨h.1, fun hmessage => hne ?_, h.2⟩, fun h => ⟨h.occurrence, h.hash⟩⟩
  obtain ⟨hlang, hcode⟩ := (message_inj hkey hother).mp hmessage
  exact (mk.injEq ..).mpr ⟨hlang, hcode, h.1⟩

namespace Rendering

open Source

/-! ## The keys of a pass -/

/-- A block is shown under its key in every mode, whatever the rows of the table. -/
theorem key_place (mode : Mode) {table : BlockTable} {earlier : List CodeSource}
    (hmet : ∀ lang code, table.met.count (lang, code) = occurrences earlier lang code)
    (source : CodeSource) :
    (place mode table source).1.key = View.keyAfter earlier source ∧
      ∀ lang code, (place mode table source).2.met.count (lang, code) =
        occurrences (earlier ++ [source]) lang code := by
  obtain ⟨hkey, hnext⟩ := count_nextKey hmet source
  cases mode with
  | editor => exact ⟨hkey, hnext⟩
  | display save =>
    refine ⟨hkey, fun lang code => ?_⟩
    show ((table.nextKey source.lang source.code).2.observe _ _).2.met.count _ = _
    rw [BlockTable.met_observe]
    exact hnext lang code

theorem keys_place (mode : Mode) {table : BlockTable} {earlier : List CodeSource}
    (hmet : ∀ lang code, table.met.count (lang, code) = occurrences earlier lang code)
    (sources : List CodeSource) :
    (View.fillEach (place mode) table sources).1.map CodeBlock.key =
      (View.fillEach (View.placeAfter fun _ => none) earlier sources).1.map CodeBlock.key := by
  induction sources generalizing table earlier with
  | nil => rfl
  | cons source sources ih =>
    obtain ⟨hkey, hnext⟩ := key_place mode hmet source
    show (place mode table source).1.key :: _ = View.keyAfter earlier source :: _
    rw [hkey]
    exact congrArg _ (ih hnext)

/-- No two blocks of a rendering have the same key. -/
theorem nodup_keys_render {tree : Node} (h : IsDocument tree) (mode : Mode) (table : BlockTable) :
    ∃ view, (render mode table tree).view = .ok view ∧
      view.blocks.Pairwise fun block other => block.key ≠ other.key := by
  obtain ⟨outline, hresult, -⟩ := View.sketch_of_document h
  refine ⟨_, (render_of_sketch hresult mode table).1, List.pairwise_map.mp ?_⟩
  have hmet : ∀ lang code, table.beginPass.met.count (lang, code) = occurrences [] lang code :=
    fun _ _ => rfl
  rw [View.blocks_fill, keys_place mode hmet]
  exact nodup_keys_fillEach _ [] outline.blocks

/-! ## Their tokens -/

/-- The tokens of the blocks that a source is shown with. -/
def tokens (source : String) (mode : Mode) (table : BlockTable) : Option (List String) :=
  (Source.read source).toOption.bind fun tree =>
    (render mode table tree).view.toOption.map fun view =>
      view.blocks.map fun block => block.key.token

theorem exists_of_tokens {source : String} {mode : Mode} {table : BlockTable}
    {found : List String} (h : tokens source mode table = some found) :
    ∃ tree view, Source.read source = .ok tree ∧ (render mode table tree).view = .ok view ∧
      view.blocks.map (fun block => block.key.token) = found := by
  obtain ⟨tree, hread, h⟩ := Option.bind_eq_some_iff.mp h
  obtain ⟨view, hview, htokens⟩ := Option.map_eq_some_iff.mp h
  exact ⟨tree, view, eq_ok_of_toOption hread, eq_ok_of_toOption hview, htokens⟩

/-- Two different blocks of a view, in whose languages there is no zero character, have the same
token exactly if they have the same number and the hash of their languages and codes collides. It
never does where these differ in one byte only. -/
theorem tokens_of_read {source : String} {tree : Node} (h : Source.read source = .ok tree)
    (mode : Mode) (table : BlockTable) :
    ∃ view, (render mode table tree).view = .ok view ∧
      view.blocks.Pairwise fun block other => block.key ≠ other.key ∧
        (block.key.IsSeparated → other.key.IsSeparated →
          (block.key.token = other.key.token ↔ block.key.Collides other.key)) ∧
        (BlockKey.OneByteApart block.key.message other.key.message →
          block.key.token ≠ other.key.token) := by
  obtain ⟨view, hview, hkeys⟩ := nodup_keys_render (isDocument_of_read h) mode table
  refine ⟨view, hview, hkeys.imp fun {block other} hne => ⟨hne, fun hblock hother => ?_, ?_⟩⟩
  · exact BlockKey.token_eq_iff_collides hblock hother hne
  · intro hapart htoken
    exact BlockKey.hashBytes_ne_of_oneByteApart hapart ((BlockKey.token_eq_iff _ _).mp htoken).2

/-- The same program twice, and another in between that differs from it in one character. -/
def repeatedSource : String :=
  "code[lang=lugha] \x7b `print(1)` \x7d code[lang=lugha] \x7b `print(2)` \x7d " ++
    "code[lang=lugha] \x7b `print(1)` \x7d"

theorem tokens_of_read_repeated :
    ∃ tree view, Source.read repeatedSource = .ok tree ∧
      (render (.display false) .empty tree).view = .ok view ∧
      view.blocks.map (fun block => block.key.token) =
        ["f981c0df9e996d33-0", "f98c40df9ea29b38-0", "f981c0df9e996d33-1"] ∧
      view.blocks.Pairwise fun block other => block.key ≠ other.key ∧
        (block.key.IsSeparated → other.key.IsSeparated →
          (block.key.token = other.key.token ↔ block.key.Collides other.key)) ∧
        (BlockKey.OneByteApart block.key.message other.key.message →
          block.key.token ≠ other.key.token) := by
  have htokens : tokens repeatedSource (.display false) .empty =
      some ["f981c0df9e996d33-0", "f98c40df9ea29b38-0", "f981c0df9e996d33-1"] := by
    rw [tokens, Source.read_of_toList (by
      delta repeatedSource
      rw [String.toList_append, String.toList_ofList, String.toList_ofList])]
    decide +kernel
  obtain ⟨tree, view, hread, hview, hblocks⟩ := exists_of_tokens htokens
  obtain ⟨shown, hshown, hpairs⟩ := tokens_of_read hread (.display false) .empty
  rw [hview] at hshown
  cases hshown
  exact ⟨tree, view, hread, hview, hblocks, hpairs⟩

/-- Two programs that the hash confuses. -/
def confusedSource : String :=
  "code[lang=lugha] \x7b `print(7372105074784631622)` \x7d " ++
    "code[lang=lugha] \x7b `print(2146787862705495004)` \x7d"

/-- Tokens do not tell all blocks apart. -/
theorem tokens_not_unique :
    ¬ ∀ (source : String) (tree : Node), Source.read source = .ok tree →
      ∀ (mode : Mode) (table : BlockTable) (view : View CodeBlock),
        (render mode table tree).view = .ok view →
        view.blocks.Pairwise fun block other => block.key.token ≠ other.key.token := by
  have htokens : tokens confusedSource (.display false) .empty =
      some ["76d743d5adf32189-0", "76d743d5adf32189-0"] := by
    rw [tokens, Source.read_of_toList (by
      delta confusedSource
      rw [String.toList_append, String.toList_ofList, String.toList_ofList])]
    decide +kernel
  obtain ⟨tree, view, hread, hview, hblocks⟩ := exists_of_tokens htokens
  intro hunique
  have hpairs := List.pairwise_map.mpr (hunique _ tree hread _ _ view hview)
  rw [hblocks] at hpairs
  exact absurd hpairs (by decide)

end Rendering

end ChatMarkup

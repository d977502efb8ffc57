import ChatMarkup.Proofs.Html.Return
import ChatMarkup.Proofs.Text.Blank
import Mathlib.Data.List.Forall2

/-!
# What is saved of neighbours

Texts that stand next to each other come back from a page as one text, with its blanks folded, and
a text of no more than a space does not come back at all. An element comes back by itself, with a
source of its own.

* `sources_deliveredAll`: the sources that are saved for some nodes, and what these nodes mean;
* `gathered_gathered`: what is saved of neighbours is saved of it again;
* `gathered_spacedApart`: the same if neighbours are set apart by spaces each time.
-/

namespace ChatMarkup.Html

/-- What is saved of a node: a text, or an element with its source. -/
inductive Saved where
  | text (value : String)
  | element (item : Node) (source : String)

namespace Saved

/-- The item that the saved source stands for. -/
def item : Saved → Node
  | text value => .string value
  | element item _ => item

/-- The source that is saved. -/
def source : Saved → String
  | text value => Source.quote value
  | element _ source => source

end Saved

/-- The text that is saved of some characters; none if no more than a space is left of them. -/
def keptTexts (cs : List Char) : List Saved :=
  if foldBlanks cs = [] ∨ foldBlanks cs = [' '] then [] else [.text (String.ofList (foldBlanks cs))]

/-- What is saved of neighbours behind some characters of a text. -/
def gathered (pending : List Char) : List Saved → List Saved
  | [] => keptTexts pending
  | .text value :: rest => gathered (pending ++ value.toList) rest
  | .element item source :: rest => keptTexts pending ++ .element item source :: gathered [] rest

/-! ## Gathering again -/

theorem keptTexts_congr {cs ds : List Char} (h : foldBlanks cs = foldBlanks ds) :
    keptTexts cs = keptTexts ds := by
  rw [keptTexts, keptTexts, h]

theorem keptTexts_cases (cs : List Char) :
    keptTexts cs = [] ∨ keptTexts cs = [.text (String.ofList (foldBlanks cs))] := by
  rw [keptTexts]
  split
  · exact .inl rfl
  · exact .inr rfl

theorem keptTexts_nil : keptTexts [] = [] := rfl

theorem keptTexts_space : keptTexts [' '] = [] := by
  rw [keptTexts, if_pos (.inr (by decide))]

/-- A text that was saved is saved again. -/
theorem gathered_keptTexts_append (cs : List Char) (rest : List Saved) :
    gathered [] (keptTexts cs ++ rest) =
      gathered (if keptTexts cs = [] then [] else foldBlanks cs) rest := by
  rcases keptTexts_cases cs with hnone | hone
  · rw [hnone, if_pos rfl, List.nil_append]
  · rw [hone, if_neg (List.cons_ne_nil _ _), List.singleton_append, gathered, List.nil_append,
      String.toList_ofList]

theorem keptTexts_again (cs : List Char) :
    keptTexts (if keptTexts cs = [] then [] else foldBlanks cs) = keptTexts cs := by
  split
  · rename_i hnone
    rw [hnone, keptTexts_nil]
  · exact keptTexts_congr (foldBlanks_idem cs)

/-- What is saved of neighbours is saved of it again. -/
theorem gathered_gathered (cs : List Char) (xs : List Saved) :
    gathered [] (gathered cs xs) = gathered cs xs := by
  induction xs generalizing cs with
  | nil =>
    have hagain := gathered_keptTexts_append cs []
    rwa [List.append_nil, gathered, keptTexts_again] at hagain
  | cons x xs ih =>
    cases x with
    | text value => exact ih (cs ++ value.toList)
    | element item source =>
      rw [gathered, gathered_keptTexts_append, gathered, keptTexts_again, ih []]

/-! ## Neighbours set apart -/

/-- Neighbours with a space between them. -/
def spacedApart (xs : List Saved) : List Saved :=
  xs.intersperse (.text " ")

/-- Neighbours with a space in front of each. -/
def behindSpaces (xs : List Saved) : List Saved :=
  xs.flatMap fun x => [.text " ", x]

theorem spacedApart_cons (x : Saved) (xs : List Saved) :
    spacedApart (x :: xs) = x :: behindSpaces xs := by
  induction xs generalizing x with
  | nil => rfl
  | cons y xs ih =>
    have hrest := ih y
    rw [spacedApart] at hrest
    rw [spacedApart, List.intersperse_cons_cons, hrest]
    rfl

theorem gathered_behindSpaces_text (cs : List Char) (value : String) (xs : List Saved) :
    gathered cs (behindSpaces (.text value :: xs)) =
      gathered (cs ++ ' ' :: value.toList) (behindSpaces xs) := by
  have hcs : cs ++ ' ' :: value.toList = cs ++ (" " : String).toList ++ value.toList := by simp
  rw [hcs]
  rfl

theorem gathered_behindSpaces_element (cs : List Char) (item : Node) (source : String)
    (xs : List Saved) :
    gathered cs (behindSpaces (.element item source :: xs)) =
      keptTexts (cs ++ [' ']) ++ .element item source :: gathered [] (behindSpaces xs) := rfl

/-- One more space at the end of a text that ends with one makes no difference. -/
theorem keptTexts_append_space (cs : List Char) :
    keptTexts (cs ++ [' '] ++ [' ']) = keptTexts (cs ++ [' ']) := by
  rw [List.append_assoc]
  exact keptTexts_congr (foldBlanks_append_right (foldBlanks_space_space []) cs)

/-- A saved text in front of an element keeps the space between them. -/
theorem keptTexts_foldBlanks_space (cs : List Char) :
    keptTexts (foldBlanks (cs ++ [' ']) ++ [' ']) = keptTexts (cs ++ [' ']) := by
  rw [← keptTexts_append_space cs]
  exact keptTexts_congr (foldBlanks_foldBlanks_append _ _)

/-- Whether a text is empty or starts with the space in front of a neighbour. -/
def StartsSpaced (cs : List Char) : Prop :=
  cs = [] ∨ cs.head? = some ' '

theorem startsSpaced_nil : StartsSpaced [] :=
  .inl rfl

theorem StartsSpaced.head?_append {cs : List Char} (h : StartsSpaced cs) (ds : List Char) :
    (cs ++ ' ' :: ds).head? = some ' ' := by
  rcases h with rfl | hhead
  · rfl
  · rw [List.head?_append, hhead]
    rfl

/-- One more space in front of a text that starts with one makes no difference. -/
theorem foldBlanks_space_foldBlanks {cs : List Char} (h : cs.head? = some ' ') :
    foldBlanks (' ' :: foldBlanks cs) = foldBlanks cs := by
  obtain ⟨cs, rfl⟩ := List.head?_eq_some_iff.mp h
  exact (foldBlanks_append_right (foldBlanks_idem _) [' ']).trans (foldBlanks_space_space cs)

/-- A saved text keeps the spaces around it. -/
theorem keptTexts_space_foldBlanks_space {cs : List Char} (h : StartsSpaced cs) :
    keptTexts (' ' :: foldBlanks (cs ++ [' ']) ++ [' ']) = keptTexts (cs ++ [' ']) := by
  rw [← keptTexts_append_space cs]
  exact keptTexts_congr (foldBlanks_append (foldBlanks_space_foldBlanks (h.head?_append [])) rfl)

/-- Behind an element, what is saved of neighbours that are set apart is saved of it again. -/
theorem gathered_behindSpaces {cs : List Char} (h : StartsSpaced cs) (xs : List Saved) :
    gathered [] (behindSpaces (gathered cs (behindSpaces xs))) =
      gathered cs (behindSpaces xs) := by
  induction xs generalizing cs with
  | nil =>
    show gathered [] (behindSpaces (keptTexts cs)) = keptTexts cs
    rcases keptTexts_cases cs with hnone | hone
    · rw [hnone]
      rfl
    · have hhead : cs.head? = some ' ' := h.resolve_left fun hnil => by
        rw [hnil, keptTexts_nil] at hone
        cases hone
      rw [hone, gathered_behindSpaces_text, List.nil_append, String.toList_ofList, ← hone]
      exact keptTexts_congr (foldBlanks_space_foldBlanks hhead)
  | cons x xs ih =>
    cases x with
    | text value =>
      rw [gathered_behindSpaces_text]
      exact ih (.inr (h.head?_append _))
    | element item source =>
      rw [gathered_behindSpaces_element]
      rcases keptTexts_cases (cs ++ [' ']) with hnone | hone
      · rw [hnone, List.nil_append, gathered_behindSpaces_element, List.nil_append, keptTexts_space,
          ih startsSpaced_nil]
        rfl
      · rw [hone, List.singleton_append, gathered_behindSpaces_text, gathered_behindSpaces_element,
          ih startsSpaced_nil, List.nil_append, String.toList_ofList,
          keptTexts_space_foldBlanks_space h, hone, List.singleton_append]

/-- What is saved of neighbours behind a text, set apart, is saved of it again. -/
theorem gathered_spacedApart_behindSpaces (cs : List Char) (xs : List Saved) :
    gathered [] (spacedApart (gathered cs (behindSpaces xs))) = gathered cs (behindSpaces xs) := by
  induction xs generalizing cs with
  | nil =>
    show gathered [] (spacedApart (keptTexts cs)) = keptTexts cs
    rcases keptTexts_cases cs with hnone | hone
    · rw [hnone]
      rfl
    · rw [hone, spacedApart_cons, gathered, List.nil_append, String.toList_ofList, ← hone]
      exact keptTexts_congr (foldBlanks_idem cs)
  | cons x xs ih =>
    cases x with
    | text value =>
      rw [gathered_behindSpaces_text]
      exact ih _
    | element item source =>
      rw [gathered_behindSpaces_element]
      rcases keptTexts_cases (cs ++ [' ']) with hnone | hone
      · rw [hnone, List.nil_append, spacedApart_cons, gathered, keptTexts_nil, List.nil_append,
          gathered_behindSpaces startsSpaced_nil]
      · rw [hone, List.singleton_append, spacedApart_cons, gathered, gathered_behindSpaces_element,
          gathered_behindSpaces startsSpaced_nil, List.nil_append, String.toList_ofList,
          keptTexts_foldBlanks_space, hone, List.singleton_append]

/-- What is saved of neighbours that are set apart is saved of it again, if it is set apart again. -/
theorem gathered_spacedApart (xs : List Saved) :
    gathered [] (spacedApart (gathered [] (spacedApart xs))) = gathered [] (spacedApart xs) := by
  cases xs with
  | nil => rfl
  | cons x xs =>
    rw [spacedApart_cons]
    cases x with
    | text value => exact gathered_spacedApart_behindSpaces _ xs
    | element item source =>
      rw [gathered, keptTexts_nil, List.nil_append, spacedApart_cons, gathered, keptTexts_nil,
        List.nil_append, gathered_behindSpaces startsSpaced_nil]

/-- What holds of texts by their characters holds of what is saved of neighbours if it holds of the
neighbours. -/
theorem forall_gathered {P : Saved → Prop} {p : Char → Prop} (hspace : p ' ')
    (htext : ∀ value, P (.text value) ↔ ∀ c ∈ value.toList, p c) {cs : List Char}
    (hcs : ∀ c ∈ cs, p c) {xs : List Saved} (hxs : ∀ x ∈ xs, P x) : ∀ x ∈ gathered cs xs, P x := by
  have hkept : ∀ {cs : List Char}, (∀ c ∈ cs, p c) → ∀ x ∈ keptTexts cs, P x := by
    intro cs hcs x hx
    rcases keptTexts_cases cs with hnone | hone
    · rw [hnone] at hx
      cases hx
    · rw [hone, List.mem_singleton] at hx
      rw [hx, htext, String.toList_ofList]
      intro c hc
      rcases mem_foldBlanks hc with rfl | hc
      · exact hspace
      · exact hcs c hc
  induction xs generalizing cs with
  | nil => exact hkept hcs
  | cons x xs ih =>
    rw [List.forall_mem_cons] at hxs
    cases x with
    | text value =>
      exact ih (List.forall_mem_append.mpr ⟨hcs, (htext value).mp hxs.1⟩) hxs.2
    | element item source =>
      rw [gathered, List.forall_mem_append, List.forall_mem_cons]
      exact ⟨hkept hcs, hxs.1, ih nofun hxs.2⟩

/-! ## Nodes -/

/-- What is saved of a node, if it is a text or an element that has a source and stands for one
item. -/
inductive IsSavedAs : Html → Saved → Prop
  | text (value : String) : IsSavedAs (.text value) (.text value)
  | element {name : String} {attributes : List (String × String)} {children : List Html}
      {item : Node} {imported : String} :
      source .default (delivered false (.element name attributes children)) = .ok imported →
      imported ≠ "" →
      meaning .default (delivered false (.element name attributes children)) = [item] →
      IsSavedAs (.element name attributes children) (.element item imported)

/-- Line ends are blanks, however they are read. -/
theorem foldBlanks_foldPieces (behind : Bool) (pieces : List Piece) :
    foldBlanks (foldPieces behind pieces) = foldBlanks (pieces.map Piece.char) := by
  induction pieces generalizing behind with
  | nil => rfl
  | cons piece pieces ih =>
    have hcons : ∀ (c : Char) (behind : Bool),
        foldBlanks (c :: foldPieces behind pieces) = foldBlanks (c :: pieces.map Piece.char) :=
      fun c behind => foldBlanks_append_right (ih behind) [c]
    have hblank : ∀ c ∈ ['\r', '\n'], ∀ cs, foldBlanks (c :: cs) = foldBlanks ('\r' :: cs) := by
      intro c hc cs
      have hone : foldBlanks [c] = foldBlanks ['\r'] := by
        revert c
        decide
      exact foldBlanks_append hone rfl
    cases piece with
    | referred c => exact hcons c true
    | written c =>
      rw [foldPieces]
      split
      · rename_i hc
        subst hc
        rw [List.map_cons]
        cases pieces with
        | nil => cases behind <;> rfl
        | cons next pieces =>
          cases next with
          | referred d => exact hcons '\r' false
          | written d =>
            rw [List.head?_cons, carriageReturn]
            split
            · rename_i hd
              subst hd
              rw [List.nil_append, ih]
              exact (if_pos (show isBlank '\n' = true by decide)).symm
            · exact (hblank '\n' (by simp) _).trans (hcons '\r' false)
      · exact hcons c false

theorem keptText_default (value : String) :
    keptText .default value =
      if foldBlanks value.toList = [' '] then "" else String.ofList (foldBlanks value.toList) := by
  have hspace : String.ofList (foldBlanks value.toList) = " " ↔ foldBlanks value.toList = [' '] :=
    ⟨fun h => by simpa using congrArg String.toList h, fun h => by rw [h]⟩
  simp only [keptText, ImportOptions.default, Bool.false_eq_true, if_false, hspace]

/-- A text that is read back and the text that is saved of it. -/
theorem textNodes_cases (pieces : List Piece) :
    (keptTexts (pieces.map Piece.char) = [] ∧
      (textNodes pieces = [] ∨
        ∃ value, textNodes pieces = [.text value] ∧ keptText .default value = "")) ∨
    ∃ value kept, textNodes pieces = [.text value] ∧ keptText .default value = kept ∧ kept ≠ "" ∧
      keptTexts (pieces.map Piece.char) = [.text kept] := by
  have hfold := foldBlanks_foldPieces false pieces
  have hvalue := keptText_default (String.ofList (foldPieces false pieces))
  rw [String.toList_ofList, hfold] at hvalue
  unfold textNodes keptTexts
  by_cases hnone : foldPieces false pieces = []
  · rw [hnone] at hfold
    rw [if_pos hnone, if_pos (.inl hfold.symm)]
    exact .inl ⟨rfl, .inl rfl⟩
  · rw [if_neg hnone]
    by_cases hspace : foldBlanks (pieces.map Piece.char) = [' ']
    · rw [if_pos hspace] at hvalue
      rw [if_pos (.inr hspace)]
      exact .inl ⟨rfl, .inr ⟨_, rfl, hvalue⟩⟩
    · rw [if_neg hspace] at hvalue
      by_cases hempty : foldBlanks (pieces.map Piece.char) = []
      · rw [hempty] at hvalue
        rw [if_pos (.inl hempty)]
        exact .inl ⟨rfl, .inr ⟨_, rfl, hvalue⟩⟩
      · rw [if_neg (by simp [hempty, hspace])]
        refine .inr ⟨_, _, rfl, hvalue, ?_, rfl⟩
        simpa using hempty

/-- The text in front of some nodes comes first. -/
theorem sources_textNodes_append (pieces : List Piece) {nodes : List Html} {parts : List String}
    (h : sources .default false nodes = .ok parts) :
    sources .default false (textNodes pieces ++ nodes) =
        .ok ((keptTexts (pieces.map Piece.char)).map Saved.source ++ parts) ∧
      meanings .default false (textNodes pieces ++ nodes) =
        (keptTexts (pieces.map Piece.char)).map Saved.item ++ meanings .default false nodes := by
  have htext : ∀ value, sources .default false (.text value :: nodes) =
        .ok (if textSource .default value = "" then parts else textSource .default value :: parts) ∧
      meanings .default false (.text value :: nodes) =
        meaning .default (.text value) ++ meanings .default false nodes := by
    intro value
    rw [sources, h, meanings]
    exact ⟨rfl, rfl⟩
  rcases textNodes_cases pieces with ⟨hkept, hnone | ⟨value, hone, hempty⟩⟩ |
    ⟨value, kept, hone, rfl, hne, hkept⟩
  · rw [hnone, hkept]
    exact ⟨h, rfl⟩
  · rw [hone, hkept, List.singleton_append, (htext value).1, (htext value).2, textSource_eq, meaning,
      if_pos hempty, if_pos hempty]
    exact ⟨rfl, rfl⟩
  · have hquote : Source.quote (keptText .default value) ≠ "" := by
      intro hquote
      have hlist := congrArg String.toList hquote
      rw [Source.toList_quote] at hlist
      cases hlist
    rw [hone, hkept, List.singleton_append, (htext value).1, (htext value).2, textSource_eq, meaning,
      if_neg hne, if_neg hne, if_neg hquote]
    exact ⟨rfl, rfl⟩

/-- What is saved for some nodes behind the pieces of a text, and what these nodes mean. -/
theorem sources_deliveredAll {nodes : List Html} {xs : List Saved}
    (h : List.Forall₂ IsSavedAs nodes xs) (pending : List Piece) :
    sources .default false (deliveredAll false pending nodes) =
        .ok ((gathered (pending.map Piece.char) xs).map Saved.source) ∧
      meanings .default false (deliveredAll false pending nodes) =
        (gathered (pending.map Piece.char) xs).map Saved.item := by
  induction h generalizing pending with
  | nil =>
    have hnone : sources .default false [] = .ok [] := rfl
    have hall := sources_textNodes_append pending hnone
    rwa [List.append_nil, List.append_nil, meanings, List.append_nil] at hall
  | @cons _ _ nodes xs hnode _ ih =>
    cases hnode with
    | text value =>
      have hall := ih (pending ++ piecesOf false value)
      rwa [List.map_append, map_char_piecesOf] at hall
    | @element name attributes children item imported hsource hne hmeaning =>
      obtain ⟨hsources, hmeanings⟩ := ih []
      have helement : sources .default false
          (delivered false (.element name attributes children) :: deliveredAll false [] nodes) =
          .ok (imported :: (gathered [] xs).map Saved.source) := by
        rw [sources, hsource, hsources, Bool.false_and, if_neg Bool.false_ne_true]
        show Except.ok (if imported = "" then _ else _) = _
        rw [if_neg hne]
        rfl
      obtain ⟨hall, hitems⟩ := sources_textNodes_append pending helement
      rw [deliveredAll_tag rfl, hall, hitems, meanings, hmeaning, hmeanings, gathered,
        List.map_append, List.map_append]
      exact ⟨rfl, rfl⟩

end ChatMarkup.Html

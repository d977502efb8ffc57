import ChatMarkup.Proofs.Html.Delivery
import ChatMarkup.Proofs.Html.Meaning
import ChatMarkup.Proofs.Tree.Contents

/-!
# What comes back of a written tree

What a tree means once it was written and read back: which codes it holds, which attribute lists it
brings and how many levels of elements it means. Most elements hold no more than what is in them.

* `tags_deliveredAll`: elements come back one by one, whatever becomes of the texts around them;
* `IsOrdinary`: elements that hold what is in them, `codesBack`, `listsBack`, `levelsBack_le`;
* `plainTexts_deliveredAll`: texts without carriage returns come back as they are.
-/

namespace ChatMarkup.Html

/-! ## Texts and elements -/

/-- The nodes that are no texts. -/
def tags (nodes : List Html) : List Html :=
  nodes.filter isTag

theorem tags_append (xs ys : List Html) : tags (xs ++ ys) = tags xs ++ tags ys :=
  List.filter_append xs ys

theorem tags_textNodes (pieces : List Piece) : tags (textNodes pieces) = [] := by
  unfold textNodes
  split <;> rfl

theorem tags_deliveredAll (inCode : Bool) (pending : List Piece) (nodes : List Html) :
    tags (deliveredAll inCode pending nodes) = (tags nodes).map (delivered inCode) := by
  induction nodes generalizing pending with
  | nil => rw [deliveredAll, tags_textNodes]; rfl
  | cons node nodes ih =>
    cases node with
    | text value =>
      rw [deliveredAll, ih]
      rfl
    | element name attributes children =>
      rw [deliveredAll_tag rfl, tags_append, tags_textNodes, List.nil_append]
      exact congrArg (delivered inCode (.element name attributes children) :: ·) (ih [])
    | aside =>
      rw [deliveredAll_tag rfl, tags_append, tags_textNodes, List.nil_append]
      exact congrArg (delivered inCode .aside :: ·) (ih [])

/-- What is read back is a text or comes from an element. -/
theorem mem_deliveredAll {inCode : Bool} {pending : List Piece} {nodes : List Html} {node : Html}
    (h : node ∈ deliveredAll inCode pending nodes) :
    (∃ value, node = .text value) ∨ ∃ original ∈ nodes, node = delivered inCode original := by
  cases hnode : isTag node with
  | false =>
    cases node with
    | text value => exact .inl ⟨value, rfl⟩
    | element | aside => cases hnode
  | true =>
    have hmem : node ∈ tags (deliveredAll inCode pending nodes) :=
      List.mem_filter.mpr ⟨h, hnode⟩
    rw [tags_deliveredAll] at hmem
    obtain ⟨original, horiginal, rfl⟩ := List.mem_map.mp hmem
    exact .inr ⟨original, (List.mem_filter.mp horiginal).1, rfl⟩

/-! ## What elements hold -/

theorem codes_meanings (options : ImportOptions) (nodes : List Html) :
    Node.codesOfAll (meanings options false nodes) =
      (tags nodes).flatMap fun node => Node.codesOfAll (meaning options node) := by
  induction nodes with
  | nil => exact Node.codesOfAll_nil
  | cons node nodes ih =>
    rw [meanings, Bool.false_and, if_neg Bool.false_ne_true, Node.codesOfAll_append, ih]
    cases node with
    | text value =>
      have hnone : Node.codesOfAll (meaning options (.text value)) = [] := by
        rw [meaning]
        split
        · exact Node.codesOfAll_nil
        · rfl
      rw [hnone]
      rfl
    | element | aside => rfl

theorem usedListsOfAll_eq (nodes : List Html) :
    usedListsOfAll nodes = (tags nodes).flatMap usedLists := by
  induction nodes with
  | nil => rfl
  | cons node nodes ih =>
    rw [usedListsOfAll, ih]
    cases node <;> rfl

/-- An element that is neither a break nor a program nor the frame of one, also once it is read
back. -/
structure IsOrdinary (name : String) (attributes : List (String × String)) : Prop where
  noBreak : name.map Char.toLower ≠ "br"
  noProgram : isCodeText attributes = false
  noProgramBack : isCodeText (spacedAttributes attributes) = false
  noFrame : isCodeContainer name (spacedAttributes attributes) = false

-- The names are compared as lists of characters, which can be evaluated.
theorem map_toLower_ne_break {name : String} (h : name.toList.map Char.toLower ≠ ['b', 'r']) :
    name.map Char.toLower ≠ "br" := fun heq => h (by rw [← String.toList_map, heq]; rfl)

theorem map_toLower_self {name : String} (h : name.toList.map Char.toLower = name.toList) :
    name.map Char.toLower = name := by
  rw [← String.toList_inj, String.toList_map, h]

theorem isOrdinary_marked {name tag : String}
    (h : (name.toList.map Char.toLower ≠ ['b', 'r'] && tag ≠ codeMarker &&
      spacedValue tag ≠ codeMarker && spacedValue tag ≠ "code") = true)
    (rest : List (String × String)) : IsOrdinary name ((markerKey, tag) :: rest) := by
  simp only [Bool.and_eq_true, decide_eq_true_eq] at h
  obtain ⟨⟨⟨hbreak, hprogram⟩, hprogramBack⟩, hframe⟩ := h
  refine ⟨map_toLower_ne_break hbreak, ?_, ?_, ?_⟩
  · simp [isCodeText, hprogram]
  · simp [isCodeText, spacedAttributes, hprogramBack]
  · simp [isCodeContainer, marker, attribute?, spacedAttributes, hframe]

theorem isOrdinary_unmarked {name : String} (h : name.toList.map Char.toLower ≠ ['b', 'r'])
    {attributes : List (String × String)} (hattributes : attributes.lookup markerKey = none)
    (hback : (spacedAttributes attributes).lookup markerKey = none) :
    IsOrdinary name attributes := by
  refine ⟨map_toLower_ne_break h, ?_, ?_, ?_⟩
  · simp [isCodeText, hattributes]
  · simp [isCodeText, hback]
  · simp [isCodeContainer, marker, attribute?, hback]

/-- The code elements that a node holds once it is read back. -/
def codesBack (node : Html) : List Node :=
  Node.codesOfAll (meaning .default (delivered false node))

/-- The attribute lists that a node brings once it is read back. -/
def listsBack (node : Html) : List String :=
  usedLists (delivered false node)

theorem ofName_ne_code {options : ImportOptions} {name tag : String}
    {attributes : List (String × String)} (h : isCodeContainer name attributes = false)
    (htag : construct? options name attributes = some tag) : Tag.ofName tag ≠ .code := by
  intro hcode
  have hname := Tag.name_ofName tag
  rw [hcode] at hname
  rw [construct?, ← hname] at htag
  split at htag
  · split at htag
    · exact absurd (Option.some.inj htag) (by decide)
    · cases htag
  · split at htag
    · rename_i hmarked
      have hmarker := Option.some.inj htag
      rw [hmarker] at hmarked
      have hmem := List.contains_iff_mem.mp hmarked
      unfold constructsOf at hmem
      split at hmem
      case h_16 | h_17 =>
        rename_i hlowered
        simp [isCodeContainer, hlowered, hmarker, Tag.name] at h
      all_goals exact absurd hmem (by decide)
    · cases htag

theorem IsOrdinary.codesBack {name : String} {attributes : List (String × String)}
    (h : IsOrdinary name attributes) (children : List Html) :
    codesBack (.element name attributes children) = (tags children).flatMap Html.codesBack := by
  have hchildren : Node.codesOfAll (meanings .default false (deliveredAll false [] children)) =
      (tags children).flatMap Html.codesBack := by
    rw [codes_meanings, tags_deliveredAll, List.flatMap_map]
    rfl
  rw [Html.codesBack, delivered, h.noProgram, Bool.or_false, meaning, h.noProgramBack, h.noFrame,
    if_neg (by simp), if_neg h.noBreak]
  cases htag : construct? .default name (spacedAttributes attributes) with
  | none => exact hchildren
  | some tag => exact (Node.codesOfAll_singleton (ofName_ne_code h.noFrame htag) _ _ _).trans hchildren

theorem IsOrdinary.listsBack {name : String} {attributes : List (String × String)}
    (h : IsOrdinary name attributes) (children : List Html) :
    listsBack (.element name attributes children) = (tags children).flatMap Html.listsBack := by
  rw [Html.listsBack, delivered, h.noProgram, Bool.or_false, usedLists, h.noProgramBack, h.noFrame,
    if_neg (by simp), if_neg (by simp), List.nil_append, usedListsOfAll_eq, tags_deliveredAll,
    List.flatMap_map]
  rfl

/-- The levels of elements that a node means once it is read back. -/
def levelsBack (node : Html) : Nat :=
  Node.nestingAll (meaning .default (delivered false node))

theorem nestingAll_meanings_le_of {options : ImportOptions} {nodes : List Html} {n : Nat}
    (h : ∀ node ∈ nodes, Node.nestingAll (meaning options node) ≤ n) :
    Node.nestingAll (meanings options false nodes) ≤ n := by
  induction nodes with
  | nil => exact Nat.zero_le n
  | cons node nodes ih =>
    rw [List.forall_mem_cons] at h
    rw [meanings, Bool.false_and, if_neg Bool.false_ne_true, Node.nestingAll_append]
    exact Nat.max_le.mpr ⟨h.1, ih h.2⟩

theorem nestingAll_meaning_text (options : ImportOptions) (value : String) :
    Node.nestingAll (meaning options (.text value)) = 0 := by
  rw [meaning]
  split <;> rfl

theorem levelsBack_text (value : String) : levelsBack (.text value) = 0 :=
  nestingAll_meaning_text .default value

/-- Nodes that are read back mean no more levels than each of them. -/
theorem nestingAll_deliveredAll_le {nodes : List Html} {n : Nat}
    (h : ∀ node ∈ nodes, levelsBack node ≤ n) :
    Node.nestingAll (meanings .default false (deliveredAll false [] nodes)) ≤ n := by
  refine nestingAll_meanings_le_of fun node hnode => ?_
  rcases mem_deliveredAll hnode with ⟨value, rfl⟩ | ⟨original, horiginal, rfl⟩
  · rw [nestingAll_meaning_text]
    exact Nat.zero_le n
  · exact h original horiginal

/-- An ordinary element has a level of its own if it stands for a construct. -/
theorem IsOrdinary.levelsBack_le {name : String} {attributes : List (String × String)}
    (h : IsOrdinary name attributes) {children : List Html} {n : Nat}
    (hchildren : ∀ node ∈ children, levelsBack node ≤ n) :
    levelsBack (.element name attributes children) ≤
      n + (construct? .default name (spacedAttributes attributes)).toList.length := by
  have hle := nestingAll_deliveredAll_le hchildren
  rw [levelsBack, delivered, h.noProgram, Bool.or_false, meaning, h.noProgramBack, h.noFrame,
    if_neg (by simp), if_neg h.noBreak]
  cases construct? .default name (spacedAttributes attributes) with
  | none => exact hle
  | some tag =>
    simp only [Node.nestingAll_singleton, Node.nesting_element_block]
    exact Nat.succ_le_succ hle

theorem IsOrdinary.levelsBack_le_succ {name : String} {attributes : List (String × String)}
    (h : IsOrdinary name attributes) {children : List Html} {n : Nat}
    (hchildren : ∀ node ∈ children, levelsBack node ≤ n) :
    levelsBack (.element name attributes children) ≤ n + 1 := by
  refine Nat.le_trans (h.levelsBack_le hchildren) (Nat.add_le_add_left ?_ n)
  cases construct? .default name (spacedAttributes attributes) <;> simp

/-! ## Programs -/

theorem foldPieces_self {behind : Bool} {pieces : List Piece}
    (h : ∀ piece ∈ pieces, piece.char ≠ '\r') : foldPieces behind pieces = pieces.map Piece.char := by
  induction pieces generalizing behind with
  | nil => rfl
  | cons piece pieces ih =>
    rw [List.forall_mem_cons] at h
    cases piece with
    | written c =>
      have hc : c ≠ '\r' := h.1
      rw [foldPieces, if_neg hc, ih h.2]
      rfl
    | referred c =>
      rw [foldPieces, ih h.2]
      rfl

theorem plainTexts_append (xs ys : List Html) :
    plainTexts (xs ++ ys) = plainTexts xs ++ plainTexts ys := by
  induction xs with
  | nil => simp [plainTexts]
  | cons x xs ih => simp [plainTexts, ih, String.append_assoc]

theorem plainTexts_textNodes {pieces : List Piece} (h : ∀ piece ∈ pieces, piece.char ≠ '\r') :
    plainTexts (textNodes pieces) = String.ofList (pieces.map Piece.char) := by
  rw [textNodes, foldPieces_self h]
  split
  · rename_i hempty
    rw [hempty]
    rfl
  · simp [plainTexts, plainText]

theorem char_ne_of_mem_piecesOf {inCode : Bool} {value : String} (h : '\r' ∉ value.toList) :
    ∀ piece ∈ piecesOf inCode value, piece.char ≠ '\r' := by
  intro piece hpiece hchar
  have hmem := List.mem_map_of_mem (f := Piece.char) hpiece
  rw [map_char_piecesOf, hchar] at hmem
  exact h hmem

mutual

/-- All texts in a node are read back as they are if there is no carriage return in them. -/
theorem plainText_delivered (inCode : Bool) :
    ∀ node : Html, '\r' ∉ (plainText node).toList →
      plainText (delivered inCode node) = plainText node
  | .text value, _ => by rw [delivered]
  | .element name attributes children, h => by
    rw [plainText] at h
    rw [delivered, plainText, plainText,
      plainTexts_deliveredAll (inCode || isCodeText attributes) children [] nofun h]
    simp
  | .aside, _ => by rw [delivered]

theorem plainTexts_deliveredAll (inCode : Bool) :
    ∀ (nodes : List Html) (pending : List Piece), (∀ piece ∈ pending, piece.char ≠ '\r') →
      '\r' ∉ (plainTexts nodes).toList →
      plainTexts (deliveredAll inCode pending nodes) =
        String.ofList (pending.map Piece.char) ++ plainTexts nodes
  | [], pending, hpending, _ => by
    rw [deliveredAll, plainTexts_textNodes hpending]
    simp [plainTexts]
  | .text value :: nodes, pending, hpending, h => by
    rw [plainTexts, plainText, String.toList_append, List.mem_append, not_or] at h
    have hpieces : ∀ piece ∈ pending ++ piecesOf inCode value, piece.char ≠ '\r' :=
      List.forall_mem_append.mpr ⟨hpending, char_ne_of_mem_piecesOf h.1⟩
    rw [deliveredAll, plainTexts_deliveredAll inCode nodes _ hpieces h.2, List.map_append,
      map_char_piecesOf, plainTexts, plainText]
    simp [String.append_assoc]
  | .element _ _ _ :: nodes, pending, hpending, h | .aside :: nodes, pending, hpending, h => by
    rw [plainTexts, String.toList_append, List.mem_append, not_or] at h
    rw [deliveredAll_tag rfl, plainTexts_append, plainTexts_textNodes hpending, plainTexts,
      plainText_delivered inCode _ h.1, plainTexts_deliveredAll inCode nodes [] (by simp) h.2,
      plainTexts]
    simp

end

/-- Folding line ends adds nothing but line feeds. -/
theorem mem_foldPieces {behind : Bool} {pieces : List Piece} {c : Char}
    (h : c ∈ foldPieces behind pieces) : c = '\n' ∨ ∃ piece ∈ pieces, piece.char = c := by
  induction pieces generalizing behind with
  | nil => cases h
  | cons piece pieces ih =>
    have hrest : ∀ {behind : Bool}, c ∈ foldPieces behind pieces →
        c = '\n' ∨ ∃ p ∈ piece :: pieces, p.char = c := by
      intro behind hc
      refine (ih hc).imp id ?_
      rintro ⟨p, hp, hchar⟩
      exact ⟨p, List.mem_cons_of_mem _ hp, hchar⟩
    cases piece with
    | referred d =>
      rcases List.mem_cons.mp h with rfl | hc
      · exact .inr ⟨_, List.mem_cons_self, rfl⟩
      · exact hrest hc
    | written d =>
      rw [foldPieces, List.mem_append] at h
      rcases h with hc | hc
      · split at hc
        · rename_i hd
          have hends : c = '\n' ∨ c = '\r' := by
            unfold carriageReturn at hc
            split at hc
            · split at hc
              · cases hc
              · exact .inl (List.mem_singleton.mp hc)
            · exact .inr (List.mem_singleton.mp hc)
            · split at hc
              · exact .inr (List.mem_singleton.mp hc)
              · exact .inl (List.mem_singleton.mp hc)
          exact hends.imp id fun hc => ⟨_, List.mem_cons_self, hd.trans hc.symm⟩
        · rw [List.mem_singleton.mp hc]
          exact .inr ⟨_, List.mem_cons_self, rfl⟩
      · exact hrest hc

theorem mem_plainTexts_textNodes {pieces : List Piece} {c : Char}
    (h : c ∈ (plainTexts (textNodes pieces)).toList) :
    c = '\n' ∨ ∃ piece ∈ pieces, piece.char = c := by
  unfold textNodes at h
  split at h
  · cases h
  · rw [plainTexts, plainText, plainTexts, String.append_empty, String.toList_ofList] at h
    exact mem_foldPieces h

mutual

/-- Reading texts back adds nothing but line feeds. -/
theorem mem_plainText_delivered (inCode : Bool) {c : Char} :
    ∀ node : Html, c ∈ (plainText (delivered inCode node)).toList →
      c = '\n' ∨ c ∈ (plainText node).toList
  | .text value, h => by
    rw [delivered] at h
    exact .inr h
  | .element name attributes children, h => by
    rw [delivered, plainText] at h
    rw [plainText]
    refine (mem_plainTexts_deliveredAll _ children [] h).imp id fun hc => hc.resolve_left ?_
    rintro ⟨piece, hpiece, -⟩
    cases hpiece
  | .aside, h => by
    rw [delivered] at h
    exact .inr h

theorem mem_plainTexts_deliveredAll (inCode : Bool) {c : Char} :
    ∀ (nodes : List Html) (pending : List Piece),
      c ∈ (plainTexts (deliveredAll inCode pending nodes)).toList →
      c = '\n' ∨ (∃ piece ∈ pending, piece.char = c) ∨ c ∈ (plainTexts nodes).toList
  | [], pending, h => by
    rw [deliveredAll] at h
    exact (mem_plainTexts_textNodes h).imp id .inl
  | .text value :: nodes, pending, h => by
    rw [deliveredAll] at h
    rw [plainTexts, plainText, String.toList_append, List.mem_append]
    rcases mem_plainTexts_deliveredAll inCode nodes _ h with hc | ⟨piece, hpiece, hchar⟩ | hc
    · exact .inl hc
    · rcases List.mem_append.mp hpiece with hpiece | hpiece
      · exact .inr (.inl ⟨piece, hpiece, hchar⟩)
      · refine .inr (.inr (.inl ?_))
        rw [← map_char_piecesOf inCode value, ← hchar]
        exact List.mem_map_of_mem hpiece
    · exact .inr (.inr (.inr hc))
  | .element _ _ _ :: nodes, pending, h | .aside :: nodes, pending, h => by
    rw [deliveredAll_tag rfl, plainTexts_append, plainTexts, String.toList_append,
      String.toList_append, List.mem_append, List.mem_append] at h
    rw [plainTexts, String.toList_append, List.mem_append]
    rcases h with hc | hc | hc
    · exact (mem_plainTexts_textNodes hc).imp id .inl
    · exact (mem_plainText_delivered inCode _ hc).imp id fun hc => .inr (.inl hc)
    · refine (mem_plainTexts_deliveredAll inCode nodes [] hc).imp id fun hc => .inr (.inr ?_)
      refine hc.resolve_left ?_
      rintro ⟨piece, hpiece, -⟩
      cases hpiece

end

end ChatMarkup.Html

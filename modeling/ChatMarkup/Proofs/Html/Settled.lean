import ChatMarkup.Proofs.Html.AttributeList
import ChatMarkup.Proofs.Html.Return

/-!
# Trees that are read back as they are

A carriage return in a text and a tab or a line end in an attribute value do not come back. A tree
without them is read back as it is, but that neighbouring texts are one text and a text of nothing
is none.

* `joined`: the tree that is read back;
* `deliveredAll_eq_joinedAll`: by induction over the tree, behind the pieces of a text;
* `read?_write_settled`, `read?_wrapped_settled`: what was written is read back, between other tags
  as well.
-/

namespace ChatMarkup.Html

/-- Whether a text comes back as it is. -/
def isSettledText (value : String) : Bool :=
  value.toList.all fun c => isLegal c && c ≠ '\r'

/-- Whether an attribute value comes back as it is. -/
def isSettledValue (value : String) : Bool :=
  value.toList.all fun c => isLegal c && staysSpaced c

mutual

/-- Whether all texts and attribute values of a tree come back as they are. -/
def isSettled : Html → Bool
  | .text value => isSettledText value
  | .element _ attributes children =>
    (attributes.all fun entry => isSettledValue entry.2) && areSettled children
  | .aside => true

def areSettled : List Html → Bool
  | [] => true
  | node :: nodes => isSettled node && areSettled nodes

end

/-! ## Joined texts -/

/-- A text as a node; a text of nothing is none. -/
def textNode (value : String) : List Html :=
  if value = "" then [] else [.text value]

mutual

/-- A node that is no text, with the texts in it joined. -/
def joinedNode : Html → Html
  | .text value => .text value
  | .element name attributes children => .element name attributes (joinedAll "" children)
  | .aside => .aside

/-- Nodes behind a text, with neighbouring texts joined. -/
def joinedAll (before : String) : List Html → List Html
  | [] => textNode before
  | .text value :: nodes => joinedAll (before ++ value) nodes
  | node :: nodes => textNode before ++ joinedNode node :: joinedAll "" nodes

end

/-- Nodes with neighbouring texts joined. -/
def joined (nodes : List Html) : List Html :=
  joinedAll "" nodes

theorem textNodes_eq_textNode {pieces : List Piece} (h : ∀ piece ∈ pieces, piece.char ≠ '\r') :
    textNodes pieces = textNode (String.ofList (pieces.map Piece.char)) := by
  rw [textNodes, textNode, foldPieces_self h]
  simp only [String.ofList_eq_empty_iff]

/-! ## Settled trees -/

theorem not_return_of_isSettledText {value : String} (h : isSettledText value = true) :
    '\r' ∉ value.toList := by
  rw [isSettledText, List.all_eq_true] at h
  intro hmem
  have hreturn := h _ hmem
  simp at hreturn

theorem isLegalText_of_isSettledText {value : String} (h : isSettledText value = true) :
    isLegalText value = true := by
  rw [isSettledText, List.all_eq_true] at h
  rw [isLegalText, List.all_eq_true]
  exact fun c hc => (Bool.and_eq_true_iff.mp (h c hc)).1

theorem isLegalText_of_isSettledValue {value : String} (h : isSettledValue value = true) :
    isLegalText value = true := by
  rw [isSettledValue, List.all_eq_true] at h
  rw [isLegalText, List.all_eq_true]
  exact fun c hc => (Bool.and_eq_true_iff.mp (h c hc)).1

theorem spacedValue_of_isSettledValue {value : String} (h : isSettledValue value = true) :
    spacedValue value = value := by
  rw [isSettledValue, List.all_eq_true] at h
  exact spacedValue_self fun c hc => (Bool.and_eq_true_iff.mp (h c hc)).2

theorem spacedAttributes_of_settled {attributes : List (String × String)}
    (h : (attributes.all fun entry => isSettledValue entry.2) = true) :
    spacedAttributes attributes = attributes := by
  rw [List.all_eq_true] at h
  rw [spacedAttributes]
  conv => rhs; rw [← List.map_id attributes]
  refine List.map_congr_left fun entry hentry => ?_
  rw [spacedValue_of_isSettledValue (h entry hentry)]
  rfl

theorem areSettled_eq (nodes : List Html) : areSettled nodes = nodes.all isSettled := by
  induction nodes with
  | nil => rfl
  | cons node nodes ih => rw [areSettled, ih, List.all_cons]

theorem areSettled_append (xs ys : List Html) :
    areSettled (xs ++ ys) = (areSettled xs && areSettled ys) := by
  simp only [areSettled_eq, List.all_append]

mutual

theorem isLegalNode_of_isSettled : ∀ node : Html, isSettled node = true → isLegalNode node = true
  | .text value, h => by
    rw [isSettled] at h
    rw [isLegalNode]
    exact isLegalText_of_isSettledText h
  | .element name attributes children, h => by
    rw [isSettled, Bool.and_eq_true, List.all_eq_true] at h
    rw [isLegalNode, Bool.and_eq_true, List.all_eq_true]
    exact ⟨fun entry hentry => isLegalText_of_isSettledValue (h.1 entry hentry),
      areLegalNodes_of_areSettled children h.2⟩
  | .aside, _ => rfl

theorem areLegalNodes_of_areSettled :
    ∀ nodes : List Html, areSettled nodes = true → areLegalNodes nodes = true
  | [], _ => rfl
  | node :: nodes, h => by
    rw [areSettled, Bool.and_eq_true] at h
    rw [areLegalNodes, isLegalNode_of_isSettled node h.1, areLegalNodes_of_areSettled nodes h.2]
    rfl

end

mutual

/-- A settled node comes back with the texts in it joined. -/
theorem delivered_eq_joinedNode (inCode : Bool) :
    ∀ node : Html, isSettled node = true → delivered inCode node = joinedNode node
  | .text _, _ | .aside, _ => rfl
  | .element name attributes children, h => by
    rw [isSettled, Bool.and_eq_true] at h
    rw [delivered, joinedNode, spacedAttributes_of_settled h.1,
      deliveredAll_eq_joinedAll _ children [] nofun h.2]
    rfl

theorem deliveredAll_eq_joinedAll (inCode : Bool) :
    ∀ (nodes : List Html) (pending : List Piece), (∀ piece ∈ pending, piece.char ≠ '\r') →
      areSettled nodes = true →
      deliveredAll inCode pending nodes = joinedAll (String.ofList (pending.map Piece.char)) nodes
  | [], pending, hpending, _ => by
    rw [deliveredAll, joinedAll, textNodes_eq_textNode hpending]
  | .text value :: nodes, pending, hpending, h => by
    rw [areSettled, isSettled, Bool.and_eq_true] at h
    have hpieces : ∀ piece ∈ pending ++ piecesOf inCode value, piece.char ≠ '\r' :=
      List.forall_mem_append.mpr
        ⟨hpending, char_ne_of_mem_piecesOf (not_return_of_isSettledText h.1)⟩
    rw [deliveredAll, joinedAll, deliveredAll_eq_joinedAll inCode nodes _ hpieces h.2,
      List.map_append, map_char_piecesOf, String.ofList_append, String.ofList_toList]
  | .element _ _ _ :: nodes, pending, hpending, h | .aside :: nodes, pending, hpending, h => by
    rw [areSettled, Bool.and_eq_true] at h
    rw [deliveredAll_tag rfl, joinedAll, textNodes_eq_textNode hpending,
      delivered_eq_joinedNode inCode _ h.1, deliveredAll_eq_joinedAll inCode nodes [] (by simp) h.2]
    · rfl
    · simp

end

/-! ## Reading back -/

theorem read?_write_settled {nodes : List Html} (hproper : AreProper nodes)
    (h : areSettled nodes = true) : read? (write nodes) = some (joined nodes) := by
  rw [read?_write hproper, if_pos (areLegalNodes_of_areSettled nodes h),
    deliveredAll_eq_joinedAll false nodes [] nofun h]
  rfl

/-- Nodes that were written between the tags of an element are read back in the element. -/
theorem read?_wrapped {root : String} (hroot : isSimpleName root = true) {nodes : List Html}
    (h : AreProper nodes) :
    read? ("<" ++ root ++ ">" ++ write nodes ++ "</" ++ root ++ ">") =
      if areLegalNodes nodes then some [.element root [] (deliveredAll false [] nodes)] else none := by
  have hnone : AreProperAttributes [] := ⟨nofun, List.nodup_nil⟩
  have hinside : ReadsInside (write nodes).toList (deliveredAll false [] nodes) := by
    intro inner hinner more hmore
    have hreads := reads_writeNodes false nodes [] h (by simp) inner hinner more hmore
    rwa [show sourceOf [] = [] from rfl, List.nil_append] at hreads
  have hreads := reads_element ⟨[], []⟩ hroot hnone hinside []
  have hsource : ("<" ++ root ++ ">" ++ write nodes ++ "</" ++ root ++ ">").toList =
      '<' :: (root.toList ++ (attributesSource [] ++ tagEnd false)) ++
        ((write nodes).toList ++ '<' :: '/' :: (root.toList ++ ['>'])) := by
    simp [attributesSource, tagEnd]
  have hlegal : ('<' :: (root.toList ++ (attributesSource [] ++ tagEnd false)) ++
      ((write nodes).toList ++ '<' :: '/' :: (root.toList ++ ['>']))).all isLegal =
      areLegalNodes nodes := by
    have hmarks : isLegal '<' = true ∧ isLegal '>' = true ∧ isLegal '/' = true := by decide
    rw [← all_isLegal_writeNodes false nodes h]
    simp [attributesSource, tagEnd, all_isLegal_name hroot, hmarks, write]
  rw [Reads, List.append_nil, hlegal] at hreads
  rw [read?_eq, hsource, hreads]
  split
  · rw [readFrom_nil]
    rfl
  · rfl

theorem read?_wrapped_settled {root : String} (hroot : isSimpleName root = true)
    {nodes : List Html} (hproper : AreProper nodes) (h : areSettled nodes = true) :
    read? ("<" ++ root ++ ">" ++ write nodes ++ "</" ++ root ++ ">") =
      some [.element root [] (joined nodes)] := by
  rw [read?_wrapped hroot hproper, if_pos (areLegalNodes_of_areSettled nodes h),
    deliveredAll_eq_joinedAll false nodes [] nofun h]
  rfl

/-- A page that was written for settled nodes is imported as they are. -/
theorem importPage_write_settled {nodes : List Html} (hproper : AreProper nodes)
    (h : areSettled nodes = true) (options : ImportOptions) :
    importPage options (write nodes) = importNodes options (joined nodes) := by
  rw [importPage, ofBrowser_write hproper, read?_write_settled hproper h]

end ChatMarkup.Html

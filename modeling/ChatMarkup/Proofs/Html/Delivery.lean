import ChatMarkup.Html.Reader
import ChatMarkup.Proofs.Html.Reading

/-!
# How a written tree is read back

Neighbouring texts become one text, line ends change, and everything else stays. A tree is read back
if all its characters may stand in a document.

* `Reads`: reading goes over some source to another state of the tree that is built;
* `reads_writeNode`, `reads_writeNodes`: by induction over what is written;
* `read?_write`: the nodes that are read back.
-/

namespace ChatMarkup.Html

/-! ## What is read back -/

/-- Whether a node is no text. -/
def isTag : Html → Bool
  | .text _ => false
  | _ => true

/-- The text that pieces are read as; a text of nothing is no node. -/
def textNodes (pieces : List Piece) : List Html :=
  if foldPieces false pieces = [] then [] else [.text (String.ofList (foldPieces false pieces))]

/-- Attributes as they are read back. -/
def spacedAttributes (attributes : List (String × String)) : List (String × String) :=
  attributes.map fun entry => (entry.1, spacedValue entry.2)

mutual

/-- A node that is no text as it is read back. -/
def delivered (inCode : Bool) : Html → Html
  | .text value => .text value
  | .element name attributes children =>
    .element name (spacedAttributes attributes)
      (deliveredAll (inCode || isCodeText attributes) [] children)
  | .aside => .aside

/-- Nodes as they are read back, behind the pieces of a text. -/
def deliveredAll (inCode : Bool) (pending : List Piece) : List Html → List Html
  | [] => textNodes pending
  | .text value :: nodes => deliveredAll inCode (pending ++ piecesOf inCode value) nodes
  | node :: nodes => textNodes pending ++ delivered inCode node :: deliveredAll inCode [] nodes

end

/-- What is no text ends the text before it. -/
theorem deliveredAll_tag {node : Html} (h : isTag node = true) (inCode : Bool)
    (pending : List Piece) (nodes : List Html) :
    deliveredAll inCode pending (node :: nodes) =
      textNodes pending ++ delivered inCode node :: deliveredAll inCode [] nodes := by
  cases node with
  | text value => cases h
  | element | aside =>
    rw [deliveredAll]
    simp

/-! ## Reading on -/

/-- What is built once the rest of a text is read. -/
def readFrom (building : Building) (cs : List Char) : Option Building :=
  (tokens? cs).bind (List.foldlM Building.take? building)

theorem readFrom_nil (building : Building) : readFrom building [] = some building := by
  rw [readFrom, tokens?, if_pos rfl]
  rfl

theorem readFrom_token (building : Building) {token : Token} {cs rest : List Char}
    (h : readToken cs = some (token, rest)) :
    readFrom building cs = (building.take? token).bind fun building => readFrom building rest := by
  have hne : cs ≠ [] := by
    rintro rfl
    cases h
  have htokens : tokens? cs = (tokens? rest).map (token :: ·) := by
    rw [tokens?, if_neg hne]
    split
    · rename_i hread
      rw [h] at hread
      cases hread
    · rename_i hread
      rw [h] at hread
      cases hread
      rfl
  rw [readFrom, htokens]
  cases hrest : tokens? rest with
  | none => simp [readFrom, hrest]
  | some tokens =>
    simp only [readFrom, hrest, Option.map_some, Option.bind_some, List.foldlM_cons]
    rfl

theorem readFrom_none (building : Building) {cs : List Char} (hne : cs ≠ [])
    (h : readToken cs = none) : readFrom building cs = none := by
  have htokens : tokens? cs = none := by
    rw [tokens?, if_neg hne]
    split
    · rfl
    · rename_i hread
      rw [h] at hread
      cases hread
  rw [readFrom, htokens, Option.bind_none]

theorem read?_eq (text : String) :
    read? text = (readFrom ⟨[], []⟩ text.toList).bind fun building =>
      if building.opened.isEmpty then some building.nodes.reverse else none := by
  rw [read?, readFrom, Option.bind_assoc]
  rfl

/-- In front of the rest, reading goes over the source from one building to another, if its
characters may stand in a document. -/
def Reads (rest : List Char) (before : Building) (cs : List Char) (after : Building) : Prop :=
  readFrom before (cs ++ rest) = if cs.all isLegal then readFrom after rest else none

theorem Reads.append {b₁ b₂ b₃ : Building} {cs ds rest : List Char}
    (hcs : Reads (ds ++ rest) b₁ cs b₂) (hds : Reads rest b₂ ds b₃) :
    Reads rest b₁ (cs ++ ds) b₃ := by
  rw [Reads] at hcs hds ⊢
  rw [List.append_assoc, hcs, hds, List.all_append]
  cases cs.all isLegal <;> simp

/-! ## Texts -/

/-- No text stands right in front of what is read next. -/
def Building.AtTag (building : Building) : Prop :=
  ∀ value nodes, building.nodes ≠ .text value :: nodes

theorem addText_of_atTag {building : Building} (h : building.AtTag) (value : String) :
    addText value building.nodes =
      if value = "" then building.nodes else .text value :: building.nodes := by
  unfold addText
  split
  · rename_i hnodes
    exact absurd hnodes (h _ _)
  · rfl

theorem reads_text {building : Building} (h : building.AtTag) {pieces : List Piece}
    (hpieces : ∀ piece ∈ pieces, piece.IsWritten) {rest : List Char}
    (hrest : ∀ c ∈ rest.head?, c = '<') :
    Reads rest building (sourceOf pieces)
      { building with nodes := (textNodes pieces).reverse ++ building.nodes } := by
  rw [Reads]
  rcases List.eq_nil_or_concat pieces with rfl | ⟨_, _, hconcat⟩
  · rfl
  · have hne : pieces ≠ [] := by
      rw [hconcat]
      simp
    have hread := readToken_text hne hpieces hrest
    split
    · rename_i hlegal
      rw [if_pos hlegal] at hread
      rw [readFrom_token _ hread, Building.take?, Option.bind_some, addText_of_atTag h, textNodes]
      by_cases hempty : foldPieces false pieces = []
      · simp [hempty]
      · simp [hempty, String.ofList_eq_empty_iff]
    · rename_i hlegal
      rw [if_neg hlegal] at hread
      refine readFrom_none _ ?_ hread
      exact List.append_ne_nil_of_left_ne_nil (sourceOf_ne_nil hne hpieces) _

/-! ## Tags -/

theorem isBinding_plain {name : String} (h : isPlainName name = true) :
    isBinding (.plain name) = false := by
  simp only [isPlainName, Bool.and_eq_true, decide_eq_true_eq] at h
  simp [isBinding, Name.plain, bindingWord, h.2]

theorem eraseDups_eq_self {α : Type} [BEq α] [LawfulBEq α] {xs : List α} (h : xs.Nodup) :
    xs.eraseDups = xs := by
  induction xs with
  | nil => rfl
  | cons x xs ih =>
    rw [List.nodup_cons] at h
    have hfilter : xs.filter (fun y => !y == x) = xs := by
      rw [List.filter_eq_self]
      intro y hy
      have hne : y ≠ x := fun heq => h.1 (heq ▸ hy)
      simpa using hne
    rw [List.eraseDups_cons, hfilter, ih h.2]

/-- A tag with plain names opens its element: nothing is bound in it, and no attribute is there
twice. -/
theorem open?_plain (building : Building) (name : String) {attributes : List (String × String)}
    (h : AreProperAttributes attributes) :
    building.open? (.plain name) (readBack attributes) =
      some ⟨[], ⟨.plain name, spacedAttributes attributes, building.bindings, building.nodes⟩ ::
        building.opened⟩ := by
  have hbinding : ∀ entry ∈ readBack attributes, isBinding entry.1 = false := by
    intro entry hentry
    obtain ⟨source, hsource, rfl⟩ := List.mem_map.mp hentry
    exact isBinding_plain (h.1 source hsource)
  have hbound : bindingsOf? (readBack attributes) = some [] := by
    have hfilter : (readBack attributes).filter (isBinding ·.1) = [] := by
      rw [List.filter_eq_nil_iff]
      intro entry hentry
      simp [hbinding entry hentry]
    rw [bindingsOf?, List.filterMap_eq_nil_iff.mpr]
    · simp [hfilter]
    · intro entry hentry
      have hnot := hbinding entry hentry
      simp only [isBinding, Bool.or_eq_false_iff, decide_eq_false_iff_not] at hnot
      exact if_neg fun hbinds => hnot.1 hbinds.1
  have hproper : (readBack attributes).filter (fun entry => !isBinding entry.1) =
      readBack attributes := by
    rw [List.filter_eq_self]
    intro entry hentry
    simp [hbinding entry hentry]
  have hdistinct : areDistinct building.bindings ((readBack attributes).map Prod.fst) = true := by
    have hfull : ((readBack attributes).map Prod.fst).map
        (fun name => (spaceOf? building.bindings name.qualifier, name.base)) =
          (attributes.map Prod.fst).map fun key => (some Space.none, key) := by
      simp [readBack, Name.plain, spaceOf?]
    have hnodup : ((attributes.map Prod.fst).map fun key => (some Space.none, key)).Nodup := by
      refine List.Pairwise.map _ (fun key other hne heq => hne ?_) h.2
      exact (Prod.mk.inj heq).2
    simp only [areDistinct, hfull, eraseDups_eq_self hnodup]
    simp
  have hcan : (Name.plain name).qualifier ≠ bindingWord ∧
      canQualify ([] ++ building.bindings) (Name.plain name).qualifier = true := by
    simp [Name.plain, bindingWord, canQualify]
  rw [Building.open?, hbound, Option.bind_some]
  simp only [hproper, List.nil_append] at hcan ⊢
  rw [if_pos ⟨hcan.1, hcan.2, hdistinct⟩]
  simp [readBack, spacedAttributes, Name.plain, Name.text]

theorem all_isLegal_tag {name : String} (hname : isSimpleName name = true)
    (attributes : List (String × String)) (closed : Bool) :
    ('<' :: (name.toList ++ (attributesSource attributes ++ tagEnd closed))).all isLegal =
      (attributesSource attributes).all isLegal := by
  have hend : (tagEnd closed).all isLegal = true := by
    cases closed <;> decide
  simp [all_isLegal_name hname, hend, show isLegal '<' = true by decide]

theorem reads_tag (building : Building) {name : String} (hname : isSimpleName name = true)
    {attributes : List (String × String)} (h : AreProperAttributes attributes) (closed : Bool)
    {after : Building}
    (hafter : building.take? (.opening (.plain name) (readBack attributes) closed) = some after)
    (rest : List Char) :
    Reads rest building ('<' :: (name.toList ++ (attributesSource attributes ++ tagEnd closed)))
      after := by
  have hread := readToken_opening hname h closed rest
  have hsplit : '<' :: (name.toList ++ (attributesSource attributes ++ tagEnd closed)) ++ rest =
      '<' :: (name.toList ++ (attributesSource attributes ++ (tagEnd closed ++ rest))) := by
    simp
  rw [Reads, all_isLegal_tag hname, hsplit]
  split
  · rename_i hlegal
    rw [if_pos hlegal] at hread
    rw [readFrom_token _ hread, hafter, Option.bind_some]
  · rename_i hlegal
    rw [if_neg hlegal] at hread
    exact readFrom_none _ (List.cons_ne_nil _ _) hread

theorem reads_closing (nodes : List Html) {name : String} (hname : isSimpleName name = true)
    (attributes : List (String × String)) (bindings : Bindings) (outer : List Html)
    (opened : List Opened) (rest : List Char) :
    Reads rest ⟨nodes, ⟨.plain name, attributes, bindings, outer⟩ :: opened⟩
      ('<' :: '/' :: (name.toList ++ ['>']))
      ⟨.element name attributes nodes.reverse :: outer, opened⟩ := by
  have hread := readToken_closing hname rest
  have hsplit : '<' :: '/' :: (name.toList ++ ['>']) ++ rest =
      '<' :: '/' :: (name.toList ++ '>' :: rest) := by
    simp
  have hlegal : ('<' :: '/' :: (name.toList ++ ['>'])).all isLegal = true := by
    simp [all_isLegal_name hname, show isLegal '<' = true by decide,
      show isLegal '/' = true by decide, show isLegal '>' = true by decide]
  have hclose : Building.close? ⟨nodes, ⟨.plain name, attributes, bindings, outer⟩ :: opened⟩
      (.plain name) = some ⟨.element name attributes nodes.reverse :: outer, opened⟩ :=
    if_pos rfl
  rw [Reads, if_pos hlegal, hsplit, readFrom_token _ hread, Building.take?, hclose, Option.bind_some]

/-- Between two tags, reading goes over the source and leaves some nodes. -/
def ReadsInside (cs : List Char) (nodes : List Html) : Prop :=
  ∀ building : Building, building.AtTag → ∀ rest : List Char, (∀ c ∈ rest.head?, c = '<') →
    Reads rest building cs { building with nodes := nodes.reverse ++ building.nodes }

/-- An element is read if what stands between its tags is. -/
theorem reads_element (building : Building) {name : String} (hname : isSimpleName name = true)
    {attributes : List (String × String)} (h : AreProperAttributes attributes) {cs : List Char}
    {children : List Html} (hinside : ReadsInside cs children) (rest : List Char) :
    Reads rest building
      ('<' :: (name.toList ++ (attributesSource attributes ++ tagEnd false)) ++
        (cs ++ '<' :: '/' :: (name.toList ++ ['>'])))
      { building with
        nodes := .element name (spacedAttributes attributes) children :: building.nodes } := by
  have hopen := open?_plain building name h
  -- the building with the element open
  generalize hinner : (⟨[], ⟨.plain name, spacedAttributes attributes, building.bindings,
    building.nodes⟩ :: building.opened⟩ : Building) = inner at hopen
  have htake : building.take? (.opening (.plain name) (readBack attributes) false) =
      some inner := by
    rw [Building.take?, hopen]
    rfl
  have htag := reads_tag building hname h false htake
  have hchildren := hinside inner (by rw [← hinner]; nofun)
    ('<' :: '/' :: (name.toList ++ ['>']) ++ rest) (by simp)
  have hclose := reads_closing children.reverse hname (spacedAttributes attributes)
    building.bindings building.nodes building.opened rest
  subst hinner
  rw [List.append_nil] at hchildren
  have hall := (htag _).append (hchildren.append hclose)
  rwa [List.reverse_reverse] at hall

/-! ## Trees -/

theorem isVoid_of_contains {name : String} (h : voidNames.contains name = true) :
    isVoid name = true := by
  have hall : ∀ name ∈ voidNames, isVoid name = true := by decide
  exact hall name (List.contains_iff_mem.mp h)

/-- An element starts with a bracket. -/
theorem head?_writeNode (inCode : Bool) (name : String) (attributes : List (String × String))
    (children : List Html) (rest : List Char) :
    ∀ c ∈ ((writeNode inCode (.element name attributes children)).toList ++ rest).head?,
      c = '<' := by
  intro c hc
  cases hcase : voidNames.contains name with
  | true =>
    rw [toList_writeVoid hcase] at hc
    cases hc
    rfl
  | false =>
    rw [toList_writeElement hcase] at hc
    cases hc
    rfl

mutual

/-- An element that was written is read back. -/
theorem reads_writeNode (inCode : Bool) :
    ∀ node : Html, Proper node → (∀ value, node ≠ .text value) →
      ∀ (building : Building) (rest : List Char),
      Reads rest building (writeNode inCode node).toList
        { building with nodes := delivered inCode node :: building.nodes }
  | .text value, _, htext, _, _ => absurd rfl (htext value)
  | .element name attributes children, h, _, building, rest => by
    rw [Proper] at h
    obtain ⟨hname, hattributes, hvoid, hchildren⟩ := h
    replace hname := isSimpleName_of_isPlainName hname
    have hopen := open?_plain building name hattributes
    cases hcase : voidNames.contains name with
    | true =>
      obtain ⟨-, rfl⟩ := hvoid (isVoid_of_contains hcase)
      rw [toList_writeVoid hcase, delivered, deliveredAll]
      refine reads_tag building hname hattributes true ?_ rest
      rw [Building.take?, hopen, Option.bind_some, if_pos rfl]
      exact if_pos rfl
    | false =>
      have hinside : ReadsInside (writeNodes (inCode || isCodeText attributes) children).toList
          (deliveredAll (inCode || isCodeText attributes) [] children) := by
        intro inner hinner more hmore
        have hreads := reads_writeNodes (inCode || isCodeText attributes) children [] hchildren
          (by simp) inner hinner more hmore
        rwa [show sourceOf [] = [] from rfl, List.nil_append] at hreads
      have hall := reads_element building hname hattributes hinside rest
      rw [toList_writeElement hcase, delivered]
      simpa [tagEnd] using hall
  | .aside, h, _, _, _ => nomatch h

/-- Nodes that were written behind the pieces of a text are read back. -/
theorem reads_writeNodes (inCode : Bool) :
    ∀ (nodes : List Html) (pending : List Piece), AreProper nodes →
      (∀ piece ∈ pending, piece.IsWritten) → ∀ building : Building, building.AtTag →
      ∀ rest : List Char, (∀ c ∈ rest.head?, c = '<') →
      Reads rest building (sourceOf pending ++ (writeNodes inCode nodes).toList)
        { building with nodes := (deliveredAll inCode pending nodes).reverse ++ building.nodes }
  | [], pending, _, hpending, building, hbuilding, rest, hrest => by
    rw [writeNodes, deliveredAll]
    simpa using reads_text hbuilding hpending hrest
  | .text value :: nodes, pending, h, hpending, building, hbuilding, rest, hrest => by
    rw [AreProper] at h
    have hpieces : ∀ piece ∈ pending ++ piecesOf inCode value, piece.IsWritten :=
      List.forall_mem_append.mpr ⟨hpending, isWritten_piecesOf inCode value⟩
    have hall := reads_writeNodes inCode nodes (pending ++ piecesOf inCode value) h.2 hpieces
      building hbuilding rest hrest
    rw [writeNodes, deliveredAll, String.toList_append, toList_writeText, ← List.append_assoc,
      ← sourceOf_append]
    exact hall
  | .element name attributes children :: nodes, pending, h, hpending, building, hbuilding, rest,
      hrest => by
    rw [AreProper] at h
    have hpending' := reads_text hbuilding hpending
      (head?_writeNode inCode name attributes children ((writeNodes inCode nodes).toList ++ rest))
    have helement := reads_writeNode inCode (.element name attributes children) h.1 nofun
      { building with nodes := (textNodes pending).reverse ++ building.nodes }
      ((writeNodes inCode nodes).toList ++ rest)
    have hnodes := reads_writeNodes inCode nodes [] h.2 (by simp)
      { building with nodes := delivered inCode (.element name attributes children) ::
        ((textNodes pending).reverse ++ building.nodes) } (by nofun) rest hrest
    rw [show sourceOf [] = [] from rfl, List.nil_append] at hnodes
    have hall := (hpending'.append helement).append hnodes
    rw [writeNodes, deliveredAll_tag rfl, String.toList_append, ← List.append_assoc]
    simpa using hall
  | .aside :: _, _, h, _, _, _, _, _ => nomatch h.1

end

/-! ## Characters of a tree -/

/-- Whether a document may hold all characters of a text. -/
def isLegalText (value : String) : Bool :=
  value.toList.all isLegal

mutual

/-- Whether a document may hold all characters of the texts and attribute values of a tree. -/
def isLegalNode : Html → Bool
  | .text value => isLegalText value
  | .element _ attributes children =>
    (attributes.all fun entry => isLegalText entry.2) && areLegalNodes children
  | .aside => true

def areLegalNodes : List Html → Bool
  | [] => true
  | node :: nodes => isLegalNode node && areLegalNodes nodes

end

theorem all_isLegal_source {piece : Piece} (h : piece.IsWritten) :
    piece.source.all isLegal = isLegal piece.char := by
  rcases h.cases with ⟨c, hc, rfl⟩ | ⟨c, rfl, -⟩
  · simp only [referredChars, List.mem_cons, List.not_mem_nil, or_false] at hc
    rcases hc with rfl | rfl | rfl | rfl | rfl <;> decide
  · simp [Piece.source, Piece.char]

theorem all_isLegal_sourceOf {pieces : List Piece} (h : ∀ piece ∈ pieces, piece.IsWritten) :
    (sourceOf pieces).all isLegal = (pieces.map Piece.char).all isLegal := by
  induction pieces with
  | nil => rfl
  | cons piece pieces ih =>
    rw [List.forall_mem_cons] at h
    rw [show sourceOf (piece :: pieces) = piece.source ++ sourceOf pieces from rfl, List.all_append,
      all_isLegal_source h.1, ih h.2, List.map_cons, List.all_cons]

theorem all_isLegal_piecesOf (inCode : Bool) (value : String) :
    (sourceOf (piecesOf inCode value)).all isLegal = isLegalText value := by
  rw [all_isLegal_sourceOf (isWritten_piecesOf inCode value), map_char_piecesOf, isLegalText]

theorem all_isLegal_attributesSource {attributes : List (String × String)}
    (h : ∀ entry ∈ attributes, isPlainName entry.1 = true) :
    (attributesSource attributes).all isLegal =
      attributes.all fun entry => isLegalText entry.2 := by
  induction attributes with
  | nil => rfl
  | cons entry attributes ih =>
    rw [List.forall_mem_cons] at h
    rw [all_isLegal_attributesSource_cons h.1, all_isLegal_piecesOf, ih h.2, List.all_cons]

mutual

/-- What is written for a tree adds no character that a document may not hold. -/
theorem all_isLegal_writeNode (inCode : Bool) :
    ∀ node : Html, Proper node → (writeNode inCode node).toList.all isLegal = isLegalNode node
  | .text value, _ => by
    rw [toList_writeText, all_isLegal_piecesOf, isLegalNode]
  | .element name attributes children, h => by
    rw [Proper] at h
    obtain ⟨hname, hattributes, hvoid, hchildren⟩ := h
    have hlegal := all_isLegal_attributesSource hattributes.1
    have hletters := all_isLegal_name (isSimpleName_of_isPlainName hname)
    have hmarks : isLegal '<' = true ∧ isLegal '>' = true ∧ isLegal '/' = true := by decide
    rw [isLegalNode]
    cases hcase : voidNames.contains name with
    | true =>
      obtain ⟨-, rfl⟩ := hvoid (isVoid_of_contains hcase)
      rw [toList_writeVoid hcase]
      simp [hletters, hlegal, hmarks, areLegalNodes]
    | false =>
      have hinside := all_isLegal_writeNodes (inCode || isCodeText attributes) children hchildren
      rw [toList_writeElement hcase]
      simp [hletters, hlegal, hmarks, hinside]
  | .aside, h => nomatch h

theorem all_isLegal_writeNodes (inCode : Bool) :
    ∀ nodes : List Html, AreProper nodes →
      (writeNodes inCode nodes).toList.all isLegal = areLegalNodes nodes
  | [], _ => by simp [writeNodes, areLegalNodes]
  | node :: nodes, h => by
    rw [AreProper] at h
    rw [writeNodes, String.toList_append, List.all_append, all_isLegal_writeNode inCode node h.1,
      all_isLegal_writeNodes inCode nodes h.2, areLegalNodes]

end

/-- The nodes that are read back from what was written for a proper tree; none if it holds a
character that no document may hold. -/
theorem read?_write {nodes : List Html} (h : AreProper nodes) :
    read? (write nodes) =
      if areLegalNodes nodes then some (deliveredAll false [] nodes) else none := by
  have hreads := reads_writeNodes false nodes [] h (by simp) ⟨[], []⟩ nofun [] nofun
  rw [Reads, show sourceOf [] = [] from rfl, List.nil_append, List.append_nil,
    all_isLegal_writeNodes false nodes h] at hreads
  rw [read?_eq, write, hreads]
  split
  · simp [readFrom_nil]
  · rfl

end ChatMarkup.Html

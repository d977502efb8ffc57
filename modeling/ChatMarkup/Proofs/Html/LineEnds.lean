import ChatMarkup.Proofs.Html.Return

/-!
# Pages with their line ends folded

Every line end of a page may be made a line feed before anything else is done with the page. The page
of a tree then is the page of another tree, whose texts and attribute values have their line ends
folded, so that no carriage return comes back from it.

* `foldLineEnds_writeNodes`: folding the line ends of a page, by induction over the tree;
* `plainTexts_of_readsFolded`: no carriage return comes back from a page that is read as it is read
  with its line ends folded.
-/

namespace ChatMarkup.Html

/-- A text with its line ends folded. -/
def foldedText (value : String) : String :=
  String.ofList (foldLineEnds value.toList)

/-- A text is read as it is read with its line ends folded. -/
def ReadsFolded (text : String) : Prop :=
  read? text = read? (foldedText text)

/-- Attributes with the line ends of their values folded. -/
def foldedAttributes (attributes : List (String × String)) : List (String × String) :=
  attributes.map fun entry => (entry.1, foldedText entry.2)

/-- The text of some characters with their line ends folded; none without characters. -/
def foldedTexts (cs : List Char) : List Html :=
  if cs = [] then [] else [.text (String.ofList (foldLineEnds cs))]

mutual

/-- A node that is no text, with all line ends in it folded. -/
def folded : Html → Html
  | .text value => .text value
  | .element name attributes children =>
    .element name (foldedAttributes attributes) (foldedAll [] children)
  | .aside => .aside

/-- Nodes with their line ends folded, behind the characters of a text: neighbouring texts are one
text, since a line end may begin in one of them and end in another. -/
def foldedAll (pending : List Char) : List Html → List Html
  | [] => foldedTexts pending
  | .text value :: nodes => foldedAll (pending ++ value.toList) nodes
  | node :: nodes => foldedTexts pending ++ folded node :: foldedAll [] nodes

end

/-! ## Folding what is written -/

theorem not_mem_foldLineEnds (cs : List Char) : '\r' ∉ foldLineEnds cs := by
  induction cs with
  | nil => simp [foldLineEnds]
  | cons c cs ih =>
    by_cases hc : c = '\r'
    · subst hc
      rw [foldLineEnds_cons_return]
      split
      · exact ih
      · simpa using ih
    · rw [foldLineEnds_cons_self hc]
      simpa [Ne.symm hc] using ih

/-- A text without line ends comes only from itself. -/
theorem eq_of_foldLineEnds_eq {cs ds : List Char} (h : foldLineEnds cs = ds) (hds : '\n' ∉ ds) :
    cs = ds := by
  induction cs generalizing ds with
  | nil => exact h
  | cons c cs ih =>
    by_cases hc : c = '\r'
    · subst hc
      have hmem : '\n' ∈ foldLineEnds ('\r' :: cs) := by
        rw [foldLineEnds_cons_return]
        split
        · rename_i hhead
          obtain ⟨cs', rfl⟩ := List.head?_eq_some_iff.mp hhead
          rw [foldLineEnds_cons_self (by decide)]
          exact List.mem_cons_self
        · exact List.mem_cons_self
      rw [h] at hmem
      exact absurd hmem hds
    · rw [foldLineEnds_cons_self hc] at h
      subst h
      rw [List.mem_cons, not_or] at hds
      rw [← ih rfl hds.2]

theorem isCodeText_folded (attributes : List (String × String)) :
    isCodeText (foldedAttributes attributes) = isCodeText attributes := by
  have hmarker : ∀ value, foldedText value = codeMarker ↔ value = codeMarker := by
    intro value
    constructor
    · intro h
      have hlist := congrArg String.toList h
      rw [foldedText, String.toList_ofList] at hlist
      exact String.toList_injective (eq_of_foldLineEnds_eq hlist (by decide))
    · rintro rfl
      decide
  have hlookup : (foldedAttributes attributes).lookup markerKey =
      (attributes.lookup markerKey).map foldedText := by
    induction attributes with
    | nil => rfl
    | cons entry attributes ih =>
      rw [foldedAttributes] at ih
      rw [foldedAttributes, List.map_cons, List.lookup_cons, List.lookup_cons, ih]
      split <;> rfl
  rw [isCodeText, isCodeText, hlookup]
  cases attributes.lookup markerKey with
  | none => rfl
  | some value => simp [hmarker]

/-! ## Folding a page -/

/-- The characters of a plain name are no line ends. -/
theorem not_return_of_isPlainName {name : String} (h : isPlainName name = true) :
    ∀ c ∈ name.toList, c ≠ '\r' :=
  fun c hc => ne_of_isPlainChar (isPlainChar_of_isPlainName h c hc) (by decide)

theorem foldLineEnds_attributesSource {attributes : List (String × String)}
    (h : ∀ entry ∈ attributes, isPlainName entry.1 = true) (rest : List Char) :
    foldLineEnds (attributesSource attributes ++ rest) =
      attributesSource (foldedAttributes attributes) ++ foldLineEnds rest := by
  induction attributes with
  | nil => rfl
  | cons entry attributes ih =>
    rw [List.forall_mem_cons] at h
    have hfront : ∀ c ∈ ' ' :: (entry.1.toList ++ ['=', '"']), c ≠ '\r' := by
      rw [List.forall_mem_cons, List.forall_mem_append]
      exact ⟨by decide, not_return_of_isPlainName h.1, by decide⟩
    have hvalue := foldLineEnds_sourceOf false entry.2.toList
      ('"' :: (attributesSource attributes ++ rest)) (by simp)
    rw [foldLineEnds_cons_self (by decide), ih h.2] at hvalue
    have hsplit : attributesSource (entry :: attributes) ++ rest =
        ' ' :: (entry.1.toList ++ ['=', '"']) ++ (sourceOf (entry.2.toList.map (pieceOf false)) ++
          '"' :: (attributesSource attributes ++ rest)) := by
      simp [attributesSource, piecesOf]
    rw [hsplit, foldLineEnds_plain hfront, hvalue]
    simp [attributesSource, piecesOf, foldedAttributes, foldedText]

theorem writeNodes_foldedTexts (inCode : Bool) (cs : List Char) :
    (writeNodes inCode (foldedTexts cs)).toList =
      sourceOf ((foldLineEnds cs).map (pieceOf inCode)) := by
  unfold foldedTexts
  split
  · rename_i hnone
    rw [hnone]
    rfl
  · rw [writeNodes, writeNodes, String.append_empty, toList_writeText, piecesOf,
      String.toList_ofList]

mutual

theorem foldLineEnds_writeNode (inCode : Bool) :
    ∀ node : Html, Proper node → isTag node = true → ∀ rest,
      foldLineEnds ((writeNode inCode node).toList ++ rest) =
        (writeNode inCode (folded node)).toList ++ foldLineEnds rest
  | .text _, _, htag, _ => nomatch htag
  | .element name attributes children, h, _, rest => by
    rw [Proper] at h
    obtain ⟨hname, hattributes, hvoid, hchildren⟩ := h
    have hfront : ∀ c ∈ '<' :: name.toList, c ≠ '\r' := by
      rw [List.forall_mem_cons]
      exact ⟨by decide, not_return_of_isPlainName hname⟩
    have hend : ∀ c ∈ '<' :: '/' :: (name.toList ++ ['>']), c ≠ '\r' := by
      rw [List.forall_mem_cons, List.forall_mem_cons, List.forall_mem_append]
      exact ⟨by decide, by decide, not_return_of_isPlainName hname, by decide⟩
    have hentries := foldLineEnds_attributesSource hattributes.1
    rw [folded]
    cases hcase : voidNames.contains name with
    | true =>
      have hsplit : ∀ attributes : List (String × String),
          '<' :: (name.toList ++ (attributesSource attributes ++ ['/', '>'])) ++ rest =
            '<' :: name.toList ++ (attributesSource attributes ++ ('/' :: '>' :: rest)) := by
        simp
      rw [toList_writeVoid hcase, toList_writeVoid hcase, hsplit, foldLineEnds_plain hfront, hentries,
        foldLineEnds_cons_self (by decide), foldLineEnds_cons_self (by decide)]
      simp
    | false =>
      have hinside := foldLineEnds_writeNodes (inCode || isCodeText attributes) children [] hchildren
        ('<' :: '/' :: (name.toList ++ ['>']) ++ rest) (by simp)
      rw [foldLineEnds_plain hend, List.map_nil, show sourceOf [] = [] from rfl, List.nil_append]
        at hinside
      have hsplit : ∀ (attributes : List (String × String)) (inside : List Char),
          '<' :: (name.toList ++ (attributesSource attributes ++ '>' :: (inside ++
            '<' :: '/' :: (name.toList ++ ['>'])))) ++ rest =
          '<' :: name.toList ++ (attributesSource attributes ++ '>' :: (inside ++
            ('<' :: '/' :: (name.toList ++ ['>']) ++ rest))) := by
        simp
      rw [toList_writeElement hcase, toList_writeElement hcase, hsplit, foldLineEnds_plain hfront,
        hentries, foldLineEnds_cons_self (by decide), hinside, isCodeText_folded]
      simp
  | .aside, h, _, _ => nomatch h

theorem foldLineEnds_writeNodes (inCode : Bool) :
    ∀ (nodes : List Html) (pending : List Char), AreProper nodes →
      ∀ rest : List Char, (∀ c ∈ rest.head?, c ≠ '\n') →
      foldLineEnds (sourceOf (pending.map (pieceOf inCode)) ++
          ((writeNodes inCode nodes).toList ++ rest)) =
        (writeNodes inCode (foldedAll pending nodes)).toList ++ foldLineEnds rest
  | [], pending, _, rest, hrest => by
    rw [foldedAll, writeNodes_foldedTexts, writeNodes]
    exact foldLineEnds_sourceOf inCode pending rest hrest
  | .text value :: nodes, pending, h, rest, hrest => by
    rw [AreProper] at h
    have hnodes := foldLineEnds_writeNodes inCode nodes (pending ++ value.toList) h.2 rest hrest
    rw [List.map_append, sourceOf_append, List.append_assoc] at hnodes
    rw [writeNodes, String.toList_append, toList_writeText, foldedAll, ← hnodes, piecesOf,
      List.append_assoc]
  | .element name attributes children :: nodes, pending, h, rest, hrest => by
    rw [AreProper] at h
    have hnode := foldLineEnds_writeNode inCode (.element name attributes children) h.1 rfl
      ((writeNodes inCode nodes).toList ++ rest)
    have hnodes := foldLineEnds_writeNodes inCode nodes [] h.2 rest hrest
    have hhead : ∀ c ∈ ((writeNode inCode (.element name attributes children)).toList ++
        ((writeNodes inCode nodes).toList ++ rest)).head?, c ≠ '\n' := by
      intro c hc
      rw [head?_writeNode inCode name attributes children _ c hc]
      decide
    rw [List.map_nil, show sourceOf [] = [] from rfl, List.nil_append] at hnodes
    rw [writeNodes, String.toList_append, List.append_assoc, foldLineEnds_sourceOf inCode _ _ hhead,
      hnode, hnodes, foldedAll, writeNodes_append, writeNodes, String.toList_append,
      writeNodes_foldedTexts, String.toList_append, List.append_assoc, List.append_assoc]
    nofun
  | .aside :: _, _, h, _, _ => nomatch h.1

end

/-! ## What comes back -/

mutual

theorem proper_folded : ∀ node : Html, Proper node → Proper (folded node)
  | .text _, _ => trivial
  | .element name attributes children, h => by
    rw [Proper] at h
    obtain ⟨hname, hattributes, hvoid, hchildren⟩ := h
    have hkeys : (foldedAttributes attributes).map Prod.fst = attributes.map Prod.fst := by
      simp [foldedAttributes]
    rw [folded, Proper]
    refine ⟨hname, ⟨?_, ?_⟩, ?_, areProper_foldedAll children [] hchildren⟩
    · intro entry hentry
      obtain ⟨original, horiginal, rfl⟩ := List.mem_map.mp hentry
      exact hattributes.1 original horiginal
    · rw [hkeys]
      exact hattributes.2
    · intro hcase
      obtain ⟨hcontains, rfl⟩ := hvoid hcase
      exact ⟨hcontains, rfl⟩
  | .aside, h => nomatch h

theorem areProper_foldedAll : ∀ (nodes : List Html) (pending : List Char), AreProper nodes →
    AreProper (foldedAll pending nodes)
  | [], pending, _ => by
    rw [foldedAll, foldedTexts]
    split
    · trivial
    · exact ⟨trivial, trivial⟩
  | .text value :: nodes, pending, h => by
    rw [AreProper] at h
    rw [foldedAll]
    exact areProper_foldedAll nodes _ h.2
  | .element name attributes children :: nodes, pending, h => by
    rw [AreProper] at h
    have htexts : AreProper (foldedTexts pending) := by
      unfold foldedTexts
      split
      · trivial
      · exact ⟨trivial, trivial⟩
    rw [foldedAll, areProper_append, AreProper]
    · exact ⟨htexts, proper_folded _ h.1, areProper_foldedAll nodes [] h.2⟩
    · nofun
  | .aside :: _, _, h => nomatch h.1

end

theorem plainTexts_foldedTexts (cs : List Char) :
    '\r' ∉ (plainTexts (foldedTexts cs)).toList := by
  unfold foldedTexts
  split
  · simp [plainTexts]
  · simpa [plainTexts, plainText] using not_mem_foldLineEnds cs

mutual

theorem plainText_folded : ∀ node : Html, isTag node = true →
    '\r' ∉ (plainText (folded node)).toList
  | .text _, htag => nomatch htag
  | .element name attributes children, _ => by
    rw [folded, plainText]
    exact plainTexts_foldedAll children []
  | .aside, _ => by simp [folded, plainText]

theorem plainTexts_foldedAll : ∀ (nodes : List Html) (pending : List Char),
    '\r' ∉ (plainTexts (foldedAll pending nodes)).toList
  | [], pending => by
    rw [foldedAll]
    exact plainTexts_foldedTexts pending
  | .text value :: nodes, pending => by
    rw [foldedAll]
    exact plainTexts_foldedAll nodes _
  | .element _ _ _ :: nodes, pending | .aside :: nodes, pending => by
    rw [foldedAll, plainTexts_append, plainTexts, String.toList_append, String.toList_append,
      List.mem_append, List.mem_append, not_or, not_or]
    · exact ⟨plainTexts_foldedTexts pending, plainText_folded _ rfl, plainTexts_foldedAll nodes []⟩
    · nofun

end

/-- No carriage return comes back from a page that is read as it is read with its line ends
folded. -/
theorem plainTexts_of_readsFolded {nodes : List Html} (h : AreProper nodes)
    (hlegal : areLegalNodes nodes = true) (hfolded : ReadsFolded (write nodes)) :
    '\r' ∉ (plainTexts (deliveredAll false [] nodes)).toList := by
  have hpage : foldedText (write nodes) = write (foldedAll [] nodes) := by
    have hfold := foldLineEnds_writeNodes false nodes [] h [] nofun
    rw [List.map_nil, show sourceOf [] = [] from rfl, List.nil_append, List.append_nil,
      show foldLineEnds [] = [] from rfl, List.append_nil] at hfold
    refine String.toList_injective ?_
    rw [foldedText, String.toList_ofList]
    exact hfold
  rw [ReadsFolded, hpage, read?_write h, if_pos hlegal,
    read?_write (areProper_foldedAll nodes [] h)] at hfolded
  split at hfolded
  · rw [Option.some.inj hfolded]
    intro hmem
    rcases mem_plainTexts_deliveredAll false _ [] hmem with hc | ⟨piece, hpiece, -⟩ | hmem
    · cases hc
    · cases hpiece
    · exact plainTexts_foldedAll nodes [] hmem
  · cases hfolded

/-! ## Pages without carriage returns -/

/-- Whether no carriage return is in a text. -/
def lacksReturn (value : String) : Bool :=
  value.toList.all (· ≠ '\r')

mutual

/-- Whether no carriage return is in the texts and attribute values of a tree. -/
def nodeLacksReturn : Html → Bool
  | .text value => lacksReturn value
  | .element _ attributes children =>
    (attributes.all fun entry => lacksReturn entry.2) && nodesLackReturn children
  | .aside => true

def nodesLackReturn : List Html → Bool
  | [] => true
  | node :: nodes => nodeLacksReturn node && nodesLackReturn nodes

end

theorem not_return_of_piecesOf (inCode : Bool) {value : String} (h : lacksReturn value = true) :
    ∀ c ∈ sourceOf (piecesOf inCode value), c ≠ '\r' := by
  simp only [lacksReturn, List.all_eq_true, decide_eq_true_eq] at h
  intro c hc
  obtain ⟨piece, hpiece, hc⟩ := List.mem_flatMap.mp hc
  obtain ⟨d, hd, rfl⟩ := List.mem_map.mp hpiece
  exact source_pieceOf_plain inCode (.inl rfl) (h d hd) c hc

theorem not_return_of_attributesSource {attributes : List (String × String)}
    (hnames : ∀ entry ∈ attributes, isPlainName entry.1 = true)
    (h : (attributes.all fun entry => lacksReturn entry.2) = true) :
    ∀ c ∈ attributesSource attributes, c ≠ '\r' := by
  rw [List.all_eq_true] at h
  intro c hc
  obtain ⟨entry, hentry, hc⟩ := List.mem_flatMap.mp hc
  have hname := not_return_of_isPlainName (hnames entry hentry)
  have hvalue := not_return_of_piecesOf false (h entry hentry)
  simp only [List.mem_cons, List.mem_append, List.not_mem_nil, or_false] at hc
  rcases hc with rfl | hc | rfl | rfl | hc | rfl
  · decide
  · exact hname c hc
  · decide
  · decide
  · exact hvalue c hc
  · decide

mutual

/-- What is written for a tree adds no carriage return. -/
theorem not_return_of_writeNode (inCode : Bool) :
    ∀ node : Html, Proper node → nodeLacksReturn node = true →
      ∀ c ∈ (writeNode inCode node).toList, c ≠ '\r'
  | .text value, _, h => by
    rw [toList_writeText]
    exact not_return_of_piecesOf inCode h
  | .element name attributes children, hproper, h => by
    rw [Proper] at hproper
    rw [nodeLacksReturn, Bool.and_eq_true] at h
    have hname := not_return_of_isPlainName hproper.1
    have hattributes := not_return_of_attributesSource hproper.2.1.1 h.1
    have hchildren := not_return_of_writeNodes (inCode || isCodeText attributes) children
      hproper.2.2.2 h.2
    cases hcase : voidNames.contains name with
    | true =>
      rw [toList_writeVoid hcase]
      simp only [List.forall_mem_cons, List.forall_mem_append]
      exact ⟨by decide, hname, hattributes, by decide⟩
    | false =>
      rw [toList_writeElement hcase]
      simp only [List.forall_mem_cons, List.forall_mem_append]
      exact ⟨by decide, hname, hattributes, by decide, hchildren, by decide, by decide, hname,
        by decide⟩
  | .aside, hproper, _ => nomatch hproper

theorem not_return_of_writeNodes (inCode : Bool) :
    ∀ nodes : List Html, AreProper nodes → nodesLackReturn nodes = true →
      ∀ c ∈ (writeNodes inCode nodes).toList, c ≠ '\r'
  | [], _, _ => by simp [writeNodes]
  | node :: nodes, hproper, h => by
    rw [AreProper] at hproper
    rw [nodesLackReturn, Bool.and_eq_true] at h
    rw [writeNodes, String.toList_append, List.forall_mem_append]
    exact ⟨not_return_of_writeNode inCode node hproper.1 h.1,
      not_return_of_writeNodes inCode nodes hproper.2 h.2⟩

end

/-- The page of a tree without carriage returns has no line ends to fold. -/
theorem readsFolded_write {nodes : List Html} (hproper : AreProper nodes)
    (h : nodesLackReturn nodes = true) : ReadsFolded (write nodes) := by
  have hfold := foldLineEnds_plain (not_return_of_writeNodes false nodes hproper h) []
  rw [show foldLineEnds [] = [] from rfl, List.append_nil] at hfold
  rw [ReadsFolded, foldedText, write, hfold, String.ofList_toList]

end ChatMarkup.Html

import ChatMarkup.Html.Token
import ChatMarkup.Proofs.Html.Writing

/-!
# Reading what was written

What was written for a text is read back piece by piece, and what was written for a tag is read back
as its name and attributes. The reader changes line ends, those in attribute values to spaces; it
refuses only characters that no document may hold.

* `readToken_text`, `readToken_opening`, `readToken_closing`: the first token of what is written.
-/

namespace ChatMarkup.Html

/-! ## Pieces -/

theorem piecesFrom_source {piece : Piece} (h : piece.IsWritten) (rest : List Char) :
    piecesFrom none (piece.source ++ rest) = (piecesFrom none rest).map (piece :: ·) := by
  rcases h.cases with ⟨c, hc, rfl⟩ | ⟨c, rfl, hamp, -⟩
  · simp only [referredChars, List.mem_cons, List.not_mem_nil, or_false] at hc
    rcases hc with rfl | rfl | rfl | rfl | rfl <;> rfl
  · rw [Piece.source, List.singleton_append, piecesFrom, if_neg hamp]

theorem pieces?_sourceOf {pieces : List Piece} (h : ∀ piece ∈ pieces, piece.IsWritten) :
    pieces? (sourceOf pieces) = some pieces := by
  rw [pieces?]
  induction pieces with
  | nil => rfl
  | cons piece pieces ih =>
    rw [List.forall_mem_cons] at h
    rw [show sourceOf (piece :: pieces) = piece.source ++ sourceOf pieces from rfl,
      piecesFrom_source h.1, ih h.2]
    rfl

/-! ## Texts -/

/-- What lacks one of the characters of a mark does not hold the mark. -/
theorem occurs_eq_false {mark : List Char} {c : Char} (hc : c ∈ mark) {cs : List Char}
    (h : ∀ d ∈ cs, d ≠ c) : occurs mark cs = false := by
  induction cs with
  | nil =>
    rw [occurs, List.isEmpty_eq_false_iff]
    exact List.ne_nil_of_mem hc
  | cons d cs ih =>
    have hprefix : mark.isPrefixOf (d :: cs) = false := by
      rw [Bool.eq_false_iff]
      intro hprefix
      exact h c ((List.isPrefixOf_iff_prefix.mp hprefix).subset hc) rfl
    rw [occurs, hprefix, ih (List.forall_mem_cons.mp h).2]
    rfl

theorem takeWhile_of_head {p : Char → Bool} {cs rest : List Char} (h : ∀ c ∈ cs, p c = true)
    (hrest : ∀ c ∈ rest.head?, p c = false) : (cs ++ rest).takeWhile p = cs := by
  rw [List.takeWhile_append_of_pos h]
  cases rest with
  | nil => simp
  | cons c rest => simp [hrest c rfl]

theorem dropWhile_of_head {p : Char → Bool} {cs rest : List Char} (h : ∀ c ∈ cs, p c = true)
    (hrest : ∀ c ∈ rest.head?, p c = false) : (cs ++ rest).dropWhile p = rest := by
  rw [List.dropWhile_append_of_pos h]
  cases rest with
  | nil => rfl
  | cons c rest => simp [hrest c rfl]

/-- A text is read up to the next tag. -/
theorem readText_sourceOf {pieces : List Piece} (h : ∀ piece ∈ pieces, piece.IsWritten)
    {rest : List Char} (hrest : ∀ c ∈ rest.head?, c = '<') :
    readText (sourceOf pieces ++ rest) =
      if (sourceOf pieces).all isLegal then some (.text (foldPieces false pieces), rest)
      else none := by
  have hplain : ∀ c ∈ sourceOf pieces, decide (c ≠ '<') = true := fun c hc =>
    decide_eq_true (mem_sourceOf h c hc).1
  have hstop : ∀ c ∈ rest.head?, decide (c ≠ '<') = false := fun c hc => by
    rw [hrest c hc]
    rfl
  have hmark : occurs "]]>".toList (sourceOf pieces) = false :=
    occurs_eq_false (show '>' ∈ "]]>".toList by decide) fun c hc => (mem_sourceOf h c hc).2.1
  rw [readText]
  simp only [takeWhile_of_head hplain hstop, dropWhile_of_head hplain hstop, hmark, textOf?,
    pieces?_sourceOf h, Bool.not_false, Bool.and_true, Option.map_some]

/-! ## Names -/

/-- Whether a name can stand in a tag without a qualifier. -/
def isSimpleName (name : String) : Bool :=
  name.toList.head?.any isNameStart && name.toList.all isNameChar

theorem isNameChar_of_isPlainChar {c : Char} (h : isPlainChar c = true) : isNameChar c = true := by
  have hrange := toNat_of_isPlainChar h
  simp only [isNameChar, isNameStart, inRanges, nameStartRanges, nameMoreRanges,
    List.any_cons, List.any_nil, Bool.or_eq_true, Bool.and_eq_true, decide_eq_true_eq]
  omega

theorem isNameStart_of_isAlpha {c : Char} (h : c.isAlpha = true) : isNameStart c = true := by
  have hrange := toNat_of_isAlpha h
  simp only [isNameStart, inRanges, nameStartRanges, List.any_cons, List.any_nil, Bool.or_eq_true,
    Bool.and_eq_true, decide_eq_true_eq]
  omega

theorem isSimpleName_of_isPlainName {name : String} (h : isPlainName name = true) :
    isSimpleName name = true := by
  have hall : name.toList.all isNameChar = true :=
    List.all_eq_true.mpr fun c hc => isNameChar_of_isPlainChar (isPlainChar_of_isPlainName h c hc)
  simp only [isPlainName, Bool.and_eq_true] at h
  rw [isSimpleName, hall, Bool.and_true]
  cases hname : name.toList with
  | nil =>
    rw [hname] at h
    cases h.1.1
  | cons c cs =>
    rw [hname] at h
    exact isNameStart_of_isAlpha h.1.1

/-- How a simple name starts and goes on. -/
theorem exists_cons_of_isSimpleName {name : String} (h : isSimpleName name = true) :
    ∃ c cs, name.toList = c :: cs ∧ isNameStart c = true ∧ ∀ d ∈ c :: cs, isNameChar d = true := by
  rw [isSimpleName, Bool.and_eq_true, List.all_eq_true] at h
  cases hname : name.toList with
  | nil =>
    rw [hname] at h
    cases h.1
  | cons c cs =>
    rw [hname] at h
    exact ⟨c, cs, rfl, h⟩

theorem ne_of_isNameChar {c d : Char} (hc : isNameChar c = true) (hd : isNameChar d = false) :
    c ≠ d := by
  rintro rfl
  rw [hd] at hc
  cases hc

/-- A name without a qualifier. -/
def Name.plain (name : String) : Name := ⟨"", name⟩

theorem ofChars?_simple {name : String} (h : isSimpleName name = true) :
    Name.ofChars? name.toList = some (.plain name) := by
  obtain ⟨c, cs, hname, hstart, hall⟩ := exists_cons_of_isSimpleName h
  have hcolon : ∀ c ∈ name.toList, decide (c ≠ ':') = true := fun c hc =>
    decide_eq_true (ne_of_isNameChar (hall c (hname ▸ hc)) (by decide))
  have hnone : ∀ c ∈ ([] : List Char).head?, decide (c ≠ ':') = false := nofun
  have htake := takeWhile_of_head hcolon hnone
  have hdrop := dropWhile_of_head hcolon hnone
  rw [List.append_nil] at htake hdrop
  have hstarts : name.toList ≠ [] ∧ Name.startsWell name.toList = true := by
    rw [hname]
    exact ⟨nofun, hstart⟩
  rw [Name.ofChars?, htake, hdrop]
  simp only [if_pos hstarts, String.ofList_toList]
  rfl

theorem readName_simple {name : String} (h : isSimpleName name = true) {d : Char}
    (hd : isNamePart d = false) (rest : List Char) :
    readName (name.toList ++ d :: rest) = some (.plain name, d :: rest) := by
  obtain ⟨c, cs, hname, -, hall⟩ := exists_cons_of_isSimpleName h
  have hparts : ∀ c ∈ name.toList, isNamePart c = true := fun c hc => by
    rw [isNamePart, hall c (hname ▸ hc), Bool.true_or]
  have hstop : ∀ c ∈ (d :: rest).head?, isNamePart c = false := by
    intro c hc
    cases hc
    exact hd
  rw [readName, takeWhile_of_head hparts hstop, dropWhile_of_head hparts hstop, ofChars?_simple h]
  rfl

/-! ## Attribute values -/

/-- The value of an attribute as it is read back. -/
def spacedValue (value : String) : String :=
  String.ofList (spaceLineEnds value.toList)

theorem foldLineEnds_plain {cs : List Char} (h : ∀ c ∈ cs, c ≠ '\r') (rest : List Char) :
    foldLineEnds (cs ++ rest) = cs ++ foldLineEnds rest := by
  induction cs with
  | nil => rfl
  | cons c cs ih =>
    rw [List.forall_mem_cons] at h
    rw [List.cons_append, foldLineEnds, ih h.2, List.cons_append]
    · rintro _ rfl
      exact absurd rfl h.1
    · rintro rfl
      exact absurd rfl h.1

theorem foldLineEnds_cons_self {c : Char} (hc : c ≠ '\r') (cs : List Char) :
    foldLineEnds (c :: cs) = c :: foldLineEnds cs :=
  foldLineEnds_plain (List.forall_mem_singleton.mpr hc) cs

/-- A carriage return is a line end of its own unless it stands in front of a line feed. -/
theorem foldLineEnds_cons_return (cs : List Char) :
    foldLineEnds ('\r' :: cs) =
      if cs.head? = some '\n' then foldLineEnds cs else '\n' :: foldLineEnds cs := by
  cases cs with
  | nil => rfl
  | cons d cs =>
    by_cases hd : d = '\n'
    · subst hd
      rw [List.head?_cons, if_pos rfl, foldLineEnds_cons_self (show '\n' ≠ '\r' by decide),
        foldLineEnds]
    · rw [List.head?_cons, if_neg (by simpa using hd), foldLineEnds]
      rintro _ hcs
      exact hd (List.cons.inj hcs).1

/-- Changing line feeds and tabs to spaces in the source of a character changes the character. -/
theorem map_source_pieceOf (c : Char) :
    (pieceOf false c).source.map (fun d => if d = '\n' || d = '\t' then ' ' else d) =
      (pieceOf false (if c = '\n' || c = '\t' then ' ' else c)).source := by
  rcases (isWritten_pieceOf false c).cases with ⟨d, hd, hpiece⟩ | ⟨d, hpiece, -⟩
  · have hchar : d = c := by
      rw [← char_pieceOf false c, hpiece]
      rfl
    subst hchar
    simp only [referredChars, List.mem_cons, List.not_mem_nil, or_false] at hd
    rcases hd with rfl | rfl | rfl | rfl | rfl <;> decide
  · have hchar : d = c := by
      rw [← char_pieceOf false c, hpiece]
      rfl
    subst hchar
    rw [hpiece, Piece.source, List.map_singleton]
    by_cases hblank : (d = '\n' || d = '\t') = true
    · rw [if_pos hblank]
      rfl
    · rw [if_neg hblank, hpiece]
      rfl

theorem Piece.IsWritten.source_ne_nil {piece : Piece} (h : piece.IsWritten) :
    piece.source ≠ [] := by
  rcases h.cases with ⟨c, hc, rfl⟩ | ⟨c, rfl, -⟩
  · have hall : ∀ c ∈ referredChars, (Piece.referred c).source ≠ [] := by decide
    exact hall c hc
  · exact List.cons_ne_nil c []

/-- Only a line end is written with one. -/
theorem source_pieceOf_plain (inCode : Bool) {c e : Char} (he : e = '\r' ∨ e = '\n') (hc : c ≠ e) :
    ∀ d ∈ (pieceOf inCode c).source, d ≠ e := by
  rcases (isWritten_pieceOf inCode c).cases with ⟨d, hd, hpiece⟩ | ⟨d, hpiece, -⟩
  · rw [hpiece]
    simp only [referredChars, List.mem_cons, List.not_mem_nil, or_false] at hd
    rcases he with rfl | rfl <;> rcases hd with rfl | rfl | rfl | rfl | rfl <;> decide
  · have hchar : d = c := by
      rw [← char_pieceOf inCode c, hpiece]
      rfl
    rw [hpiece, hchar, Piece.source, List.forall_mem_singleton]
    exact hc

/-- A written text starts with a line feed if the text does. -/
theorem head?_sourceOf (inCode : Bool) (cs : List Char) :
    (sourceOf (cs.map (pieceOf inCode))).head? = some '\n' ↔ cs.head? = some '\n' := by
  cases cs with
  | nil => rfl
  | cons c cs =>
    rw [List.map_cons, List.head?_cons, show sourceOf (pieceOf inCode c :: cs.map (pieceOf inCode)) =
      (pieceOf inCode c).source ++ sourceOf (cs.map (pieceOf inCode)) from rfl]
    by_cases hc : c = '\n'
    · subst hc
      simp [pieceOf, isReferred, Piece.source]
    · have hplain := source_pieceOf_plain inCode (.inr rfl) hc
      have hne := (isWritten_pieceOf inCode c).source_ne_nil
      cases hlist : (pieceOf inCode c).source with
      | nil => exact absurd hlist hne
      | cons d ds =>
        rw [hlist, List.forall_mem_cons] at hplain
        simp [hc, hplain.1]

/-- Line ends are folded in a written text as in the text itself. -/
theorem foldLineEnds_sourceOf (inCode : Bool) (cs rest : List Char)
    (hrest : ∀ c ∈ rest.head?, c ≠ '\n') :
    foldLineEnds (sourceOf (cs.map (pieceOf inCode)) ++ rest) =
      sourceOf ((foldLineEnds cs).map (pieceOf inCode)) ++ foldLineEnds rest := by
  induction cs with
  | nil => rfl
  | cons c cs ih =>
    have hsplit : ∀ (c : Char) (cs : List Char), sourceOf ((c :: cs).map (pieceOf inCode)) =
        (pieceOf inCode c).source ++ sourceOf (cs.map (pieceOf inCode)) := fun c cs => rfl
    rw [hsplit, List.append_assoc]
    by_cases hc : c = '\r'
    · subst hc
      have hhead : (sourceOf (cs.map (pieceOf inCode)) ++ rest).head? = some '\n' ↔
          cs.head? = some '\n' := by
        rw [← head?_sourceOf inCode cs]
        cases sourceOf (cs.map (pieceOf inCode)) with
        | nil => exact ⟨fun h => absurd rfl (hrest _ h), nofun⟩
        | cons => rfl
      have hself : (pieceOf inCode '\r').source = ['\r'] := by cases inCode <;> rfl
      rw [hself, List.singleton_append, foldLineEnds_cons_return, foldLineEnds_cons_return, ih]
      simp only [hhead]
      split
      · rfl
      · rw [hsplit, show (pieceOf inCode '\n').source = ['\n'] by cases inCode <;> rfl]
        rfl
    · rw [foldLineEnds_plain (source_pieceOf_plain inCode (.inl rfl) hc), ih,
        foldLineEnds_cons_self hc, hsplit, List.append_assoc]

theorem spaceLineEnds_sourceOf (cs : List Char) :
    spaceLineEnds (sourceOf (cs.map (pieceOf false))) =
      sourceOf ((spaceLineEnds cs).map (pieceOf false)) := by
  have hfold := foldLineEnds_sourceOf false cs [] nofun
  rw [List.append_nil, show foldLineEnds [] = [] from rfl, List.append_nil] at hfold
  rw [spaceLineEnds, hfold, spaceLineEnds]
  generalize foldLineEnds cs = cs
  simp only [sourceOf, List.map_flatMap, List.flatMap_map, List.map_map, Function.comp_def,
    map_source_pieceOf]

theorem valueOf?_sourceOf (value : String) :
    valueOf? (sourceOf (piecesOf false value)) = some (spaceLineEnds value.toList) := by
  have hwritten : ∀ piece ∈ (spaceLineEnds value.toList).map (pieceOf false), piece.IsWritten := by
    intro piece hpiece
    obtain ⟨c, -, rfl⟩ := List.mem_map.mp hpiece
    exact isWritten_pieceOf false c
  rw [valueOf?, piecesOf, spaceLineEnds_sourceOf, pieces?_sourceOf hwritten]
  simp [Function.comp_def]

theorem readValue_sourceOf (value : String) (rest : List Char) :
    readValue '"' (sourceOf (piecesOf false value) ++ '"' :: rest) =
      if (sourceOf (piecesOf false value)).all isLegal then some (spacedValue value, rest)
      else none := by
  have hinside : ∀ c ∈ sourceOf (piecesOf false value), (c ≠ '"' && c ≠ '<') = true := by
    intro c hc
    have hmem := mem_sourceOf (isWritten_piecesOf false value) c hc
    simp [hmem.1, hmem.2.2]
  have hstop : ∀ c ∈ ('"' :: rest).head?, (c ≠ '"' && c ≠ '<') = false := by
    intro c hc
    cases hc
    rfl
  rw [readValue]
  simp only [takeWhile_of_head hinside hstop, dropWhile_of_head hinside hstop, decide_true,
    Bool.true_and, valueOf?_sourceOf, Option.map_some]
  rfl

/-! ## Attributes -/

theorem isTagBlank_of_isPlainChar {c : Char} (h : isPlainChar c = true) : isTagBlank c = false := by
  simp only [isTagBlank, Bool.or_eq_false_iff, decide_eq_false_iff_not]
  exact ⟨⟨⟨ne_of_isPlainChar h (by decide), ne_of_isPlainChar h (by decide)⟩,
    ne_of_isPlainChar h (by decide)⟩, ne_of_isPlainChar h (by decide)⟩

theorem skipTagBlanks_cons {c : Char} (h : isTagBlank c = false) (cs : List Char) :
    skipTagBlanks (c :: cs) = c :: cs := by
  rw [skipTagBlanks, List.dropWhile_cons_of_neg (by simp [h])]

theorem readAttribute_written {entry : String × String} (h : isPlainName entry.1 = true)
    (rest : List Char) :
    readAttribute (entry.1.toList ++ '=' :: '"' :: (sourceOf (piecesOf false entry.2) ++ '"' :: rest)) =
      if (sourceOf (piecesOf false entry.2)).all isLegal then
        some ((.plain entry.1, spacedValue entry.2), rest)
      else none := by
  rw [readAttribute, readName_simple (isSimpleName_of_isPlainName h) (by decide)]
  simp only [Option.bind_some]
  rw [skipTagBlanks_cons (by decide)]
  simp only
  rw [skipTagBlanks_cons (by decide)]
  simp only [decide_true, Bool.true_or, if_true]
  rw [readValue_sourceOf]
  split <;> rfl

/-- The end of a tag, which may close the element. -/
def tagEnd (closed : Bool) : List Char :=
  if closed then ['/', '>'] else ['>']

/-- The attributes of a tag as they are read back. -/
def readBack (attributes : List (String × String)) : List (Name × String) :=
  attributes.map fun entry => (.plain entry.1, spacedValue entry.2)

theorem attributesSource_cons (entry : String × String) (attributes : List (String × String))
    (rest : List Char) :
    attributesSource (entry :: attributes) ++ rest =
      ' ' :: (entry.1.toList ++ '=' :: '"' :: (sourceOf (piecesOf false entry.2) ++ '"' ::
        (attributesSource attributes ++ rest))) := by
  simp [attributesSource]

/-- The characters of names may stand in a document. -/
theorem isLegal_of_isNameChar {c : Char} (h : isNameChar c = true) : isLegal c = true := by
  simp only [isNameChar, isNameStart, inRanges, nameStartRanges, nameMoreRanges,
    List.any_cons, List.any_nil, Bool.or_false, Bool.or_eq_true, Bool.and_eq_true,
    decide_eq_true_eq] at h
  simp only [isLegal, Bool.or_eq_true, Bool.and_eq_true, decide_eq_true_eq]
  omega

theorem all_isLegal_name {name : String} (h : isSimpleName name = true) :
    name.toList.all isLegal = true := by
  obtain ⟨c, cs, hname, -, hall⟩ := exists_cons_of_isSimpleName h
  rw [hname]
  exact List.all_eq_true.mpr fun d hd => isLegal_of_isNameChar (hall d hd)

theorem all_isLegal_attributesSource_cons {entry : String × String}
    (h : isPlainName entry.1 = true) (attributes : List (String × String)) :
    (attributesSource (entry :: attributes)).all isLegal =
      ((sourceOf (piecesOf false entry.2)).all isLegal &&
        (attributesSource attributes).all isLegal) := by
  have hcons := attributesSource_cons entry attributes []
  rw [List.append_nil, List.append_nil] at hcons
  simp [hcons, all_isLegal_name (isSimpleName_of_isPlainName h), show isLegal ' ' = true by decide,
    show isLegal '=' = true by decide, show isLegal '"' = true by decide]

/-- Behind a blank stands an attribute, if no tag ends there. -/
theorem readAttributes_blank {c : Char} (hc : isPlainChar c = true) (cs : List Char) :
    readAttributes (' ' :: c :: cs) =
      (readAttribute (c :: cs)).bind fun (entry, rest) =>
        (readAttributes rest).map fun ((entries, closed), rest) =>
          ((entry :: entries, closed), rest) := by
  have hskip : skipTagBlanks (' ' :: c :: cs) = c :: cs := by
    rw [skipTagBlanks, List.dropWhile_cons_of_pos (by decide)]
    exact skipTagBlanks_cons (isTagBlank_of_isPlainChar hc) cs
  have hblank : (' ' :: c :: cs).head?.any isTagBlank = true := rfl
  rw [readAttributes]
  split
  · rename_i heq
    rw [hskip] at heq
    exact absurd (List.cons.inj heq).1 (ne_of_isPlainChar hc (by decide))
  · rename_i heq
    rw [hskip] at heq
    exact absurd (List.cons.inj heq).1 (ne_of_isPlainChar hc (by decide))
  · rw [if_pos hblank]
    split
    · rename_i hread
      rw [hskip] at hread
      rw [hread, Option.bind_none]
    · rename_i hread
      rw [hskip] at hread
      rw [hread, Option.bind_some]

theorem readAttributes_written {attributes : List (String × String)}
    (h : ∀ entry ∈ attributes, isPlainName entry.1 = true) (closed : Bool) (rest : List Char) :
    readAttributes (attributesSource attributes ++ (tagEnd closed ++ rest)) =
      if (attributesSource attributes).all isLegal then some ((readBack attributes, closed), rest)
      else none := by
  induction attributes with
  | nil =>
    cases closed <;>
    · rw [readAttributes]
      rfl
  | cons entry attributes ih =>
    rw [List.forall_mem_cons] at h
    obtain ⟨c, cs, hname, -⟩ := exists_cons_of_isSimpleName (isSimpleName_of_isPlainName h.1)
    have hc : isPlainChar c = true :=
      isPlainChar_of_isPlainName h.1 c (hname ▸ List.mem_cons_self)
    have hread := readAttribute_written h.1 (attributesSource attributes ++ (tagEnd closed ++ rest))
    rw [hname, List.cons_append] at hread
    rw [attributesSource_cons, hname, List.cons_append, readAttributes_blank hc, hread,
      all_isLegal_attributesSource_cons h.1]
    cases (sourceOf (piecesOf false entry.2)).all isLegal with
    | false => rfl
    | true =>
      simp only [if_true, Option.bind_some, ih h.2, Bool.true_and]
      split <;> rfl

/-! ## Tokens -/

theorem tagEnd_cons (closed : Bool) (rest : List Char) :
    ∃ d more, isNamePart d = false ∧ tagEnd closed ++ rest = d :: more := by
  cases closed with
  | false => exact ⟨'>', rest, by decide, rfl⟩
  | true => exact ⟨'/', '>' :: rest, by decide, rfl⟩

/-- Behind the name of a tag stands no part of a name. -/
theorem attributesSource_stops (attributes : List (String × String)) (closed : Bool)
    (rest : List Char) :
    ∃ d more, isNamePart d = false ∧
      attributesSource attributes ++ (tagEnd closed ++ rest) = d :: more := by
  rcases attributesSource_cases attributes with hnone | ⟨inner, hsome⟩
  · rw [hnone]
    exact tagEnd_cons closed rest
  · rw [hsome]
    exact ⟨' ', _, by decide, rfl⟩

theorem sourceOf_ne_nil {pieces : List Piece} (hne : pieces ≠ [])
    (h : ∀ piece ∈ pieces, piece.IsWritten) : sourceOf pieces ≠ [] := by
  cases pieces with
  | nil => exact absurd rfl hne
  | cons piece pieces =>
    exact List.append_ne_nil_of_left_ne_nil (h piece List.mem_cons_self).source_ne_nil _

theorem readToken_text {pieces : List Piece} (hne : pieces ≠ [])
    (h : ∀ piece ∈ pieces, piece.IsWritten) {rest : List Char} (hrest : ∀ c ∈ rest.head?, c = '<') :
    readToken (sourceOf pieces ++ rest) =
      if (sourceOf pieces).all isLegal then some (.text (foldPieces false pieces), rest)
      else none := by
  cases hsource : sourceOf pieces with
  | nil => exact absurd hsource (sourceOf_ne_nil hne h)
  | cons c cs =>
    have hc : c ≠ '<' := (mem_sourceOf h c (hsource ▸ List.mem_cons_self)).1
    have hread := readText_sourceOf h hrest
    rw [hsource] at hread
    rw [← hread, List.cons_append, readToken, if_neg hc]

theorem readToken_opening {name : String} (hname : isSimpleName name = true)
    {attributes : List (String × String)} (h : AreProperAttributes attributes) (closed : Bool)
    (rest : List Char) :
    readToken ('<' :: (name.toList ++ (attributesSource attributes ++ (tagEnd closed ++ rest)))) =
      if (attributesSource attributes).all isLegal then
        some (.opening (.plain name) (readBack attributes) closed, rest)
      else none := by
  obtain ⟨c, cs, hsplit, hstart, -⟩ := exists_cons_of_isSimpleName hname
  have hopening : ∀ more, readToken ('<' :: (name.toList ++ more)) =
      readOpening (name.toList ++ more) := by
    intro more
    rw [readToken, if_pos rfl, hsplit, List.cons_append, readMarked]
    all_goals
      rintro _ hmark
      rw [(List.cons.inj hmark).1] at hstart
      exact absurd hstart (by decide)
  obtain ⟨d, more, hd, hstops⟩ := attributesSource_stops attributes closed rest
  have hread := readAttributes_written h.1 closed rest
  rw [hopening, readOpening]
  rw [hstops] at hread ⊢
  rw [readName_simple hname hd, Option.bind_some]
  simp only [hread]
  split <;> rfl

theorem readToken_closing {name : String} (hname : isSimpleName name = true) (rest : List Char) :
    readToken ('<' :: '/' :: (name.toList ++ '>' :: rest)) = some (.closing (.plain name), rest) := by
  rw [readToken, if_pos rfl, readMarked, readClosing, readName_simple hname (by decide)]
  rfl

end ChatMarkup.Html

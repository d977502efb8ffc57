import ChatMarkup.Html.Basic
import ChatMarkup.Html.Browser
import ChatMarkup.Html.Character
import ChatMarkup.Html.Name

/-!
# HTML as it is written

A text is written piece by piece: a character as it is, or as a reference to it. No bracket and no
double quote is left in it, so that brackets stand only at tags, and what was written by the program
is not changed on its way into the reader.

* `toList_escape`, `toList_escapeCode`: a written text as its pieces;
* `Proper`: trees whose names can be written;
* `ofBrowser_write`: what is written for a proper tree is well-formed already.
-/

namespace ChatMarkup.Html

/-! ## Pieces of a written text -/

/-- Whether a character is written as a reference. -/
def isReferred (inCode : Bool) (c : Char) : Bool :=
  c = '&' || c = '<' || c = '>' || c = '"' || (inCode && c = '\'')

/-- A character as it is written inside the text of a code block or outside. -/
def pieceOf (inCode : Bool) (c : Char) : Piece :=
  if isReferred inCode c then .referred c else .written c

/-- The pieces of a text. -/
def piecesOf (inCode : Bool) (text : String) : List Piece :=
  text.toList.map (pieceOf inCode)

/-- The characters that a piece is written with. -/
def Piece.source : Piece → List Char
  | written c => [c]
  | referred c => (escapeCodeChar c).toList

/-- The characters that pieces are written with. -/
def sourceOf (pieces : List Piece) : List Char :=
  pieces.flatMap Piece.source

/-- A piece that is written in some text. -/
def Piece.IsWritten (piece : Piece) : Prop :=
  ∃ inCode c, piece = pieceOf inCode c

/-- The characters that can be written as references. -/
def referredChars : List Char := ['&', '<', '>', '"', '\'']

/-- A piece is a reference to one of a few characters, or a character that needs none. -/
theorem Piece.IsWritten.cases {piece : Piece} (h : piece.IsWritten) :
    (∃ c ∈ referredChars, piece = .referred c) ∨
      ∃ c, piece = .written c ∧ c ≠ '&' ∧ c ≠ '<' ∧ c ≠ '>' ∧ c ≠ '"' := by
  obtain ⟨inCode, c, rfl⟩ := h
  rw [pieceOf]
  split
  · rename_i hreferred
    simp only [isReferred, Bool.or_eq_true, Bool.and_eq_true, decide_eq_true_eq] at hreferred
    refine .inl ⟨c, ?_, rfl⟩
    rcases hreferred with (((rfl | rfl) | rfl) | rfl) | ⟨-, rfl⟩ <;> decide
  · rename_i hplain
    simp only [isReferred, Bool.or_eq_true, decide_eq_true_eq, not_or] at hplain
    exact .inr ⟨c, rfl, hplain.1.1.1.1, hplain.1.1.1.2, hplain.1.1.2, hplain.1.2⟩

theorem isWritten_pieceOf (inCode : Bool) (c : Char) : (pieceOf inCode c).IsWritten :=
  ⟨inCode, c, rfl⟩

theorem isWritten_piecesOf (inCode : Bool) (text : String) :
    ∀ piece ∈ piecesOf inCode text, piece.IsWritten := by
  intro piece hpiece
  obtain ⟨c, -, rfl⟩ := List.mem_map.mp hpiece
  exact isWritten_pieceOf inCode c

@[simp]
theorem char_pieceOf (inCode : Bool) (c : Char) : (pieceOf inCode c).char = c := by
  rw [pieceOf]
  split <;> rfl

theorem map_char_piecesOf (inCode : Bool) (text : String) :
    (piecesOf inCode text).map Piece.char = text.toList := by
  simp [piecesOf, Function.comp_def]

theorem escapeCodeChar_eq {c : Char} (hc : c ≠ '\'') : escapeCodeChar c = escapeChar c := by
  unfold escapeCodeChar
  split
  · exact absurd rfl hc
  · rfl

theorem escapeChar_eq {c : Char} (h : isReferred false c = false) : escapeChar c = c.toString := by
  simp only [isReferred, Bool.false_and, Bool.or_false, Bool.or_eq_false_iff,
    decide_eq_false_iff_not] at h
  obtain ⟨⟨⟨hamp, hless⟩, hgreater⟩, hquote⟩ := h
  unfold escapeChar
  split
  all_goals first | rfl | contradiction

theorem source_pieceOf_false (c : Char) : (pieceOf false c).source = (escapeChar c).toList := by
  rw [pieceOf]
  split
  · rename_i hreferred
    refine congrArg String.toList (escapeCodeChar_eq ?_)
    rintro rfl
    exact absurd hreferred (by decide)
  · rename_i hplain
    rw [escapeChar_eq (Bool.eq_false_iff.mpr hplain), Piece.source]
    simp

theorem source_pieceOf_true (c : Char) : (pieceOf true c).source = (escapeCodeChar c).toList := by
  rw [pieceOf]
  split
  · rfl
  · rename_i hplain
    simp only [isReferred, Bool.true_and, Bool.or_eq_true, decide_eq_true_eq, not_or] at hplain
    have hfalse : isReferred false c = false := by
      simp [isReferred, hplain]
    rw [escapeCodeChar_eq hplain.2, escapeChar_eq hfalse, Piece.source]
    simp

theorem toList_escape (text : String) : (escape text).toList = sourceOf (piecesOf false text) := by
  simp [escape, sourceOf, piecesOf, List.flatMap_map, source_pieceOf_false]

theorem toList_escapeCode (text : String) :
    (escapeCode text).toList = sourceOf (piecesOf true text) := by
  simp [escapeCode, sourceOf, piecesOf, List.flatMap_map, source_pieceOf_true]

theorem sourceOf_append (xs ys : List Piece) : sourceOf (xs ++ ys) = sourceOf xs ++ sourceOf ys :=
  List.flatMap_append

/-- No bracket and no double quote is left in a written text. -/
theorem mem_sourceOf {pieces : List Piece} (h : ∀ piece ∈ pieces, piece.IsWritten) :
    ∀ c ∈ sourceOf pieces, c ≠ '<' ∧ c ≠ '>' ∧ c ≠ '"' := by
  intro c hc
  obtain ⟨piece, hpiece, hc⟩ := List.mem_flatMap.mp hc
  rcases (h piece hpiece).cases with ⟨d, hd, rfl⟩ | ⟨d, rfl, -, hless, hgreater, hquote⟩
  · have hall : ∀ d ∈ referredChars, ∀ c ∈ (Piece.referred d).source,
        c ≠ '<' ∧ c ≠ '>' ∧ c ≠ '"' := by
      decide
    exact hall d hd c hc
  · cases List.mem_singleton.mp hc
    exact ⟨hless, hgreater, hquote⟩

/-! ## Proper trees -/

/-- The characters of plain names. -/
def isPlainChar (c : Char) : Bool :=
  c.isAlphanum || c = '-' || c = '_'

/-- A name of letters, digits and strokes, without a qualifier. -/
def isPlainName (name : String) : Bool :=
  name.toList.head?.any Char.isAlpha && name.toList.all isPlainChar && name ≠ "xmlns"

/-- Attributes with plain names that are all different. -/
def AreProperAttributes (attributes : List (String × String)) : Prop :=
  (∀ entry ∈ attributes, isPlainName entry.1 = true) ∧ (attributes.map Prod.fst).Nodup

instance (attributes : List (String × String)) : Decidable (AreProperAttributes attributes) :=
  inferInstanceAs (Decidable ((∀ entry ∈ attributes, isPlainName entry.1 = true) ∧ _))

/-- Whether a name is that of a void element, in small letters or capitals. -/
def isVoid (name : String) : Bool :=
  voidNames.any fun void => name.toList.map Char.toLower = void.toList

mutual

/-- A tree whose names can be written, and whose void elements are empty and have their names in
small letters. -/
def Proper : Html → Prop
  | .text _ => True
  | .element name attributes children =>
    isPlainName name = true ∧ AreProperAttributes attributes ∧
      (isVoid name = true → voidNames.contains name = true ∧ children = []) ∧ AreProper children
  | .aside => False

def AreProper : List Html → Prop
  | [] => True
  | node :: nodes => Proper node ∧ AreProper nodes

end

theorem areProper_append {xs ys : List Html} :
    AreProper (xs ++ ys) ↔ AreProper xs ∧ AreProper ys := by
  induction xs with
  | nil => simp [AreProper]
  | cons x xs ih => simp [AreProper, ih, and_assoc]

/-- Attributes as they are written. -/
def attributesSource (attributes : List (String × String)) : List Char :=
  attributes.flatMap fun entry =>
    ' ' :: (entry.1.toList ++ '=' :: '"' :: (sourceOf (piecesOf false entry.2) ++ ['"']))

theorem writeNodes_append (inCode : Bool) (xs ys : List Html) :
    writeNodes inCode (xs ++ ys) = writeNodes inCode xs ++ writeNodes inCode ys := by
  induction xs with
  | nil => simp [writeNodes]
  | cons x xs ih => simp [writeNodes, ih, String.append_assoc]

theorem toList_writeAttributes (attributes : List (String × String)) :
    (writeAttributes attributes).toList = attributesSource attributes := by
  simp [writeAttributes, attributesSource, List.flatMap_map, toList_escape]

theorem toList_writeText (inCode : Bool) (value : String) :
    (writeNode inCode (.text value)).toList = sourceOf (piecesOf inCode value) := by
  cases inCode with
  | false => exact toList_escape value
  | true => exact toList_escapeCode value

theorem toList_writeVoid {name : String} (h : voidNames.contains name = true) (inCode : Bool)
    (attributes : List (String × String)) (children : List Html) :
    (writeNode inCode (.element name attributes children)).toList =
      '<' :: (name.toList ++ (attributesSource attributes ++ ['/', '>'])) := by
  rw [writeNode, if_pos h]
  simp [toList_writeAttributes]

theorem toList_writeElement {name : String} (h : voidNames.contains name = false) (inCode : Bool)
    (attributes : List (String × String)) (children : List Html) :
    (writeNode inCode (.element name attributes children)).toList =
      '<' :: (name.toList ++ (attributesSource attributes ++ '>' ::
        ((writeNodes (inCode || isCodeText attributes) children).toList ++
          '<' :: '/' :: (name.toList ++ ['>'])))) := by
  rw [writeNode, h]
  simp [toList_writeAttributes]

/-! ## Characters of names and tags -/

theorem toNat_of_isPlainChar {c : Char} (h : isPlainChar c = true) :
    (0x30 ≤ c.toNat ∧ c.toNat ≤ 0x39) ∨ (0x41 ≤ c.toNat ∧ c.toNat ≤ 0x5a) ∨
      (0x61 ≤ c.toNat ∧ c.toNat ≤ 0x7a) ∨ c.toNat = 0x2d ∨ c.toNat = 0x5f := by
  simp only [isPlainChar, Char.isAlphanum, Bool.or_eq_true, decide_eq_true_eq] at h
  rcases h with ((h | h) | rfl) | rfl
  · rcases toNat_of_isAlpha h with h | h
    · exact .inr (.inl h)
    · exact .inr (.inr (.inl h))
  · simp only [Char.isDigit, Bool.and_eq_true, decide_eq_true_eq, ge_iff_le,
      UInt32.le_iff_toNat_le] at h
    exact .inl h
  · exact .inr (.inr (.inr (.inl rfl)))
  · exact .inr (.inr (.inr (.inr rfl)))

theorem ne_of_isPlainChar {c d : Char} (h : isPlainChar c = true) (hd : isPlainChar d = false) :
    c ≠ d := by
  rintro rfl
  rw [h] at hd
  cases hd

theorem isBlank_of_isPlainChar {c : Char} (h : isPlainChar c = true) : isBlank c = false := by
  have hrange := toNat_of_isPlainChar h
  simp only [isBlank, inRanges, blankRanges, List.any_cons, List.any_nil, Bool.or_false,
    Bool.or_eq_false_iff, Bool.and_eq_false_iff, decide_eq_false_iff_not]
  omega

theorem isPlainChar_of_isPlainName {name : String} (h : isPlainName name = true) :
    ∀ c ∈ name.toList, isPlainChar c = true := by
  simp only [isPlainName, Bool.and_eq_true, List.all_eq_true] at h
  exact h.1.2

theorem mem_attributesSource {attributes : List (String × String)}
    (h : AreProperAttributes attributes) :
    ∀ c ∈ attributesSource attributes, c ≠ '<' ∧ c ≠ '>' := by
  intro c hc
  obtain ⟨entry, hentry, hc⟩ := List.mem_flatMap.mp hc
  have hname := isPlainChar_of_isPlainName (h.1 entry hentry)
  have hvalue := mem_sourceOf (isWritten_piecesOf false entry.2)
  simp only [List.mem_cons, List.mem_append, List.not_mem_nil, or_false] at hc
  rcases hc with rfl | hc | rfl | rfl | hc | rfl
  · decide
  · exact ⟨ne_of_isPlainChar (hname c hc) (by decide), ne_of_isPlainChar (hname c hc) (by decide)⟩
  · decide
  · decide
  · exact ⟨(hvalue c hc).1, (hvalue c hc).2.1⟩
  · decide

/-- Written attributes are nothing, or stand between a space and a double quote. -/
theorem attributesSource_cases (attributes : List (String × String)) :
    attributesSource attributes = [] ∨
      ∃ inner, attributesSource attributes = ' ' :: (inner ++ ['"']) := by
  rcases List.eq_nil_or_concat attributes with rfl | ⟨front, last, rfl⟩
  · exact .inl rfl
  · refine .inr ?_
    cases front with
    | nil =>
      exact ⟨last.1.toList ++ '=' :: '"' :: sourceOf (piecesOf false last.2), by
        simp [attributesSource]⟩
    | cons first front =>
      exact ⟨first.1.toList ++ '=' :: '"' :: (sourceOf (piecesOf false first.2) ++ '"' ::
        (attributesSource front ++ ' ' :: (last.1.toList ++ '=' :: '"' ::
          sourceOf (piecesOf false last.2)))), by simp [attributesSource]⟩

/-! ## Closing void elements -/

theorem closeVoids_plain {cs : List Char} (h : ∀ c ∈ cs, c ≠ '<') (rest : List Char) :
    closeVoids (cs ++ rest) = cs ++ closeVoids rest := by
  induction cs with
  | nil => rfl
  | cons c cs ih =>
    rw [List.forall_mem_cons] at h
    rw [List.cons_append, closeVoids, if_neg h.1, ih h.2, List.cons_append]

theorem closeVoids_none {cs : List Char} (h : voidTag? cs = none) :
    closeVoids ('<' :: cs) = '<' :: closeVoids cs := by
  rw [closeVoids, if_pos rfl]
  split
  · rename_i heq
    rw [h] at heq
    cases heq
  · rfl

theorem closeVoids_some {cs tag after : List Char} (h : voidTag? cs = some (tag, after)) :
    closeVoids ('<' :: cs) = tag ++ closeVoids after := by
  rw [closeVoids, if_pos rfl]
  split
  · rename_i heq
    rw [h] at heq
    cases heq
    rfl
  · rename_i heq
    rw [h] at heq
    cases heq

/-- The names of void elements are made of letters. -/
theorem isLower_of_mem_voidNames : ∀ name ∈ voidNames, ∀ c ∈ name.toList, c.isLower = true := by
  decide

/-- What starts with the name of a void element starts so before the tag goes on or ends. -/
theorem length_le_of_startsWithName {void : String} (hmem : void ∈ voidNames) {d : Char}
    (hd : d = ' ' ∨ d = '>') {cs rest : List Char}
    (h : startsWithName void (cs ++ d :: rest) = true) : void.length ≤ cs.length := by
  refine Nat.le_of_not_lt fun hlong => ?_
  obtain ⟨k, hk⟩ := Nat.exists_eq_add_of_lt hlong
  -- the character behind the name would be a letter
  have hletter : d.toLower ∈ void.toList := by
    rw [startsWithName, decide_eq_true_eq, hk, Nat.add_assoc, List.take_length_add_append] at h
    rw [← h]
    simp
  have hlower := isLower_of_mem_voidNames void hmem _ hletter
  rcases hd with rfl | rfl <;> exact absurd hlower (by decide)

theorem isVoid_of_startsWithName {name void : String} (hmem : void ∈ voidNames) {rest : List Char}
    (h : startsWithName void (name.toList ++ rest) = true)
    (hlength : void.length = name.toList.length) : isVoid name = true := by
  rw [startsWithName, hlength, List.take_left] at h
  exact List.any_eq_true.mpr ⟨void, hmem, h⟩

/-- Where a name goes on, no tag of its beginning does. -/
theorem isTagRest_plain {c : Char} (hc : isPlainChar c = true) (cs : List Char) :
    isTagRest ((c :: cs).takeWhile (· ≠ '>')) = false := by
  have hclose : c ≠ '>' := ne_of_isPlainChar hc (by decide)
  have hslash : c ≠ '/' := ne_of_isPlainChar hc (by decide)
  rw [List.takeWhile_cons_of_pos (by simpa using hclose)]
  simp [isTagRest, isBlank_of_isPlainChar hc, hslash]

/-- Where a plain name that is not that of a void element ends, no void tag starts. -/
theorem voidTag?_plain {name : String} (hname : isPlainName name = true)
    (hvoid : isVoid name = false) {d : Char} (hd : d = ' ' ∨ d = '>') (rest : List Char) :
    voidTag? (name.toList ++ d :: rest) = none := by
  rw [voidTag?, Option.bind_eq_none_iff]
  intro void hfind
  have hstarts := List.find?_some hfind
  have hmem := List.mem_of_find?_eq_some hfind
  have hlt : void.length < name.toList.length := by
    refine Nat.lt_of_le_of_ne (length_le_of_startsWithName hmem hd hstarts) fun heq => ?_
    rw [isVoid_of_startsWithName hmem hstarts heq] at hvoid
    cases hvoid
  obtain ⟨c, cs, hdrop⟩ : ∃ c cs, name.toList.drop void.length = c :: cs :=
    List.exists_cons_of_ne_nil fun hnil =>
      Nat.not_le_of_lt hlt (List.drop_eq_nil_iff.mp hnil)
  have hc : isPlainChar c = true := by
    refine isPlainChar_of_isPlainName hname c (List.mem_of_mem_drop (i := void.length) ?_)
    rw [hdrop]
    exact List.mem_cons_self
  have hsplit : (name.toList ++ d :: rest).drop void.length = c :: (cs ++ d :: rest) := by
    rw [List.drop_append_of_le_length (Nat.le_of_lt hlt), hdrop, List.cons_append]
  dsimp only
  rw [hsplit, isTagRest_plain hc]
  split <;> rfl

theorem find?_startsWithName {name : String} (hname : voidNames.contains name = true)
    (rest : List Char) :
    voidNames.find? (fun void => startsWithName void (name.toList ++ rest)) = some name := by
  have hmem := List.contains_iff_mem.mp hname
  simp only [voidNames, List.mem_cons, List.not_mem_nil, or_false] at hmem
  rcases hmem with rfl | rfl | rfl | rfl | rfl <;> rfl

/-! Attributes between the name of a void element and the slash behind them. -/

theorem isTagRest_attributesSource (attributes : List (String × String)) :
    isTagRest (attributesSource attributes ++ ['/']) = true := by
  rcases attributesSource_cases attributes with hnone | ⟨inner, hsome⟩
  · simp [hnone, isTagRest]
  · simp [hsome, isTagRest, show isBlank ' ' = true by decide]

theorem dropClosing_attributesSource (attributes : List (String × String)) :
    dropClosing (attributesSource attributes ++ ['/']) = attributesSource attributes := by
  rcases attributesSource_cases attributes with hnone | ⟨inner, hsome⟩
  · simp [hnone, dropClosing, show isBlank '/' = false by decide]
  · have htrim : trimEnd (inner ++ ['"']) = inner ++ ['"'] := by
      simp [trimEnd, show isBlank '"' = false by decide]
    have hsplit : (inner ++ ['"']) ++ ['/'] = inner ++ ['"', '/'] := by simp
    rw [hsome, List.cons_append, dropClosing, if_pos (by decide), List.getLast?_concat,
      if_pos rfl, List.dropLast_concat, htrim]

/-- A void tag that is closed already is left as it is. -/
theorem voidTag?_void {name : String} (hname : voidNames.contains name = true)
    {attributes : List (String × String)} (hattributes : AreProperAttributes attributes)
    (rest : List Char) :
    voidTag? (name.toList ++ (attributesSource attributes ++ '/' :: '>' :: rest)) =
      some ('<' :: (name.toList ++ (attributesSource attributes ++ ['/', '>'])), rest) := by
  have hinside : ∀ c ∈ attributesSource attributes ++ ['/'], decide (c ≠ '>') = true := by
    intro c hc
    rcases List.mem_append.mp hc with hc | hc
    · exact decide_eq_true (mem_attributesSource hattributes c hc).2
    · rw [List.mem_singleton.mp hc]
      rfl
  have hdrop : (name.toList ++ (attributesSource attributes ++ '/' :: '>' :: rest)).drop
      name.length = (attributesSource attributes ++ ['/']) ++ '>' :: rest := by
    rw [← String.length_toList, List.drop_left]
    simp
  have htake : (name.toList ++ (attributesSource attributes ++ '/' :: '>' :: rest)).take
      name.length = name.toList := by
    rw [← String.length_toList, List.take_left]
  rw [voidTag?, find?_startsWithName hname]
  simp only [Option.bind_some, hdrop, htake]
  rw [List.takeWhile_append_of_pos hinside, List.dropWhile_append_of_pos hinside]
  simp [isTagRest_attributesSource, dropClosing_attributesSource]

mutual

/-- Void elements are closed already in what is written. -/
theorem closeVoids_writeNode (inCode : Bool) :
    ∀ node : Html, Proper node → ∀ rest,
      closeVoids ((writeNode inCode node).toList ++ rest) =
        (writeNode inCode node).toList ++ closeVoids rest
  | .text value, _, rest => by
    rw [toList_writeText]
    exact closeVoids_plain (fun c hc => (mem_sourceOf (isWritten_piecesOf inCode value) c hc).1) rest
  | .element name attributes children, h, rest => by
    rw [Proper] at h
    obtain ⟨hname, hattributes, hvoid, hchildren⟩ := h
    have hplain : ∀ c ∈ name.toList, c ≠ '<' := fun c hc =>
      ne_of_isPlainChar (isPlainChar_of_isPlainName hname c hc) (by decide)
    have hinside : ∀ c ∈ attributesSource attributes, c ≠ '<' := fun c hc =>
      (mem_attributesSource hattributes c hc).1
    cases hcase : voidNames.contains name with
    | true =>
      have htag := voidTag?_void hcase hattributes rest
      rw [toList_writeVoid hcase]
      simp only [List.cons_append, List.append_assoc, List.nil_append]
      rw [closeVoids_some htag]
      simp
    | false =>
      have hnot : isVoid name = false := by
        rw [Bool.eq_false_iff]
        intro hvoid'
        rw [(hvoid hvoid').1] at hcase
        cases hcase
      have hchildren' := closeVoids_writeNodes (inCode || isCodeText attributes) children hchildren
      rw [toList_writeElement hcase]
      simp only [List.cons_append, List.append_assoc, List.nil_append]
      -- the opening tag
      have hopen : ∀ more, closeVoids ('<' :: (name.toList ++
          (attributesSource attributes ++ '>' :: more))) =
            '<' :: closeVoids (name.toList ++ (attributesSource attributes ++ '>' :: more)) := by
        intro more
        refine closeVoids_none ?_
        rcases attributesSource_cases attributes with hnone | ⟨inner, hsome⟩
        · rw [hnone, List.nil_append]
          exact voidTag?_plain hname hnot (.inr rfl) _
        · rw [hsome, List.cons_append]
          exact voidTag?_plain hname hnot (.inl rfl) _
      -- the closing tag
      have hclose : closeVoids ('<' :: '/' :: (name.toList ++ '>' :: rest)) =
          '<' :: closeVoids ('/' :: (name.toList ++ '>' :: rest)) := by
        refine closeVoids_none ?_
        rw [voidTag?, List.find?_eq_none.mpr, Option.bind_none]
        intro void hmem
        simp only [voidNames, List.mem_cons, List.not_mem_nil, or_false] at hmem
        rcases hmem with rfl | rfl | rfl | rfl | rfl <;> exact Bool.false_ne_true
      have hslash : ∀ c ∈ '/' :: (name.toList ++ ['>']), c ≠ '<' :=
        List.forall_mem_cons.mpr ⟨by decide, List.forall_mem_append.mpr ⟨hplain, by decide⟩⟩
      have hclosing : closeVoids ('/' :: (name.toList ++ '>' :: rest)) =
          '/' :: (name.toList ++ '>' :: closeVoids rest) := by
        simpa using closeVoids_plain hslash rest
      have hgreater : ∀ c ∈ ['>'], c ≠ '<' := by decide
      have hbracket : ∀ more, closeVoids ('>' :: more) = '>' :: closeVoids more :=
        closeVoids_plain hgreater
      rw [hopen, closeVoids_plain hplain, closeVoids_plain hinside, hbracket, hchildren', hclose,
        hclosing]
  | .aside, h, _ => nomatch h

theorem closeVoids_writeNodes (inCode : Bool) :
    ∀ nodes : List Html, AreProper nodes → ∀ rest,
      closeVoids ((writeNodes inCode nodes).toList ++ rest) =
        (writeNodes inCode nodes).toList ++ closeVoids rest
  | [], _, rest => by simp [writeNodes]
  | node :: nodes, h, rest => by
    rw [AreProper] at h
    rw [writeNodes, String.toList_append, List.append_assoc,
      closeVoids_writeNode inCode node h.1, closeVoids_writeNodes inCode nodes h.2, List.append_assoc]

end

/-! ## Numbering hard spaces -/

/-- Hard spaces are not found in some characters, nor across their end. -/
def NamesNone (cs : List Char) : Prop :=
  ∀ rest, numberHardSpaces (cs ++ rest) = cs ++ numberHardSpaces rest

theorem namesNone_nil : NamesNone [] := fun _ => rfl

theorem NamesNone.append {cs ds : List Char} (hcs : NamesNone cs) (hds : NamesNone ds) :
    NamesNone (cs ++ ds) := by
  intro rest
  rw [List.append_assoc, hcs, hds, List.append_assoc]

theorem NamesNone.cons {c : Char} {cs : List Char} (hc : c ≠ '&') (hcs : NamesNone cs) :
    NamesNone (c :: cs) := by
  intro rest
  rw [List.cons_append, numberHardSpaces_cons hc, hcs, List.cons_append]

theorem namesNone_plain {cs : List Char} (h : ∀ c ∈ cs, c ≠ '&') : NamesNone cs := by
  induction cs with
  | nil => exact namesNone_nil
  | cons c cs ih =>
    rw [List.forall_mem_cons] at h
    exact (ih h.2).cons h.1

theorem namesNone_sourceOf {pieces : List Piece} (h : ∀ piece ∈ pieces, piece.IsWritten) :
    NamesNone (sourceOf pieces) := by
  induction pieces with
  | nil => exact namesNone_nil
  | cons piece pieces ih =>
    rw [List.forall_mem_cons] at h
    refine NamesNone.append ?_ (ih h.2)
    rcases h.1.cases with ⟨c, hc, rfl⟩ | ⟨c, rfl, hamp, -⟩
    · simp only [referredChars, List.mem_cons, List.not_mem_nil, or_false] at hc
      rcases hc with rfl | rfl | rfl | rfl | rfl <;> exact fun _ => rfl
    · exact namesNone_nil.cons hamp

theorem namesNone_attributesSource {attributes : List (String × String)}
    (h : AreProperAttributes attributes) : NamesNone (attributesSource attributes) := by
  have hall : ∀ entries : List (String × String),
      (∀ entry ∈ entries, isPlainName entry.1 = true) → NamesNone (attributesSource entries) := by
    intro entries hentries
    induction entries with
    | nil => exact namesNone_nil
    | cons entry entries ih =>
      rw [List.forall_mem_cons] at hentries
      have hname : NamesNone entry.1.toList := namesNone_plain fun c hc =>
        ne_of_isPlainChar (isPlainChar_of_isPlainName hentries.1 c hc) (by decide)
      have hvalue := (namesNone_sourceOf (isWritten_piecesOf false entry.2)).append
        (namesNone_nil.cons (show '"' ≠ '&' by decide))
      exact NamesNone.append
        ((hname.append ((hvalue.cons (by decide)).cons (by decide))).cons (by decide))
        (ih hentries.2)
  exact hall attributes h.1

mutual

theorem namesNone_writeNode (inCode : Bool) :
    ∀ node : Html, Proper node → NamesNone (writeNode inCode node).toList
  | .text value, _ => by
    rw [toList_writeText]
    exact namesNone_sourceOf (isWritten_piecesOf inCode value)
  | .element name attributes children, h => by
    rw [Proper] at h
    obtain ⟨hname, hattributes, -, hchildren⟩ := h
    have hname' : NamesNone name.toList := namesNone_plain fun c hc =>
      ne_of_isPlainChar (isPlainChar_of_isPlainName hname c hc) (by decide)
    have hattributes' := namesNone_attributesSource hattributes
    have hopen := hname'.append hattributes'
    cases hcase : voidNames.contains name with
    | true =>
      rw [toList_writeVoid hcase, ← List.append_assoc]
      exact (hopen.append (namesNone_plain (by decide))).cons (by decide)
    | false =>
      have hchildren' := namesNone_writeNodes (inCode || isCodeText attributes) children hchildren
      have hclose : NamesNone ('<' :: '/' :: (name.toList ++ ['>'])) :=
        ((hname'.append (namesNone_plain (by decide))).cons (by decide)).cons (by decide)
      rw [toList_writeElement hcase, ← List.append_assoc]
      exact (hopen.append ((hchildren'.append hclose).cons (by decide))).cons (by decide)
  | .aside, h => nomatch h

theorem namesNone_writeNodes (inCode : Bool) :
    ∀ nodes : List Html, AreProper nodes → NamesNone (writeNodes inCode nodes).toList
  | [], _ => namesNone_nil
  | node :: nodes, h => by
    rw [AreProper] at h
    rw [writeNodes, String.toList_append]
    exact (namesNone_writeNode inCode node h.1).append (namesNone_writeNodes inCode nodes h.2)

end

/-- What is written for a proper tree is well-formed already. -/
theorem ofBrowser_write {nodes : List Html} (h : AreProper nodes) :
    ofBrowser (write nodes) = write nodes := by
  have hclosed := closeVoids_writeNodes false nodes h []
  have hnumbered := namesNone_writeNodes false nodes h []
  rw [List.append_nil, closeVoids, List.append_nil] at hclosed
  rw [List.append_nil, numberHardSpaces_nil, List.append_nil] at hnumbered
  rw [ofBrowser, write, hclosed, hnumbered, String.ofList_toList]

end ChatMarkup.Html

import ChatMarkup.Proofs.Html.Meaning
import ChatMarkup.Proofs.Html.Reading
import ChatMarkup.Proofs.Source.Lexeme
import ChatMarkup.Proofs.View.Sketch

/-!
# Attribute lists on their way through a page

A page keeps the attributes of a code block in an attribute of its own, where line ends and tabs
become spaces. What comes back is the list of the same attributes with spaces in their texts, so it
is an attribute list again.

* `spaceLineEnds_cons`: spacing line ends, one character at a time;
* `isValue_spaced`: a value with spaces in it is a value, calls included;
* `attributeSource_eq`: an attribute list as source is its attributes with commas between them;
* `isBrought_codeSources`: what comes back of the attributes of the code blocks of a document.
-/

namespace ChatMarkup.Html

open Source

/-! ## Spacing line ends -/

/-- A character of an attribute value as it is read back, unless it is half of a line end. -/
def spacedChar (c : Char) : Char :=
  if c = '\r' || c = '\n' || c = '\t' then ' ' else c

/-- Every character is spaced by itself, but a carriage return in front of a line feed is dropped. -/
theorem spaceLineEnds_cons (c : Char) (cs : List Char) :
    spaceLineEnds (c :: cs) =
      (if c = '\r' ∧ cs.head? = some '\n' then [] else [spacedChar c]) ++ spaceLineEnds cs := by
  by_cases hc : c = '\r'
  · subst hc
    rw [spaceLineEnds, foldLineEnds_cons_return]
    by_cases hhead : cs.head? = some '\n'
    · rw [if_pos hhead, if_pos ⟨rfl, hhead⟩]
      rfl
    · rw [if_neg hhead, if_neg fun h => hhead h.2]
      rfl
  · rw [if_neg fun h => hc h.1, spaceLineEnds, foldLineEnds_cons_self hc]
    simp [spaceLineEnds, spacedChar, hc]

theorem spaceLineEnds_append {xs ys : List Char} (h : ∀ c ∈ ys.head?, c ≠ '\n') :
    spaceLineEnds (xs ++ ys) = spaceLineEnds xs ++ spaceLineEnds ys := by
  induction xs with
  | nil => rfl
  | cons x xs ih =>
    have hhead : (xs ++ ys).head? = some '\n' ↔ xs.head? = some '\n' := by
      cases xs with
      | nil =>
        constructor
        · intro hys
          exact absurd rfl (h _ hys)
        · nofun
      | cons => rfl
    rw [List.cons_append, spaceLineEnds_cons, spaceLineEnds_cons, ih, List.append_assoc]
    simp only [hhead]

/-- Whether a character is neither a line end nor a tab. -/
def staysSpaced (c : Char) : Bool :=
  c ≠ '\r' && c ≠ '\n' && c ≠ '\t'

theorem spaceLineEnds_cons_self {c : Char} (h : staysSpaced c = true) (cs : List Char) :
    spaceLineEnds (c :: cs) = c :: spaceLineEnds cs := by
  simp only [staysSpaced, Bool.and_eq_true, decide_eq_true_eq] at h
  rw [spaceLineEnds_cons, if_neg fun hline => h.1.1 hline.1]
  simp [spacedChar, h]

/-- A line end or a tab becomes a space, or is half of a line end. -/
theorem spaceLineEnds_cons_space {c : Char} (h : staysSpaced c = false) (cs : List Char) :
    spaceLineEnds (c :: cs) = ' ' :: spaceLineEnds cs ∨
      cs.head? = some '\n' ∧ spaceLineEnds (c :: cs) = spaceLineEnds cs := by
  have hspaced : spacedChar c = ' ' := by
    rw [spacedChar, if_pos]
    by_contra hc
    simp [staysSpaced] at h hc
    exact hc.2 (h hc.1.1 hc.1.2)
  rw [spaceLineEnds_cons, hspaced]
  split
  · rename_i hline
    exact .inr ⟨hline.2, rfl⟩
  · exact .inl rfl

theorem spaceLineEnds_self_append {cs : List Char} (h : ∀ c ∈ cs, staysSpaced c = true)
    (rest : List Char) : spaceLineEnds (cs ++ rest) = cs ++ spaceLineEnds rest := by
  induction cs with
  | nil => rfl
  | cons c cs ih =>
    rw [List.forall_mem_cons] at h
    rw [List.cons_append, spaceLineEnds_cons_self h.1, ih h.2, List.cons_append]

theorem spaceLineEnds_self {cs : List Char} (h : ∀ c ∈ cs, staysSpaced c = true) :
    spaceLineEnds cs = cs := by
  have happend := spaceLineEnds_self_append h []
  rwa [List.append_nil, show spaceLineEnds [] = [] from rfl, List.append_nil] at happend

theorem staysSpaced_spaceLineEnds (cs : List Char) :
    ∀ c ∈ spaceLineEnds cs, staysSpaced c = true := by
  induction cs with
  | nil => nofun
  | cons c cs ih =>
    rw [spaceLineEnds_cons, List.forall_mem_append]
    refine ⟨?_, ih⟩
    split
    · nofun
    · intro d hd
      rw [List.mem_singleton.mp hd]
      unfold spacedChar
      split
      · decide
      · rename_i hc
        simpa [staysSpaced, and_assoc] using hc

theorem spaceLineEnds_idem (cs : List Char) :
    spaceLineEnds (spaceLineEnds cs) = spaceLineEnds cs :=
  spaceLineEnds_self (staysSpaced_spaceLineEnds cs)

theorem spacedValue_idem (value : String) : spacedValue (spacedValue value) = spacedValue value := by
  rw [spacedValue, spacedValue, String.toList_ofList, spaceLineEnds_idem]

theorem spacedValue_self {value : String} (h : ∀ c ∈ value.toList, staysSpaced c = true) :
    spacedValue value = value := by
  rw [spacedValue, spaceLineEnds_self h, String.ofList_toList]

/-! ## Values -/

theorem quoteChar_plain {c : Char} (hslash : c ≠ '\\') (hquote : c ≠ '`') : quoteChar c = [c] := by
  rw [quoteChar, if_neg hslash, if_neg hquote]

/-- A quoted text starts with a line feed if the text does. -/
theorem head?_quoted (cs : List Char) :
    (cs.flatMap quoteChar ++ ['`']).head? = some '\n' ↔ cs.head? = some '\n' := by
  cases cs with
  | nil => decide
  | cons c cs =>
    rw [List.flatMap_cons]
    unfold quoteChar
    split
    · rename_i hslash
      subst hslash
      simp
    · split
      · rename_i hquote
        subst hquote
        simp
      · rfl

theorem spaceLineEnds_quoted (cs : List Char) :
    spaceLineEnds (cs.flatMap quoteChar ++ ['`']) =
      (spaceLineEnds cs).flatMap quoteChar ++ ['`'] := by
  induction cs with
  | nil => rfl
  | cons c cs ih =>
    rw [List.flatMap_cons, List.append_assoc]
    by_cases hslash : c = '\\'
    · subst hslash
      exact congrArg ('\\' :: '\\' :: ·) ih
    by_cases hquote : c = '`'
    · subst hquote
      exact congrArg ('\\' :: '`' :: ·) ih
    have hspaced : quoteChar (spacedChar c) = [spacedChar c] := by
      unfold spacedChar
      split
      · rfl
      · exact quoteChar_plain hslash hquote
    rw [quoteChar_plain hslash hquote, List.singleton_append, spaceLineEnds_cons,
      spaceLineEnds_cons, ih]
    simp only [head?_quoted]
    split
    · rfl
    · rw [List.singleton_append, List.singleton_append, List.flatMap_cons, hspaced]
      rfl

theorem spacedValue_quote (value : String) :
    spacedValue (quote value) = quote (spacedValue value) := by
  refine String.toList_injective ?_
  rw [spacedValue, String.toList_ofList, toList_quote, toList_quote, spacedValue,
    String.toList_ofList, spaceLineEnds_cons_self (by decide), spaceLineEnds_quoted]

/-! ## Calls -/

/-- Reading a call goes over a space. -/
theorem readCallTail_space (acc : List Char) {quote : Option Char} (hquote : quote ≠ some ' ')
    (depth : Nat) (cs : List Char) :
    readCallTail acc quote depth (' ' :: cs) = readCallTail (' ' :: acc) quote depth cs := by
  cases quote with
  | none => simp [readCallTail]
  | some q =>
    have hq : ' ' ≠ q := fun h => hquote (h ▸ rfl)
    rw [readCallTail.eq_def]
    simp [hq]

theorem readCallTail_escape (acc : List Char) (quote : Char) (depth : Nat) (c : Char)
    (cs : List Char) :
    readCallTail acc (some quote) depth ('\\' :: c :: cs) =
      readCallTail (c :: '\\' :: acc) (some quote) depth cs := by
  rw [readCallTail, if_pos rfl]

/-- Whether a text is read as the rest of a call, whatever stands before it. -/
def EndsCall (quote : Option Char) (depth : Nat) (cs : List Char) : Prop :=
  ∀ acc, ∃ value, readCallTail acc quote depth cs = .ok (value, [])

/-- A line end or a tab can stand before the rest of a call. -/
theorem EndsCall.lineEnd {quote : Option Char} {depth : Nat} {c : Char} {cs : List Char}
    (h : EndsCall quote depth (spaceLineEnds cs)) (hquote : quote ≠ some ' ')
    (hc : staysSpaced c = false) : EndsCall quote depth (spaceLineEnds (c :: cs)) := by
  rcases spaceLineEnds_cons_space hc cs with hone | ⟨-, hnone⟩
  · intro acc
    rw [hone, readCallTail_space _ hquote]
    exact h _
  · rwa [hnone]

/-- An escape can stand before the rest of a call, also one of a line end. -/
theorem EndsCall.escape {quote : Char} {depth : Nat} {c : Char} {cs : List Char}
    (h : EndsCall (some quote) depth (spaceLineEnds cs)) (hquote : some quote ≠ some ' ') :
    EndsCall (some quote) depth (spaceLineEnds ('\\' :: c :: cs)) := by
  intro acc
  rw [spaceLineEnds_cons_self (by decide)]
  cases hc : staysSpaced c with
  | true =>
    rw [spaceLineEnds_cons_self hc, readCallTail_escape]
    exact h _
  | false =>
    rcases spaceLineEnds_cons_space hc cs with hone | ⟨hhead, hnone⟩
    · rw [hone, readCallTail_escape]
      exact h _
    · -- the backslash takes the space of the line feed along
      obtain ⟨cs, rfl⟩ := List.head?_eq_some_iff.mp hhead
      have hfeed : spaceLineEnds ('\n' :: cs) = ' ' :: spaceLineEnds cs := by
        rw [spaceLineEnds_cons, if_neg (by simp)]
        rfl
      obtain ⟨value, hvalue⟩ := h ('\\' :: acc)
      rw [hfeed, readCallTail_space _ hquote] at hvalue
      rw [hnone, hfeed, readCallTail_escape]
      exact ⟨value, hvalue⟩

theorem staysSpaced_of_mem_callQuotes : ∀ c ∈ callQuotes, staysSpaced c = true := by
  decide

theorem ne_space_of_mem_callQuotes {quote : Option Char} (h : ∀ q ∈ quote, q ∈ callQuotes) :
    quote ≠ some ' ' := by
  rintro rfl
  exact absurd (h ' ' rfl) (by decide)

/-- What is read as the rest of a call is read as one with its line ends spaced. -/
theorem endsCall_spaced {acc : List Char} {quote : Option Char} {depth : Nat}
    {value cs : List Char} (hquote : ∀ q ∈ quote, q ∈ callQuotes)
    (h : readCallTail acc quote depth cs = .ok (value, [])) :
    EndsCall quote depth (spaceLineEnds cs) := by
  fun_induction readCallTail acc quote depth cs with
  | case1 | case2 | case7 => cases h
  | case3 acc depth q next cs ih => exact (ih hquote h).escape (ne_space_of_mem_callQuotes hquote)
  | case4 acc depth c cs q hc ih =>
    cases hstays : staysSpaced c with
    | true =>
      have hquote' : ∀ p ∈ (if c = q then none else some q), p ∈ callQuotes := by
        split
        · simp
        · exact hquote
      intro acc'
      rw [spaceLineEnds_cons_self hstays, readCallTail.eq_def]
      simp only [hc, if_false]
      exact ih hquote' h _
    | false =>
      -- it does not close the quotes, so that they are open behind it
      have hne : c ≠ q := by
        rintro rfl
        exact absurd (staysSpaced_of_mem_callQuotes c (hquote c rfl)) (by simp [hstays])
      rw [if_neg hne] at ih h
      exact (ih hquote h).lineEnd (ne_space_of_mem_callQuotes hquote) hstays
  | case5 acc depth c cs hc ih =>
    have hmem : c ∈ callQuotes := by simpa [callQuotes] using hc
    have hquote' : ∀ p ∈ some c, p ∈ callQuotes := by
      rintro _ ⟨⟩
      exact hmem
    intro acc'
    rw [spaceLineEnds_cons_self (staysSpaced_of_mem_callQuotes c hmem), readCallTail.eq_def]
    simp only [hc, if_true]
    exact ih hquote' h _
  | case6 acc depth cs _ ih =>
    intro acc'
    rw [spaceLineEnds_cons_self (by decide), readCallTail_open]
    exact ih hquote h _
  | case8 =>
    cases h
    exact fun acc => ⟨_, rfl⟩
  | case9 acc cs _ _ depth ih =>
    intro acc'
    rw [spaceLineEnds_cons_self (by decide), readCallTail_close]
    exact ih hquote h _
  | case10 acc depth c cs hmark hopen hclose ih =>
    cases hstays : staysSpaced c with
    | true =>
      intro acc'
      rw [spaceLineEnds_cons_self hstays]
      simp only [readCallTail, hmark, hopen, hclose]
      exact ih hquote h _
    | false => exact (ih hquote h).lineEnd (ne_space_of_mem_callQuotes hquote) hstays

theorem isCall_spaced {call : List Char} (h : IsCall call) : IsCall (spaceLineEnds call) := by
  have hnone : ∀ q ∈ (none : Option Char), q ∈ callQuotes := nofun
  obtain ⟨value, hread⟩ := endsCall_spaced hnone h []
  obtain ⟨hcall, hsplit⟩ := readCall_eq_ok hread
  rw [List.append_nil] at hsplit
  rwa [hsplit]

/-! ## Attributes -/

/-- An attribute value as it is read back. -/
def spacedNode : Node → Node
  | .string value => .string (spacedValue value)
  | .identifier name => .identifier (spacedValue name)
  | value => value

/-- An attribute as it is read back. -/
def spacedEntry (entry : Attribute) : Attribute :=
  ⟨entry.key, spacedNode entry.value⟩

/-- The predicate holds of no line end and no tab. -/
theorem staysSpaced_of {p : Char → Bool} (hp : ∀ c ∈ ['\r', '\n', '\t'], p c = false) {c : Char}
    (h : p c = true) : staysSpaced c = true := by
  simp only [staysSpaced, Bool.and_eq_true, decide_eq_true_eq]
  refine ⟨⟨?_, ?_⟩, ?_⟩ <;>
  · rintro rfl
    rw [hp _ (by simp)] at h
    cases h

theorem staysSpaced_of_isName {name : String} (h : IsName name) :
    ∀ c ∈ name.toList, staysSpaced c = true := by
  obtain ⟨c, cs, hname, hc, hcs⟩ := h
  rw [hname, List.forall_mem_cons]
  exact ⟨staysSpaced_of (p := isIdentifierStart) (by decide) hc,
    fun d hd => staysSpaced_of (p := isIdentifierChar) (by decide) (hcs d hd)⟩

theorem spacedValue_call {name : String} (hname : IsName name) (call : List Char) :
    spacedValue (name ++ String.ofList call) = name ++ String.ofList (spaceLineEnds call) := by
  refine String.toList_injective ?_
  simp [spacedValue, spaceLineEnds_self_append (staysSpaced_of_isName hname)]

/-- A value with spaces in it is a value of the same kind. -/
theorem isValue_spaced {value : Node} (h : IsValue value) : IsValue (spacedNode value) := by
  cases h with
  | string value => exact .string _
  | number x => exact .number x
  | boolean value => exact .boolean value
  | @name name hname =>
    rw [spacedNode, spacedValue_self (staysSpaced_of_isName hname.isName)]
    exact .name hname
  | @call name call hname hopen hcall =>
    rw [spacedNode, spacedValue_call hname.isName]
    refine .call hname ?_ (isCall_spaced hcall)
    cases call with
    | nil => cases hopen
    | cons c call =>
      cases hopen
      rw [spaceLineEnds_cons_self (by decide)]
      rfl

theorem isEntry_spaced {entry : Attribute} (h : IsEntry entry) : IsEntry (spacedEntry entry) :=
  ⟨h.key, isValue_spaced h.value⟩

theorem forall_isEntry_spaced {entries : List Attribute} (h : ∀ entry ∈ entries, IsEntry entry) :
    ∀ entry ∈ entries.map spacedEntry, IsEntry entry :=
  List.forall_mem_map.mpr fun entry hentry => isEntry_spaced (h entry hentry)

theorem numbers_spacedNode (value : Node) : (spacedNode value).numbers = value.numbers := by
  cases value <;> simp [spacedNode, Node.numbers]

theorem numbersOfEntries_spaced (entries : List Attribute) :
    Node.numbersOfEntries (entries.map spacedEntry) = Node.numbersOfEntries entries := by
  induction entries with
  | nil => rfl
  | cons entry entries ih =>
    rw [List.map_cons, spacedEntry, Node.numbersOfEntries, numbers_spacedNode, ih]
    cases entry
    rw [Node.numbersOfEntries]

theorem staysSpaced_of_text {x : Number} (hx : x.isFinite = true) :
    ∀ c ∈ x.text, staysSpaced c = true := by
  obtain ⟨negative, d, htext⟩ := Number.text_eq_signed hx
  have hplain : ∀ c ∈ d.write, staysSpaced c = true := fun c hc =>
    staysSpaced_of (p := isNumeralChar) (by decide) (by
      simpa [isNumeralChar] using d.isPlain_write c hc)
  rw [htext, Number.signed]
  split
  · exact List.forall_mem_cons.mpr ⟨by decide, hplain⟩
  · exact hplain

theorem spacedValue_valueText {value : Node} (h : IsValue value)
    (hfinite : ∀ x ∈ value.numbers, x.isFinite = true) :
    spacedValue (valueText value) = valueText (spacedNode value) := by
  cases h with
  | string value => exact spacedValue_quote value
  | number x =>
    refine spacedValue_self ?_
    rw [valueText, String.toList_ofList]
    exact staysSpaced_of_text (hfinite x (by simp [Node.numbers]))
  | boolean value => cases value <;> decide
  | name | call => rfl

theorem spacedValue_entryText {entry : Attribute} (h : IsEntry entry)
    (hfinite : ∀ x ∈ entry.value.numbers, x.isFinite = true) :
    spacedValue (entryText entry) = entryText (spacedEntry entry) := by
  have hkey : ∀ c ∈ entry.key.toList ++ ['='], staysSpaced c = true :=
    List.forall_mem_append.mpr ⟨staysSpaced_of_isName h.key, by decide⟩
  have hvalue := congrArg String.toList (spacedValue_valueText h.value hfinite)
  rw [spacedValue, String.toList_ofList] at hvalue
  refine String.toList_injective ?_
  have hsplit : (entryText entry).toList = (entry.key.toList ++ ['=']) ++
      (valueText entry.value).toList := by
    simp [entryText]
  rw [spacedValue, String.toList_ofList, hsplit, spaceLineEnds_self_append hkey, hvalue]
  simp [entryText, spacedEntry]

/-! ## Lists -/

/-- Attributes with commas between them. -/
def listText (entries : List Attribute) : String :=
  String.intercalate ", " (entries.map entryText)

theorem toList_listText_cons (entry : Attribute) (entries : List Attribute) :
    (listText (entry :: entries)).toList = (entryText entry).toList ++
      (if entries = [] then [] else ',' :: ' ' :: (listText entries).toList) := by
  cases entries with
  | nil => simp [listText]
  | cons second entries => simp [listText, String.intercalate_cons_cons]

/-- A list of attributes is read back as the list of these attributes with spaces in them. -/
theorem spacedValue_listText {entries : List Attribute} (h : ∀ entry ∈ entries, IsEntry entry)
    (hfinite : ∀ x ∈ Node.numbersOfEntries entries, x.isFinite = true) :
    spacedValue (listText entries) = listText (entries.map spacedEntry) := by
  refine String.toList_injective ?_
  rw [spacedValue, String.toList_ofList]
  induction entries with
  | nil => rfl
  | cons entry entries ih =>
    rw [List.forall_mem_cons] at h
    rw [Node.numbersOfEntries, List.forall_mem_append] at hfinite
    have hentry := congrArg String.toList (spacedValue_entryText h.1 hfinite.1)
    rw [spacedValue, String.toList_ofList] at hentry
    rw [List.map_cons, toList_listText_cons, toList_listText_cons, spaceLineEnds_append, hentry]
    · by_cases hnil : entries = []
      · simp [hnil, show spaceLineEnds [] = [] from rfl]
      · rw [if_neg hnil, if_neg (by simpa using hnil), spaceLineEnds_cons_self (by decide),
          spaceLineEnds_cons_self (by decide), ih h.2 hfinite.2]
    · intro c hc
      split at hc
      · cases hc
      · cases hc
        decide

/-- A list of attributes is an attribute list. -/
theorem readAttributes_listText {entries : List Attribute} (h : ∀ entry ∈ entries, IsEntry entry)
    (hfinite : ∀ x ∈ Node.numbersOfEntries entries, x.isFinite = true) :
    ∃ back : List Attribute,
      Source.readAttributes ('[' :: ((listText entries).toList ++ [']'])) = .ok (back, []) ∧
      Node.sameAttributes back entries = true ∧ back.map entryText = entries.map entryText ∧
      ∀ entry ∈ back, IsEntry entry :=
  readAttributes_entries h hfinite []

/-! ## Code blocks -/

/-- A text that does not end in a closing bracket. -/
def EndsInside (cs : List Char) : Prop :=
  ∀ c ∈ cs.getLast?, c ≠ ']'

theorem endsInside_nil : EndsInside [] := by
  simp [EndsInside]

theorem EndsInside.append {xs ys : List Char} (hx : EndsInside xs) (hy : EndsInside ys) :
    EndsInside (xs ++ ys) := by
  intro c hc
  rw [List.getLast?_append, Option.mem_def, Option.or_eq_some_iff] at hc
  rcases hc with hc | ⟨-, hc⟩
  · exact hy c hc
  · exact hx c hc

theorem endsInside_of_forall {cs : List Char} (h : ∀ c ∈ cs, c ≠ ']') : EndsInside cs :=
  fun c hc => h c (List.mem_of_getLast? hc)

theorem endsInside_of_isName {name : String} (h : IsName name) : EndsInside name.toList := by
  obtain ⟨c, cs, hname, hc, hcs⟩ := h
  refine endsInside_of_forall ?_
  rw [hname, List.forall_mem_cons]
  refine ⟨ne_of_isIdentifierStart hc (by decide), ?_⟩
  rintro _ hd rfl
  exact absurd (hcs _ hd) (by decide)

/-- A call ends with the parenthesis that closes it. -/
theorem getLast?_of_readCallTail {acc : List Char} {quote : Option Char} {depth : Nat}
    {value cs rest : List Char} (h : readCallTail acc quote depth cs = .ok (value, rest)) :
    value.getLast? = some ')' := by
  fun_induction readCallTail acc quote depth cs with
  | case1 | case2 | case7 => cases h
  | case3 _ _ _ _ _ ih => exact ih h
  | case4 _ _ _ _ _ _ ih => exact ih h
  | case5 _ _ _ _ _ ih => exact ih h
  | case6 _ _ _ _ ih => exact ih h
  | case8 =>
    cases h
    simp
  | case9 _ _ _ _ _ ih => exact ih h
  | case10 _ _ _ _ _ _ _ ih => exact ih h

theorem endsInside_valueText {value : Node} (h : IsValue value)
    (hfinite : ∀ x ∈ value.numbers, x.isFinite = true) :
    EndsInside (valueText value).toList := by
  cases h with
  | string value =>
    intro c hc
    rw [valueText, toList_quote, ← List.cons_append, List.getLast?_concat] at hc
    cases hc
    decide
  | number x =>
    obtain ⟨negative, d, htext⟩ := Number.text_eq_signed (hfinite x (by simp [Node.numbers]))
    have hplain : ∀ c ∈ d.write, c ≠ ']' := by
      rintro _ hc rfl
      exact absurd (d.isPlain_write _ hc) (by decide)
    refine endsInside_of_forall ?_
    rw [valueText, String.toList_ofList, htext, Number.signed]
    split
    · exact List.forall_mem_cons.mpr ⟨by decide, hplain⟩
    · exact hplain
  | boolean value =>
    cases value with
    | true => exact endsInside_of_forall (by decide)
    | false => exact endsInside_of_forall (by decide)
  | name hname => exact endsInside_of_isName hname.isName
  | call hname _ hcall =>
    rw [valueText, String.toList_append, String.toList_ofList]
    refine (endsInside_of_isName hname.isName).append ?_
    intro c hc
    rw [getLast?_of_readCallTail hcall] at hc
    cases hc
    decide

theorem endsInside_listText {entries : List Attribute} (h : ∀ entry ∈ entries, IsEntry entry)
    (hfinite : ∀ x ∈ Node.numbersOfEntries entries, x.isFinite = true) :
    EndsInside (listText entries).toList := by
  induction entries with
  | nil => exact endsInside_nil
  | cons entry entries ih =>
    rw [List.forall_mem_cons] at h
    rw [Node.numbersOfEntries, List.forall_mem_append] at hfinite
    have hentry : EndsInside (entryText entry).toList := by
      rw [entryText, String.toList_append, String.toList_append]
      exact ((endsInside_of_isName h.1.key).append (endsInside_of_forall (by decide))).append
        (endsInside_valueText h.1.value hfinite.1)
    rw [toList_listText_cons]
    refine hentry.append ?_
    split
    · exact endsInside_nil
    · have hcomma : EndsInside [',', ' '] := endsInside_of_forall (by decide)
      exact hcomma.append (ih h.2 hfinite.2)

/-- A list of attributes starts with the name of the first. -/
theorem head?_listText {entries : List Attribute} (h : ∀ entry ∈ entries, IsEntry entry) :
    ∀ c ∈ (listText entries).toList.head?, isIdentifierStart c = true := by
  intro c hc
  cases entries with
  | nil => cases hc
  | cons entry entries =>
    obtain ⟨d, ds, hkey, hd, -⟩ := (h entry List.mem_cons_self).key
    rw [toList_listText_cons, entryText, String.toList_append, String.toList_append, hkey] at hc
    cases hc
    exact hd

/-- An attribute list as source is its attributes with commas between them. -/
theorem attributeSource_eq {entries : List Attribute} (h : ∀ entry ∈ entries, IsEntry entry)
    (hfinite : ∀ x ∈ Node.numbersOfEntries entries, x.isFinite = true) :
    attributeSource entries = .ok (listText entries) := by
  have htext : (bracket (entries.map entryText)).toList =
      ('[' :: (listText entries).toList ++ [']']) ++ [' '] := by
    simp [bracket, listText]
  have htrim : trimEnd (bracket (entries.map entryText)).toList =
      '[' :: ((listText entries).toList ++ [']']) := by
    rw [htext, trimEnd_append, if_pos (by decide), trimEnd_of_last (by decide), List.cons_append]
  have hopen : ('[' :: ((listText entries).toList ++ [']'])).dropWhile (· = '[') =
      (listText entries).toList ++ [']'] := by
    rw [List.dropWhile_cons_of_pos (by decide)]
    have hhead : ∀ c ∈ ((listText entries).toList ++ [']']).head?, c ≠ '[' := by
      intro c hc
      cases hlist : (listText entries).toList with
      | nil =>
        rw [hlist] at hc
        cases hc
        decide
      | cons d ds =>
        have hd := head?_listText h d (by rw [hlist]; rfl)
        rw [hlist] at hc
        cases hc
        exact ne_of_isIdentifierStart hd (by decide)
    cases hlist : (listText entries).toList ++ [']'] with
    | nil => rfl
    | cons d ds =>
      have hd : d ≠ '[' := hhead d (by rw [hlist]; rfl)
      exact List.dropWhile_cons_of_neg (by simpa using hd)
  have hclose : (((listText entries).toList ++ [']']).reverse.dropWhile (· = ']')).reverse =
      (listText entries).toList := by
    rw [List.reverse_concat, List.dropWhile_cons_of_pos (by decide)]
    have hlast := endsInside_listText h hfinite
    rw [EndsInside, ← List.head?_reverse] at hlast
    cases hlist : (listText entries).toList.reverse with
    | nil => exact (List.reverse_eq_nil_iff.mp hlist).symm
    | cons d ds =>
      rw [hlist] at hlast
      rw [List.dropWhile_cons_of_neg (by simpa using hlast _ rfl), ← hlist, List.reverse_reverse]
  rw [attributeSource, writeHead_eq "" (areEntries_some.mpr h), headText, Except.map]
  simp only [htrim, hopen, hclose, String.ofList_toList]

theorem numbersOfHead_some (entries : List Attribute) :
    Node.numbersOfHead (some entries) = Node.numbersOfEntries entries := by
  simp [Node.numbersOfHead]

/-- The attributes of a code block as source are its attributes with commas between them, if it has
any. -/
theorem attributes_codeSource {id : Nat} {attributes : Option (List Attribute)}
    {body : Option Node} {source : CodeSource} (h : AreEntries attributes)
    (hfinite : ∀ x ∈ Node.numbersOfHead attributes, x.isFinite = true)
    (hsource : View.codeSource id attributes body = .ok source) :
    ∃ entries, entries = attributes.getD [] ∧ source.attributes = listText entries ∧
      (∀ entry ∈ entries, IsEntry entry) ∧
      ∀ x ∈ Node.numbersOfEntries entries, x.isFinite = true := by
  cases attributes with
  | none =>
    cases hsource
    exact ⟨[], rfl, rfl, nofun, nofun⟩
  | some entries =>
    rw [areEntries_some] at h
    rw [numbersOfHead_some] at hfinite
    rw [View.codeSource, attributeSource_eq h hfinite] at hsource
    cases hsource
    exact ⟨entries, rfl, rfl, h, hfinite⟩

/-- The attributes of a code block are an attribute list once a page has kept them. -/
theorem isBrought_attributes {id : Nat} {attributes : Option (List Attribute)} {body : Option Node}
    {source : CodeSource} (h : AreEntries attributes)
    (hfinite : ∀ x ∈ Node.numbersOfHead attributes, x.isFinite = true)
    (hsource : View.codeSource id attributes body = .ok source) :
    IsBrought (spacedValue source.attributes) := by
  obtain ⟨entries, -, htext, hentries, hnumbers⟩ := attributes_codeSource h hfinite hsource
  obtain ⟨back, hread, -⟩ := readAttributes_listText (forall_isEntry_spaced hentries)
    (by rwa [numbersOfEntries_spaced])
  rw [htext, spacedValue_listText hentries hnumbers]
  exact .inr ⟨back, hread⟩

/-- The attributes of every code block that is met in a document are left out or an attribute list
once a page has kept them. -/
theorem isBrought_codeSources {tree : Node} (h : IsDocument tree)
    (hfinite : ∀ x ∈ tree.numbers, x.isFinite = true) :
    ∀ source ∈ tree.codeSources, IsBrought (spacedValue source.attributes) := by
  intro source hsource
  obtain ⟨node, hnode, hcode⟩ := List.mem_filterMap.mp ((codeSources_sublist h).subset hsource)
  have hentries := h.areEntries node hnode
  cases node with
  | element tag id attributes body =>
    cases tag with
    | code =>
      refine isBrought_attributes hentries (fun x hx => ?_) (eq_ok_of_toOption hcode)
      exact hfinite x (Node.numbers_of_mem_walk hnode (List.mem_append_left _ hx))
    | _ => cases hcode
  | _ => cases hcode

end ChatMarkup.Html

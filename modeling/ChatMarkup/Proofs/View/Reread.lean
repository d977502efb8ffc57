import ChatMarkup.Proofs.Source.Spelling
import ChatMarkup.Proofs.View.Shown

/-!
# Code elements of a source that was written

A tree that was written shows code elements with the same marks when its source is read, if that can
be read at all. Infinite numbers are written as names: among attributes such a name is read as a
value with the same text, but between items it has no body to be the tag of, and a minus sign in
front of it is no numeral. So reading goes over what was written as over items that show the same,
or it stops.

* `ShowsAgain`: what is claimed of source, whatever has been read before it;
* `ShowsAgain.line`, `ShowsAgain.element`: the two ways of putting such source together;
* `ReadsAlike`: what is claimed of an item, by induction over the grammar (`readsAlike_of_isItem`);
* `marks_of_read_write`: the whole document.
-/

namespace ChatMarkup

open Source

/-! ## Marks -/

theorem Number.text_of_same {x y : Number} (h : x.same y = true) : x.text = y.text := by
  cases x with
  | infinite s => cases y <;> simp_all [Number.same]
  | finite s x =>
    cases y with
    | infinite t => cases h
    | finite t y =>
      simp only [Number.same, Bool.and_eq_true, Bool.or_eq_true, decide_eq_true_eq] at h
      obtain ⟨rfl, rfl | rfl⟩ := h <;> rfl

namespace Opening

theorem mark_of_same {x y : Attribute} (hkey : x.key = y.key)
    (hvalue : x.value.same y.value = true) : mark x = mark y := by
  obtain ⟨key, a⟩ := x
  obtain ⟨_, b⟩ := y
  obtain rfl := hkey
  cases a <;> cases b <;>
    simp_all [mark, Node.same, Node.scalar?, Scalar.text, Scalar.isTrue]
  exact congrArg String.ofList (Number.text_of_same hvalue)

end Opening

open Opening (mark)

namespace Source

/-! ## Attributes -/

theorem readNumber_minus {c : Char} (hc : isNumeralChar c = false) (rest : List Char) :
    readNumber ('-' :: c :: rest) = stop (.invalidNumber ['-']) ('-' :: c :: rest) := by
  have hsplit : (splitNumeral ('-' :: c :: rest)).1 = ['-'] := by
    simp [splitNumeral, hc]
  rw [readNumber, hsplit]
  rfl

theorem readValue_negative (rest : List Char) :
    ∃ e, readValue (skipTrivia ((valueText (.number (.infinite true))).toList ++ rest)) =
      .error e := by
  have htext : (valueText (.number (.infinite true))).toList ++ rest =
      '-' :: 'i' :: 'n' :: 'f' :: rest := rfl
  rw [htext, skipTrivia_token (by decide) (by decide), readValue,
    show Start.of '-' = .number by decide]
  exact ⟨_, congrArg (Reading.map _) (readNumber_minus (by decide) _)⟩

/-- A written attribute is read as one with the same marks, or reading stops at it. -/
theorem readAttribute_marked {entry : Attribute} (h : IsEntry entry) {rest : List Char}
    (hrest : Delimits rest) :
    (∃ back, readAttribute ((entryText entry).toList ++ rest) = .ok (back, rest) ∧
      mark back = mark entry) ∨
    ∃ e, readAttribute ((entryText entry).toList ++ rest) = .error e := by
  obtain ⟨key, value⟩ := entry
  by_cases hfinite : ∀ x ∈ value.numbers, x.isFinite = true
  · obtain ⟨back, hread, hkey, hsame, -⟩ := readAttribute_entryText h hfinite hrest
    exact .inl ⟨back, hread, Opening.mark_of_same hkey hsame⟩
  · have hinfinite : ∃ negative, value = .number (.infinite negative) := by
      obtain ⟨_, hvalue⟩ := h
      cases hvalue with
      | number x =>
        cases x with
        | finite => exact absurd (by simp [Node.numbers, Number.isFinite]) hfinite
        | infinite negative => exact ⟨negative, rfl⟩
      | _ => exact absurd (by simp [Node.numbers]) hfinite
    obtain ⟨negative, rfl⟩ := hinfinite
    cases negative with
    | true =>
      obtain ⟨e, hstop⟩ := readValue_negative rest
      exact .inr ⟨e, by rw [readAttribute_entry h.key, hstop]; rfl⟩
    | false =>
      -- The name is written in the same way, and is read back.
      have hname : IsEntry ⟨key, .identifier "inf"⟩ :=
        ⟨h.key, .name ⟨isName_of_chars (by decide), by decide, by decide⟩⟩
      obtain ⟨back, hread, hkey, hsame, -⟩ :=
        readAttribute_entryText hname (by simp [Node.numbers]) hrest
      have hmark : mark back = mark ⟨key, .identifier "inf"⟩ := Opening.mark_of_same hkey hsame
      exact .inl ⟨back, hread, hmark⟩

/-- Written attributes are read as ones with the same marks, or reading stops at one of them. -/
theorem readAttributesTail_marked (acc : List Attribute) {entries : List Attribute}
    (h : ∀ entry ∈ entries, IsEntry entry) (rest : List Char) :
    (∃ back, readAttributesTail acc (entriesSource entries rest) = .ok (acc.reverse ++ back, rest) ∧
      back.map mark = entries.map mark) ∨
    ∃ e, readAttributesTail acc (entriesSource entries rest) = .error e := by
  induction entries generalizing acc with
  | nil => exact .inl ⟨[], by simp [entriesSource_nil, readAttributesTail_close], rfl⟩
  | cons entry entries ih =>
    rw [List.forall_mem_cons] at h
    obtain ⟨behind, hsplit, hends, hskip⟩ := entriesSource_cons entry entries rest
    rw [hsplit, readAttributesTail_entry acc h.1.key]
    rcases readAttribute_marked h.1 hends with ⟨back, hread, hmark⟩ | ⟨e, hread⟩
    · rw [hread]
      show (∃ _, readAttributesTail (back :: acc) behind = _ ∧ _) ∨
        ∃ _, readAttributesTail (back :: acc) behind = _
      rw [hskip _ (by simp)]
      rcases ih (back :: acc) h.2 with ⟨backs, hreads, hmarks⟩ | hstop
      · refine .inl ⟨back :: backs, ?_, by rw [List.map_cons, hmark, hmarks, ← List.map_cons]⟩
        rw [hreads]
        simp
      · exact .inr hstop
    · exact .inr ⟨e, by rw [hread]; rfl⟩

/-- What is written between a tag and its body is read as attributes with the same marks, or reading
stops there. -/
theorem readAttributes?_marked {absent : String} (habsent : ∀ c ∈ absent.toList, isBlank c = true)
    {attributes : Option (List Attribute)} (h : AreEntries attributes) {c : Char}
    (hc : Assembly.OpensBody c) (more : List Char) :
    (∃ back rest, Assembly.readAttributes?
        (skipTrivia ((headText absent attributes).toList ++ c :: more)) = .ok (back, rest) ∧
      skipTrivia rest = c :: more ∧ back.map (List.map mark) = attributes.map (List.map mark)) ∨
    ∃ e, Assembly.readAttributes?
      (skipTrivia ((headText absent attributes).toList ++ c :: more)) = .error e := by
  cases attributes with
  | none =>
    obtain ⟨back, rest, hread, hskip, hsame, -⟩ :=
      Assembly.readAttributes?_headText habsent areEntries_none (by simp [Node.numbersOfHead]) hc
        more
    cases back with
    | none => exact .inl ⟨none, rest, hread, hskip, rfl⟩
    | some entries => cases hsame
  | some entries =>
    have hlist : Assembly.readAttributes?
        (skipTrivia ((headText absent (some entries)).toList ++ c :: more)) =
          (readAttributesTail [] (entriesSource entries (' ' :: c :: more))).map some := by
      rw [headText, bracket_append, skipTrivia_token (by decide) (by decide),
        Assembly.readAttributes?, if_pos List.head?_cons, readAttributes,
        expect_cons (by decide) (by decide)]
    rw [hlist]
    rcases readAttributesTail_marked [] (areEntries_some.mp h) (' ' :: c :: more) with
      ⟨back, hread, hmarks⟩ | ⟨e, hstop⟩
    · refine .inl ⟨some back, ' ' :: c :: more, by rw [hread]; rfl, ?_, ?_⟩
      · rw [skipTrivia_blank _ (by decide), hc.skipTrivia]
      · rw [Option.map_some, Option.map_some, hmarks]
    · exact .inr ⟨e, by rw [hstop]; rfl⟩

/-! ## Source that shows the same again -/

/-- Source behind which an item ends, and that opens neither an attribute list nor a body. -/
structure Ends (rest : List Char) : Prop where
  delimits : Delimits rest
  opens : ∀ c ∈ (skipTrivia rest).head?, c ≠ '[' ∧ c ≠ '{'

/-- Source that starts as an item does. -/
def StartsItem (cs : List Char) : Prop :=
  ∃ c more, cs = c :: more ∧ isBlank c = false ∧ c ≠ '/' ∧ c ≠ '[' ∧ c ≠ '{'

/-- Reading goes over the source as over items that show code elements with these marks, whatever
has been read before and whatever comes behind, or it stops. -/
def ShowsAgain (cs : List Char) (marks : List (Option (List Opening.Mark))) : Prop :=
  ∀ (a : Assembly) (rest : List Char), Ends rest →
    (∃ back next, (Node.shownAll back).map Opening.marks = marks ∧
      a.run (cs ++ rest) = Assembly.run ⟨back.reverse ++ a.items, a.frames, next⟩ rest) ∨
    ∃ e, a.run (cs ++ rest) = .error e

theorem ends_nil : Ends [] :=
  ⟨delimits_nil, nofun⟩

theorem ends_close (rest : List Char) : Ends (' ' :: '}' :: rest) where
  delimits := delimits_cons (by decide) (by decide)
  opens := by
    rw [skipTrivia_blank _ (by decide), skipTrivia_token (by decide) (by decide)]
    rintro c ⟨⟩
    decide

theorem StartsItem.ends {cs : List Char} (h : StartsItem cs) (rest : List Char) :
    Ends ('\n' :: (cs ++ rest)) where
  delimits := delimits_cons (by decide) (by decide)
  opens := by
    obtain ⟨c, more, rfl, hblank, hslash, hlist, hbody⟩ := h
    rw [skipTrivia_blank _ (by decide), List.cons_append, skipTrivia_token hblank hslash]
    rintro d ⟨⟩
    exact ⟨hlist, hbody⟩

theorem startsItem_name {name : String} (h : IsName name) (more : List Char) :
    StartsItem (name.toList ++ more) := by
  obtain ⟨c, cs, hlist, hc, -⟩ := h
  rw [hlist, List.cons_append]
  exact ⟨c, cs ++ more, rfl, isBlank_of_isIdentifierStart hc,
    ne_of_isIdentifierStart hc (by decide), ne_of_isIdentifierStart hc (by decide),
    ne_of_isIdentifierStart hc (by decide)⟩

theorem showsAgain_nil : ShowsAgain [] [] :=
  fun a _ _ => .inl ⟨[], a.nextId, rfl, rfl⟩

/-- Source that is read as one item. -/
theorem showsAgain_of_run {cs : List Char} {node : Node}
    (h : ∀ (a : Assembly) (rest : List Char), Delimits rest →
      a.run (cs ++ rest) = (a.push node).run rest) :
    ShowsAgain cs (node.shown.map Opening.marks) :=
  fun a rest hrest => .inl ⟨[node], a.nextId, by simp [Node.shownAll], h a rest hrest.delimits⟩

/-- Reading goes on from one source to the other, if the one may end there. -/
theorem ShowsAgain.append {cs ds : List Char}
    {xs ys : List (Option (List Opening.Mark))} (hx : ShowsAgain cs xs) (hy : ShowsAgain ds ys)
    (hends : ∀ rest, Ends rest → Ends (ds ++ rest)) : ShowsAgain (cs ++ ds) (xs ++ ys) := by
  intro a rest hrest
  rw [List.append_assoc]
  rcases hx a _ (hends rest hrest) with ⟨back, next, hmarks, hrun⟩ | hstop
  · rw [hrun]
    rcases hy ⟨back.reverse ++ a.items, a.frames, next⟩ rest hrest with
      ⟨back', next', hmarks', hrun'⟩ | hstop
    · refine .inl ⟨back ++ back', next', ?_, ?_⟩
      · rw [Node.shownAll_append, List.map_append, hmarks, hmarks']
      · rw [hrun', List.reverse_append, List.append_assoc]
    · exact .inr hstop
  · exact .inr hstop

/-- Reading goes on from one line to the next. -/
theorem ShowsAgain.line {cs ds : List Char}
    {xs ys : List (Option (List Opening.Mark))} (hx : ShowsAgain cs xs) (hy : ShowsAgain ds ys)
    (hstart : StartsItem ds) : ShowsAgain (cs ++ '\n' :: ds) (xs ++ ys) := by
  refine hx.append (fun a rest hrest => ?_) fun rest _ => hstart.ends rest
  rw [List.cons_append, a.run_blank _ (by decide)]
  exact hy a rest hrest

/-! ## Elements -/

/-- Reading goes on with the body of an element, behind attributes with the same marks, or stops. -/
theorem run_head_marked (a : Assembly) {tag : Tag} (htag : IsTag tag) {absent : String}
    (habsent : absent = " " ∨ absent = "") {attributes : Option (List Attribute)}
    (h : AreEntries attributes) {c : Char} (hc : Assembly.OpensBody c) (more : List Char) :
    (∃ back, back.map (List.map mark) = attributes.map (List.map mark) ∧
      a.run (tag.name.toList ++ ((headText absent attributes).toList ++ c :: more)) =
        (Assembly.readBody { a with nextId := a.nextId + 1 } ⟨tag, a.nextId, back, a.items⟩
          (c :: more)).bind fun next => next.1.run next.2) ∨
    ∃ e, a.run (tag.name.toList ++ ((headText absent attributes).toList ++ c :: more)) =
      .error e := by
  by_cases hdepth : a.frames.length < maxDepth
  · have hblanks : ∀ c ∈ absent.toList, isBlank c = true := by
      apply List.all_eq_true.mp
      rcases habsent with rfl | rfl <;> decide
    have hends := Assembly.isIdentifierChar_headText habsent attributes hc more
    rcases readAttributes?_marked hblanks h hc more with
      ⟨back, rest, hread, hskip, hmarks⟩ | ⟨e, hstop⟩
    · refine .inl ⟨back, hmarks, ?_⟩
      rw [a.run_tag htag hdepth hends hread, hskip]
    · refine .inr ⟨e, ?_⟩
      rw [a.run_element htag.isName, a.readElement_name htag hdepth hends, hstop]
      rfl
  · exact .inr ⟨_, Assembly.run_tooDeep (Nat.le_of_not_lt hdepth) htag _⟩

theorem marks_shown_code {xs ys : Option (List Attribute)}
    (h : xs.map (List.map mark) = ys.map (List.map mark)) (i j : Nat) (body other : Option Node) :
    (Node.element .code i xs body).shown.map Opening.marks =
      (Node.element .code j ys other).shown.map Opening.marks := by
  rw [Node.shown_code, Node.shown_code]
  exact congrArg (fun marks => [marks]) h

/-- An element in braces shows the same again if its body does, where that is shown. -/
theorem ShowsAgain.element {inner : String} {marks : List (Option (List Opening.Mark))}
    (h : ShowsAgain inner.toList marks) {tag : Tag} (htag : IsTag tag)
    {attributes : Option (List Attribute)} (hattributes : AreEntries attributes) (id : Nat)
    {items : List Node}
    (hbody : tag.showsBody = true → marks = (Node.shownAll items).map Opening.marks) :
    ShowsAgain (brace tag.name (headText " " attributes) inner).toList
      ((Node.element tag id attributes (some (.block items))).shown.map Opening.marks) := by
  intro a rest hrest
  have hsplit : (brace tag.name (headText " " attributes) inner).toList ++ rest =
      tag.name.toList ++ ((headText " " attributes).toList ++
        '{' :: ' ' :: (inner.toList ++ ' ' :: '}' :: rest)) := by
    simp [brace]
  rw [hsplit]
  rcases run_head_marked a htag (.inl rfl) hattributes (.inl rfl : Assembly.OpensBody '{')
    (' ' :: (inner.toList ++ ' ' :: '}' :: rest)) with ⟨back, hhead, hrun⟩ | hstop
  · rw [hrun, Assembly.readBody, if_pos rfl, expect_cons (by decide) (by decide)]
    show (∃ _ _, _ ∧ Assembly.run ⟨[], _ :: a.frames, a.nextId + 1⟩ (' ' :: _) = _) ∨
      ∃ _, Assembly.run ⟨[], _ :: a.frames, a.nextId + 1⟩ (' ' :: _) = _
    rw [Assembly.run_blank _ _ (by decide)]
    rcases h ⟨[], ⟨tag, a.nextId, back, a.items⟩ :: a.frames, a.nextId + 1⟩ _ (ends_close rest) with
      ⟨backs, next, hmarks, hrun⟩ | hstop
    · refine .inl ⟨[.element tag a.nextId back (some (.block backs))], next, ?_, ?_⟩
      · rw [Node.shownAll, Node.shownAll, List.append_nil]
        by_cases hcode : tag = .code
        · subst hcode
          exact marks_shown_code hhead _ _ _ _
        rw [Node.shown_element hcode, Node.shown_element hcode]
        split
        · rename_i hshows
          rw [Node.shownBody, Node.shownBody, Node.shown, Node.shown, hmarks, hbody hshows]
        · rfl
      · rw [hrun, List.append_nil]
        exact Assembly.run_unbrace _ _ _ _ _ _ _ _
    · exact .inr hstop
  · exact .inr hstop

theorem shown_bare {tag : Tag} (hbare : tag.takesBareString = true) (id : Nat)
    (attributes : Option (List Attribute)) (value : String) :
    (Node.element tag id attributes (some (.string value))).shown = [] := by
  rw [Node.shown_element (Tag.ne_code_of_takesBareString hbare), Node.shownBody]
  simp [Node.shown]

/-- An element with a bare string shows nothing, before and after. -/
theorem showsAgain_bare {tag : Tag} (htag : IsTag tag) {attributes : Option (List Attribute)}
    (h : AreEntries attributes) (hbare : tag.takesBareString = true) (value : String) :
    ShowsAgain (tag.name ++ headText "" attributes ++ quote value).toList [] := by
  intro a rest hrest
  have hread := readString_quote value rest
  rw [toList_quote, List.cons_append] at hread
  have hsplit : (tag.name ++ headText "" attributes ++ quote value).toList ++ rest =
      tag.name.toList ++ ((headText "" attributes).toList ++
        '`' :: (value.toList.flatMap quoteChar ++ ['`'] ++ rest)) := by
    simp [toList_quote]
  rw [hsplit]
  rcases run_head_marked a htag (.inr rfl) h (.inr rfl : Assembly.OpensBody '`')
    (value.toList.flatMap quoteChar ++ ['`'] ++ rest) with ⟨back, hhead, hrun⟩ | hstop
  · refine .inl ⟨[.element tag a.nextId back (some (.string value))], a.nextId + 1, ?_, ?_⟩
    · rw [Node.shownAll, Node.shownAll, shown_bare hbare]
      rfl
    · rw [hrun]
      simp only [Assembly.readBody, hbare, hread, show Start.of '`' = .string by decide]
      rfl
  · exact .inr hstop

/-! ## Items -/

/-- A name without a body stops the reading. -/
theorem run_name (a : Assembly) {tag : Tag} (htag : IsTag tag) (hbare : tag.takesBareString = false)
    {rest : List Char} (hrest : Ends rest) : ∃ e, a.run (tag.name.toList ++ rest) = .error e := by
  by_cases hdepth : a.frames.length < maxDepth
  · have hdelimits : ∀ c ∈ rest.head?, isIdentifierChar c = false := fun c hc =>
      (hrest.delimits c hc).1
    have hlist : Assembly.readAttributes? (skipTrivia rest) = .ok (none, skipTrivia rest) := by
      rw [Assembly.readAttributes?, if_neg]
      exact fun hopen => (hrest.opens _ hopen).1 rfl
    rw [a.run_tag htag hdepth hdelimits hlist, skipTrivia_idem]
    cases hskip : skipTrivia rest with
    | nil => exact ⟨_, rfl⟩
    | cons c more =>
      have hbrace : c ≠ '{' := (hrest.opens c (by rw [hskip]; rfl)).2
      rw [Assembly.readBody, if_neg hbrace, hbare, Bool.and_false]
      exact ⟨_, rfl⟩
  · exact ⟨_, Assembly.run_tooDeep (Nat.le_of_not_lt hdepth) htag _⟩

/-- A number shows nothing, before and after; an infinite one stops the reading. -/
theorem showsAgain_number (x : Number) :
    StartsItem x.text ∧ ShowsAgain x.text [] := by
  cases x with
  | finite negative magnitude =>
    have hx : (Number.finite negative magnitude).isFinite = true := rfl
    obtain ⟨c, cs, hcs, hstart, hblank, hslash, -⟩ := start_of_text hx
    refine ⟨⟨c, cs, hcs, hblank, hslash, ?_, ?_⟩, fun a rest hrest => ?_⟩
    · rintro rfl
      exact absurd hstart (by decide)
    · rintro rfl
      exact absurd hstart (by decide)
    · obtain ⟨y, hrun, -⟩ := a.run_number hx hrest.delimits
      exact .inl ⟨[.number y], a.nextId, by simp [Node.shownAll, Node.shown], hrun⟩
  | infinite negative =>
    cases negative with
    | false =>
      have htag : IsTag (Tag.ofName "inf") := isTag_ofName (isName_of_chars (by decide))
      exact ⟨startsItem_name (isName_of_chars (by decide) : IsName "inf") [],
        fun a rest hrest => .inr (run_name a htag rfl hrest)⟩
    | true =>
      refine ⟨⟨'-', _, rfl, by decide, by decide, by decide, by decide⟩, fun a rest _ => .inr ?_⟩
      have hread : a.readItem ('-' :: 'i' :: 'n' :: 'f' :: rest) =
          .error (.fault (.invalidNumber ['-']) ('-' :: 'i' :: 'n' :: 'f' :: rest)) := by
        rw [Assembly.readItem, show Start.of '-' = .number by decide]
        dsimp only
        rw [readNumber_minus (by decide)]
        rfl
      exact ⟨_, Assembly.run_refused (by decide) (by decide) (by decide) hread⟩

/-- What is written for an item shows the same again. A lone space is not written. -/
def ReadsAlike (item : Node) : Prop :=
  ∀ text, (writeContent item).result = .ok text → item.stringValue? ≠ some " " →
    StartsItem text.toList ∧ ShowsAgain text.toList (item.shown.map Opening.marks)

/-- Each of the items is on lines of its own. -/
theorem showsAgain_items {items : List Node} (h : ∀ item ∈ items, ReadsAlike item)
    {text : String} (htext : (writeItems items).result = .ok text) :
    (text = "" ∨ StartsItem text.toList) ∧
      ShowsAgain text.toList ((Node.shownAll items).map Opening.marks) := by
  induction items generalizing text with
  | nil =>
    have : text = "" := by
      simpa [writeItems, eq_comm] using htext
    subst this
    exact ⟨.inl rfl, showsAgain_nil⟩
  | cons item items ih =>
    rw [List.forall_mem_cons] at h
    obtain ⟨first, others, hfirst, hothers, rfl⟩ := writeItems_cons_eq_ok htext
    obtain ⟨hstarts, hshows⟩ := ih h.2 hothers
    by_cases hspace : item.stringValue? = some " "
    · -- A lone space is left out.
      obtain rfl := eq_string_of_stringValue? hspace
      have : first = "" := by
        simpa [writeContent, quoteLeaf, eq_comm] using hfirst
      subst this
      have hnone : (Node.string " ").shown = [] := by simp [Node.shown]
      rw [joinLines, if_pos rfl, Node.shownAll, hnone]
      exact ⟨hstarts, hshows⟩
    obtain ⟨hstart, hshow⟩ := h.1 first hfirst hspace
    have hne : first ≠ "" := by
      rintro rfl
      obtain ⟨c, more, hnil, -⟩ := hstart
      cases hnil
    rw [joinLines, if_neg hne, Node.shownAll, List.map_append]
    rcases hstarts with rfl | hstarts
    · rw [if_pos rfl]
      refine ⟨.inr hstart, ?_⟩
      have hboth := hshow.append hshows fun rest hrest => hrest
      rwa [String.toList_empty, List.append_nil] at hboth
    · have hothers : others ≠ "" := by
        rintro rfl
        obtain ⟨c, more, hnil, -⟩ := hstarts
        cases hnil
      rw [if_neg hothers]
      have hlines : (first ++ "\n" ++ others).toList = first.toList ++ '\n' :: others.toList := by
        simp
      rw [hlines]
      obtain ⟨c, more, hfirst, hc⟩ := hstart
      refine ⟨.inr ⟨c, more ++ '\n' :: others.toList, by rw [hfirst]; rfl, hc⟩, ?_⟩
      exact hshow.line hshows hstarts

/-- What stands between the braces of an element: its items, unless they are not shown anyway. -/
theorem showsAgain_inner {tag : Tag} {id : Nat} {attributes : Option (List Attribute)}
    (hattributes : AreEntries attributes) {items : List Node} (h : ∀ item ∈ items, ReadsAlike item)
    {text : String}
    (htext : (writeContent (.element tag id attributes (some (.block items)))).result = .ok text) :
    ∃ inner marks, text = brace tag.name (headText " " attributes) inner ∧
      ShowsAgain inner.toList marks ∧
      (tag.showsBody = true → marks = (Node.shownAll items).map Opening.marks) := by
  by_cases himage : tag = .image
  · subst himage
    rw [writeContent_image hattributes] at htext
    cases htext
    refine ⟨_, _, rfl, @showsAgain_of_run _ (.string "") fun a rest _ => a.run_empty rest, ?_⟩
    rintro ⟨⟩
  by_cases hcode : tag = .code
  · subst hcode
    rw [writeContent_code hattributes] at htext
    cases hvalue : codeText (some (.block items)) with
    | error e =>
      rw [hvalue] at htext
      cases htext
    | ok value =>
      rw [hvalue] at htext
      cases htext
      refine ⟨_, _, rfl,
        @showsAgain_of_run _ (.string value) fun a rest _ => a.run_quoteCode value rest, ?_⟩
      rintro ⟨⟩
  rw [writeContent_braced hattributes himage hcode] at htext
  cases hinner : (writeItems items).result with
  | error e =>
    rw [hinner] at htext
    cases htext
  | ok inner =>
    rw [hinner] at htext
    cases htext
    exact ⟨inner, _, rfl, (showsAgain_items h hinner).2, fun _ => rfl⟩

theorem readsAlike_of_isItem {room : Nat} {item : Node} (h : IsItem room item) :
    ReadsAlike item := by
  induction h with
  | string value =>
    intro text htext hspace
    obtain rfl := writeContent_string htext hspace
    refine ⟨⟨'`', _, toList_quote value, by decide, by decide, by decide, by decide⟩, ?_⟩
    exact showsAgain_of_run fun a rest _ => a.run_quote value rest
  | number x =>
    intro text htext _
    obtain rfl := writeContent_number htext
    have hnone : (Node.number x).shown = [] := by simp [Node.shown]
    rw [String.toList_ofList, hnone]
    exact showsAgain_number x
  | @braced room id tag attributes items htag hattributes _ ih =>
    intro text htext _
    obtain ⟨inner, marks, rfl, hshows, hbody⟩ := showsAgain_inner hattributes ih htext
    refine ⟨?_, hshows.element htag hattributes id hbody⟩
    rw [brace, String.toList_append, String.toList_append, String.toList_append,
      String.toList_append, List.append_assoc, List.append_assoc, List.append_assoc]
    exact startsItem_name htag.isName _
  | @bare room id tag attributes value htag hattributes hbare =>
    intro text htext _
    rw [writeContent_bare hattributes hbare] at htext
    cases htext
    rw [shown_bare hbare]
    refine ⟨?_, showsAgain_bare htag hattributes hbare value⟩
    rw [String.toList_append, String.toList_append, List.append_assoc]
    exact startsItem_name htag.isName _

/-! ## Documents -/

/-- A document that was written shows code elements with the same marks when its source is read. -/
theorem marks_of_read_write {tree back : Node} (h : IsDocument tree) {source : String}
    (hwrite : write tree = .ok source) (hread : read source = .ok back) :
    back.shown.map Opening.marks = tree.shown.map Opening.marks := by
  obtain ⟨items, rfl, hitems⟩ := h
  rw [write_ofItems] at hwrite
  obtain ⟨-, hshows⟩ :=
    showsAgain_items (fun item hitem => readsAlike_of_isItem (hitems item hitem)) hwrite
  rw [read] at hread
  rcases hshows .empty [] ends_nil with ⟨backs, next, hmarks, hrun⟩ | ⟨e, hstop⟩
  · rw [List.append_nil] at hrun
    rw [hrun, Assembly.run_end rfl] at hread
    cases hread
    rw [Node.shown_ofItems, Node.shown_ofItems, ← hmarks]
    simp [Assembly.empty]
  · rw [List.append_nil] at hstop
    rw [hstop] at hread
    cases hread

end Source

end ChatMarkup

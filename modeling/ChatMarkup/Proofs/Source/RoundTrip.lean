import ChatMarkup.Proofs.Source.WrittenAttributes

/-!
# Written documents read back

Reading goes on behind the canonical source of an item as if the item had been read from any other
source. What a step does is said of `Assembly.run`, so that the source behind an item is whatever
the induction needs it to be.

* `ReadsBack`: what is claimed of an item, by induction over the grammar (`IsItem.readsBack`);
* `IsDocument.readsBack`: a document that was written is read as the settled document, renumbered,
  and is written the same way again.
-/

namespace ChatMarkup.Source

namespace Assembly

/-! ## Steps -/

theorem run_of_step {a b : Assembly} {cs rest : List Char} (h : a.step cs = .ok (.next b rest)) :
    a.run cs = b.run rest := by
  rw [run.eq_def]
  split
  · rename_i heq
    rw [h] at heq
    cases heq
  · rename_i heq
    rw [h] at heq
    cases heq
  · rename_i heq
    rw [h] at heq
    cases heq
    rfl

theorem run_of_error {a : Assembly} {cs : List Char} {e : Stop} (h : a.step cs = .error e) :
    a.run cs = .error e := by
  rw [run.eq_def]
  split <;> rename_i heq <;> rw [h] at heq <;> cases heq
  rfl

/-- Reading depends on what stands behind trivia only. -/
theorem run_congr (a : Assembly) {cs ds : List Char} (h : skipTrivia cs = skipTrivia ds) :
    a.run cs = a.run ds := by
  have hstep : a.step cs = a.step ds := by
    rw [step, step, h]
  rw [run.eq_def, run.eq_def a ds, hstep]

theorem run_blank (a : Assembly) {c : Char} (rest : List Char) (hc : isBlank c = true) :
    a.run (c :: rest) = a.run rest :=
  a.run_congr (skipTrivia_blank rest hc)

theorem run_item {a b : Assembly} {c : Char} {cs rest : List Char} (hblank : isBlank c = false)
    (hslash : c ≠ '/') (hbrace : c ≠ '}') (h : a.readItem (c :: cs) = .ok (b, rest)) :
    a.run (c :: cs) = b.run rest := by
  apply run_of_step
  rw [step, skipTrivia_token hblank hslash]
  simp [hbrace, h]

theorem run_refused {a : Assembly} {c : Char} {cs : List Char} {e : Stop}
    (hblank : isBlank c = false) (hslash : c ≠ '/') (hbrace : c ≠ '}')
    (h : a.readItem (c :: cs) = .error e) : a.run (c :: cs) = .error e := by
  apply run_of_error
  rw [step, skipTrivia_token hblank hslash]
  simp [hbrace, h]

theorem run_close {a : Assembly} {frame : Frame} {frames : List Frame}
    (h : a.frames = frame :: frames) (rest : List Char) :
    a.run ('}' :: rest) = (a.close frame frames).run rest := by
  apply run_of_step
  rw [step, skipTrivia_token (by decide) (by decide)]
  simp [h]

theorem run_of_done {a : Assembly} {cs : List Char} {items : List Node}
    (h : a.step cs = .ok (.done items)) : a.run cs = .ok items := by
  rw [run.eq_def]
  split
  · rename_i heq
    rw [h] at heq
    cases heq
  · rename_i heq
    rw [h] at heq
    cases heq
    rfl
  · rename_i heq
    rw [h] at heq
    cases heq

theorem run_end {a : Assembly} (h : a.frames = []) : a.run [] = .ok a.items.reverse := by
  apply run_of_done
  simp [step, skipTrivia, skipTriviaFrom, h]

/-! ## Literals -/

theorem run_string (a : Assembly) {c : Char} {cs rest : List Char} {value : String}
    (hc : Start.of c = .string) (hblank : isBlank c = false) (hslash : c ≠ '/') (hbrace : c ≠ '}')
    (h : readString (c :: cs) = .ok (value, rest)) :
    a.run (c :: cs) = (a.push (.string value)).run rest := by
  refine run_item hblank hslash hbrace ?_
  simp only [readItem, hc, h]
  rfl

theorem run_quote (a : Assembly) (value : String) (rest : List Char) :
    a.run ((quote value).toList ++ rest) = (a.push (.string value)).run rest := by
  have hread := readString_quote value rest
  rw [toList_quote, List.cons_append] at hread ⊢
  exact a.run_string (by decide) (by decide) (by decide) (by decide) hread

theorem run_quoteCode (a : Assembly) (value : String) (rest : List Char) :
    a.run ((quoteCode value).toList ++ rest) = (a.push (.string value)).run rest := by
  have hread := readString_quoteCode value rest
  rw [toList_quoteCode, List.cons_append] at hread ⊢
  exact a.run_string (by decide) (by decide) (by decide) (by decide) hread

theorem run_empty (a : Assembly) (rest : List Char) :
    a.run ('"' :: '"' :: rest) = (a.push (.string "")).run rest :=
  a.run_string (by decide) (by decide) (by decide) (by decide) (readString_empty rest)

theorem run_number (a : Assembly) {x : Number} (hx : x.isFinite = true) {rest : List Char}
    (hrest : Delimits rest) :
    ∃ y, a.run (x.text ++ rest) = (a.push (.number y)).run rest ∧ y.same x = true ∧
      y.text = x.text := by
  obtain ⟨y, hread, hsame, htext⟩ := readNumber_text hx hrest
  obtain ⟨c, cs, hcs, hstart, hblank, hslash, hbrace⟩ := start_of_text hx
  refine ⟨y, ?_, hsame, htext⟩
  rw [hcs, List.cons_append] at hread ⊢
  refine run_item hblank hslash hbrace ?_
  simp only [readItem, hstart, hread]
  rfl

/-! ## Heads -/

/-- A character that a body starts with. -/
def OpensBody (c : Char) : Prop :=
  c = '{' ∨ c = '`'

theorem skipTrivia_blanks {blanks : List Char} (h : ∀ c ∈ blanks, isBlank c = true)
    (cs : List Char) :
    skipTrivia (blanks ++ cs) = skipTrivia cs := by
  induction blanks with
  | nil => rfl
  | cons c blanks ih =>
    rw [List.cons_append, skipTrivia_blank _ (h c List.mem_cons_self),
      ih fun d hd => h d (List.mem_cons_of_mem _ hd)]

theorem OpensBody.skipTrivia {c : Char} (h : OpensBody c) (rest : List Char) :
    Source.skipTrivia (c :: rest) = c :: rest := by
  rcases h with rfl | rfl <;> exact skipTrivia_token (by decide) (by decide)

/-- What is written between a tag and its body is read as attributes that are the same and are
written the same way again. -/
theorem readAttributes?_headText {absent : String} (habsent : ∀ c ∈ absent.toList, isBlank c = true)
    {attributes : Option (List Attribute)} (h : AreEntries attributes)
    (hfinite : ∀ x ∈ Node.numbersOfHead attributes, x.isFinite = true) {c : Char}
    (hc : OpensBody c) (more : List Char) :
    ∃ back rest, readAttributes?
        (skipTrivia ((headText absent attributes).toList ++ c :: more)) = .ok (back, rest) ∧
      skipTrivia rest = c :: more ∧ Node.sameHead back attributes = true ∧ AreEntries back ∧
      headText absent back = headText absent attributes := by
  cases attributes with
  | none =>
    refine ⟨none, c :: more, ?_, hc.skipTrivia more, rfl, areEntries_none, rfl⟩
    rw [headText, skipTrivia_blanks habsent _, hc.skipTrivia, readAttributes?, if_neg]
    rcases hc with rfl | rfl <;> simp
  | some entries =>
    obtain ⟨back, hread, hsame, htext, hback⟩ :=
      readAttributes_bracket (areEntries_some.mp h) hfinite (c :: more)
    refine ⟨some back, ' ' :: c :: more, ?_, ?_, hsame, areEntries_some.mpr hback, ?_⟩
    · have hopen : ∃ cs, (bracket (entries.map entryText)).toList ++ c :: more = '[' :: cs := by
        simp [bracket]
      obtain ⟨cs, hcs⟩ := hopen
      rw [headText, hcs, skipTrivia_token (by decide) (by decide), readAttributes?,
        if_pos (by simp), ← hcs, hread]
      rfl
    · rw [skipTrivia_blank _ (by decide), hc.skipTrivia]
    · simp [headText, htext]

/-- Neither a bracket nor a blank nor the start of a body goes on with the name of a tag. -/
theorem isIdentifierChar_headText {absent : String} (habsent : absent = " " ∨ absent = "")
    (attributes : Option (List Attribute)) {c : Char} (hc : OpensBody c) (more : List Char) :
    ∀ d ∈ ((headText absent attributes).toList ++ c :: more).head?, isIdentifierChar d = false := by
  intro d hd
  cases attributes with
  | none =>
    rcases habsent with rfl | rfl
    · cases hd
      decide
    · rcases hc with rfl | rfl <;> cases hd <;> decide
  | some entries =>
    have : d = '[' := by
      simpa [headText, bracket, eq_comm] using hd
    subst this
    decide

/-- Reading goes on behind the head of an element. -/
theorem run_element (a : Assembly) {name : String} (hname : IsName name) (more : List Char) :
    a.run (name.toList ++ more) =
      (a.readElement (name.toList ++ more)).bind fun next => next.1.run next.2 := by
  obtain ⟨d, ds, hlist, hd, -⟩ := hname
  have hblank : isBlank d = false := isBlank_of_isIdentifierStart hd
  have hslash : d ≠ '/' := ne_of_isIdentifierStart hd (by decide)
  have hbrace : d ≠ '}' := ne_of_isIdentifierStart hd (by decide)
  have hitem : a.readItem (d :: (ds ++ more)) = a.readElement (d :: (ds ++ more)) := by
    rw [readItem, start_of_isIdentifierStart hd]
  rw [hlist, List.cons_append, ← hitem]
  cases hread : a.readItem (d :: (ds ++ more)) with
  | error e => exact run_refused hblank hslash hbrace hread
  | ok next => exact run_item hblank hslash hbrace hread

/-- Behind a tag its attributes are read, and then its body. -/
theorem readElement_name (a : Assembly) {tag : Tag} (htag : IsTag tag)
    (hdepth : a.frames.length < maxDepth) {more : List Char}
    (hmore : ∀ c ∈ more.head?, isIdentifierChar c = false) :
    a.readElement (tag.name.toList ++ more) =
      (readAttributes? (skipTrivia more)).bind fun head =>
        readBody { a with nextId := a.nextId + 1 } ⟨tag, a.nextId, head.1, a.items⟩
          (skipTrivia head.2) := by
  rw [readElement, if_neg (Nat.not_le.mpr hdepth), readIdentifier_append htag.isName hmore]
  simp only [htag.ofName_name]
  cases readAttributes? (skipTrivia more) <;> rfl

/-- Reading goes on with the body, behind attributes that are read. -/
theorem run_tag (a : Assembly) {tag : Tag} (htag : IsTag tag) (hdepth : a.frames.length < maxDepth)
    {more rest : List Char} (hmore : ∀ c ∈ more.head?, isIdentifierChar c = false)
    {attributes : Option (List Attribute)}
    (hread : readAttributes? (skipTrivia more) = .ok (attributes, rest)) :
    a.run (tag.name.toList ++ more) =
      (readBody { a with nextId := a.nextId + 1 } ⟨tag, a.nextId, attributes, a.items⟩
        (skipTrivia rest)).bind fun next => next.1.run next.2 := by
  rw [a.run_element htag.isName, a.readElement_name htag hdepth hmore, hread]
  rfl

theorem run_head (a : Assembly) {tag : Tag} (htag : IsTag tag) {absent : String}
    (habsent : absent = " " ∨ absent = "") {attributes : Option (List Attribute)}
    (h : AreEntries attributes)
    (hfinite : ∀ x ∈ Node.numbersOfHead attributes, x.isFinite = true) {c : Char}
    (hc : OpensBody c) (more : List Char) (hdepth : a.frames.length < maxDepth) :
    ∃ back, Node.sameHead back attributes = true ∧ AreEntries back ∧
      headText absent back = headText absent attributes ∧
      ∀ b rest,
        readBody { a with nextId := a.nextId + 1 } ⟨tag, a.nextId, back, a.items⟩ (c :: more) =
          .ok (b, rest) →
        a.run (tag.name.toList ++ ((headText absent attributes).toList ++ c :: more)) =
          b.run rest := by
  have hblanks : ∀ c ∈ absent.toList, isBlank c = true := by
    apply List.all_eq_true.mp
    rcases habsent with rfl | rfl <;> decide
  obtain ⟨back, rest', hread, hskip, hsame, hback, htext⟩ :=
    readAttributes?_headText hblanks h hfinite hc more
  refine ⟨back, hsame, hback, htext, fun b rest hbody => ?_⟩
  rw [a.run_tag htag hdepth (isIdentifierChar_headText habsent attributes hc more) hread, hskip,
    hbody]
  rfl

/-- Reading goes into the body of an element with braces. -/
theorem run_brace (a : Assembly) {tag : Tag} (htag : IsTag tag)
    {attributes : Option (List Attribute)} (h : AreEntries attributes)
    (hfinite : ∀ x ∈ Node.numbersOfHead attributes, x.isFinite = true)
    (hdepth : a.frames.length < maxDepth) (inner : String) (rest : List Char) :
    ∃ back, Node.sameHead back attributes = true ∧ AreEntries back ∧
      headText " " back = headText " " attributes ∧
      a.run ((brace tag.name (headText " " attributes) inner).toList ++ rest) =
        run ⟨[], ⟨tag, a.nextId, back, a.items⟩ :: a.frames, a.nextId + 1⟩
          (inner.toList ++ ' ' :: '}' :: rest) := by
  obtain ⟨back, hsame, hback, htext, hrun⟩ := a.run_head htag (.inl rfl) h hfinite
    (.inl rfl : OpensBody '{') (' ' :: (inner.toList ++ ' ' :: '}' :: rest)) hdepth
  refine ⟨back, hsame, hback, htext, ?_⟩
  have hsplit : (brace tag.name (headText " " attributes) inner).toList ++ rest =
      tag.name.toList ++ ((headText " " attributes).toList ++
        '{' :: ' ' :: (inner.toList ++ ' ' :: '}' :: rest)) := by
    simp [brace]
  rw [hsplit, hrun ⟨[], ⟨tag, a.nextId, back, a.items⟩ :: a.frames, a.nextId + 1⟩
    (' ' :: (inner.toList ++ ' ' :: '}' :: rest))]
  · exact run_blank _ _ (by decide)
  · simp [readBody, expect_cons (show isBlank '{' = false by decide) (show '{' ≠ '/' by decide)]

/-- Reading comes out of the body of an element with braces. -/
theorem run_unbrace (items outer : List Node) (frames : List Frame) (tag : Tag) (id next : Nat)
    (attributes : Option (List Attribute)) (rest : List Char) :
    run ⟨items.reverse, ⟨tag, id, attributes, outer⟩ :: frames, next⟩ (' ' :: '}' :: rest) =
      run ⟨.element tag id attributes (some (.block items)) :: outer, frames, next⟩ rest := by
  rw [run_blank _ _ (by decide), run_close rfl]
  simp [close]

/-- Reading an inline element with a bare string. -/
theorem run_bare (a : Assembly) {tag : Tag} (htag : IsTag tag)
    {attributes : Option (List Attribute)} (h : AreEntries attributes)
    (hfinite : ∀ x ∈ Node.numbersOfHead attributes, x.isFinite = true)
    (hbare : tag.takesBareString = true) (hdepth : a.frames.length < maxDepth) (text : String)
    (rest : List Char) :
    ∃ back, Node.sameHead back attributes = true ∧ AreEntries back ∧
      headText "" back = headText "" attributes ∧
      a.run ((tag.name ++ headText "" attributes ++ quote text).toList ++ rest) =
        run ⟨.element tag a.nextId back (some (.string text)) :: a.items, a.frames, a.nextId + 1⟩
          rest := by
  have hread := readString_quote text rest
  rw [toList_quote, List.cons_append] at hread
  obtain ⟨back, hsame, hback, htext, hrun⟩ := a.run_head htag (.inr rfl) h hfinite
    (.inr rfl : OpensBody '`') (text.toList.flatMap quoteChar ++ ['`'] ++ rest) hdepth
  refine ⟨back, hsame, hback, htext, ?_⟩
  have hsplit : (tag.name ++ headText "" attributes ++ quote text).toList ++ rest =
      tag.name.toList ++ ((headText "" attributes).toList ++
        '`' :: (text.toList.flatMap quoteChar ++ ['`'] ++ rest)) := by
    simp [toList_quote]
  rw [hsplit]
  refine hrun _ _ ?_
  simp only [readBody, hbare, hread, show Start.of '`' = .string by decide]
  rfl

end Assembly

/-! ## What is written for an element -/

theorem writeContent_image {id : Nat} {attributes : Option (List Attribute)} {body : Option Node}
    (h : AreEntries attributes) :
    (writeContent (.element .image id attributes body)).result =
      .ok (brace Tag.image.name (headText " " attributes) "\"\"") := by
  simp [writeContent, writeHead_eq " " h, Except.bind]

theorem writeContent_code {id : Nat} {attributes : Option (List Attribute)} {body : Option Node}
    (h : AreEntries attributes) :
    (writeContent (.element .code id attributes body)).result =
      (codeText body).map fun text =>
        brace Tag.code.name (headText " " attributes) (quoteCode text) := by
  simp only [writeContent, Traced.result_bind, Traced.result_pure, writeHead_eq " " h,
    Writing.lift]
  cases codeText body <;> rfl

theorem writeContent_bare {tag : Tag} {id : Nat} {attributes : Option (List Attribute)}
    {text : String} (h : AreEntries attributes) (hbare : tag.takesBareString = true) :
    (writeContent (.element tag id attributes (some (.string text)))).result =
      .ok (tag.name ++ headText "" attributes ++ quote text) := by
  rw [writeContent]
  · simp [bareString?, hbare, Node.stringValue?, writeHead_eq "" h, Except.bind]
  · exact Tag.ne_image_of_takesBareString hbare
  · exact Tag.ne_code_of_takesBareString hbare

theorem writeContent_braced {tag : Tag} {id : Nat} {attributes : Option (List Attribute)}
    {items : List Node} (h : AreEntries attributes) (himage : tag ≠ .image) (hcode : tag ≠ .code) :
    (writeContent (.element tag id attributes (some (.block items)))).result =
      (writeItems items).result.map (brace tag.name (headText " " attributes)) := by
  have hbare : bareString? tag (some (.block items)) = none := by
    simp [bareString?, Node.stringValue?]
  rw [writeContent]
  · simp only [hbare, Traced.result_bind, Traced.result_pure, writeHead_eq " " h, writeBody,
      writeContent, Traced.result_see, Except.bind]
    cases (writeItems items).result <;> rfl
  · exact himage
  · exact hcode

/-! ## Items -/

/-- What is written for an item, unless that is a lone space, is read back in any body with room
for it: as an item that is the same as the settled one, numbered from the next number on, and that
is written the same way again. -/
def ReadsBack (room : Nat) (item : Node) : Prop :=
  ∀ text, (writeContent item).result = .ok text → item.stringValue? ≠ some " " →
    text ≠ "" ∧
    ∀ (a : Assembly) (rest : List Char), Delimits rest → room + a.frames.length ≤ maxDepth →
      ∃ back : Node, back.same (item.settled.renumber a.nextId).1 = true ∧
        (writeContent back).result = .ok text ∧
        a.run (text.toList ++ rest) =
          Assembly.run ⟨back :: a.items, a.frames, (item.settled.renumber a.nextId).2⟩ rest

theorem writeItems_cons (item : Node) (items : List Node) :
    (writeItems (item :: items)).result =
      (writeContent item).result.bind fun first =>
        (writeItems items).result.map (joinLines first) := by
  simp only [writeItems, Traced.result_bind, Traced.result_see, Traced.result_pure, Except.bind]
  cases (writeContent item).result with
  | error e => rfl
  | ok first => cases (writeItems items).result <;> rfl

theorem writeItems_cons_ok {item : Node} {items : List Node} {first others : String}
    (hfirst : (writeContent item).result = .ok first)
    (hothers : (writeItems items).result = .ok others) :
    (writeItems (item :: items)).result = .ok (joinLines first others) := by
  rw [writeItems_cons, hfirst, hothers]
  rfl

theorem writeItems_cons_eq_ok {item : Node} {items : List Node} {text : String}
    (h : (writeItems (item :: items)).result = .ok text) :
    ∃ first others, (writeContent item).result = .ok first ∧
      (writeItems items).result = .ok others ∧ text = joinLines first others := by
  rw [writeItems_cons] at h
  cases hfirst : (writeContent item).result with
  | error e =>
    rw [hfirst] at h
    cases h
  | ok first =>
    cases hothers : (writeItems items).result with
    | error e =>
      rw [hfirst, hothers] at h
      cases h
    | ok others =>
      rw [hfirst, hothers] at h
      cases h
      exact ⟨first, others, rfl, rfl, rfl⟩

theorem eq_string_of_stringValue? {item : Node} {value : String}
    (h : item.stringValue? = some value) : item = .string value := by
  cases item <;> simp_all [Node.stringValue?]

/-- Items that are read back one by one are read back one after the other. -/
theorem readsBack_items {room : Nat} {items : List Node} (h : ∀ item ∈ items, ReadsBack room item)
    {text : String} (htext : (writeItems items).result = .ok text) (a : Assembly)
    {rest : List Char} (hrest : Delimits rest) (hroom : room + a.frames.length ≤ maxDepth) :
    ∃ back : List Node,
      Node.sameAll back (Node.renumberAll a.nextId (Node.settledAll items)).1 = true ∧
      (writeItems back).result = .ok text ∧
      a.run (text.toList ++ rest) =
        Assembly.run ⟨back.reverse ++ a.items, a.frames,
          (Node.renumberAll a.nextId (Node.settledAll items)).2⟩ rest := by
  induction items generalizing a text with
  | nil =>
    have : text = "" := by
      simpa [writeItems, eq_comm] using htext
    subst this
    exact ⟨[], rfl, by simp [writeItems], by simp [Node.settledAll, Node.renumberAll]⟩
  | cons item items ih =>
    obtain ⟨first, others, hfirst, hothers, rfl⟩ := writeItems_cons_eq_ok htext
    have hitems : ∀ i ∈ items, ReadsBack room i := fun i hi => h i (List.mem_cons_of_mem _ hi)
    by_cases hspace : item.stringValue? = some " "
    · have : first = "" := by
        rw [eq_string_of_stringValue? hspace] at hfirst
        simpa [writeContent, quoteLeaf, eq_comm] using hfirst
      subst this
      simp only [Node.settledAll, hspace, if_true, joinLines]
      exact ih hitems hothers a hroom
    · obtain ⟨hne, hread⟩ := h item List.mem_cons_self first hfirst hspace
      simp only [Node.settledAll, hspace, if_false, Node.renumberAll]
      by_cases hempty : others = ""
      · subst hempty
        obtain ⟨back, hsame, hwrite, hrun⟩ := hread a rest hrest hroom
        obtain ⟨backs, hsames, hwrites, hruns⟩ := ih hitems hothers
          ⟨back :: a.items, a.frames, (item.settled.renumber a.nextId).2⟩ hroom
        refine ⟨back :: backs, Node.sameAll_cons hsame hsames,
          writeItems_cons_ok hwrite hwrites, ?_⟩
        simp only [joinLines, hne, if_false, if_true, hrun]
        simpa using hruns
      · obtain ⟨back, hsame, hwrite, hrun⟩ :=
          hread a ('\n' :: (others.toList ++ rest)) (delimits_cons (by decide) (by decide)) hroom
        obtain ⟨backs, hsames, hwrites, hruns⟩ := ih hitems hothers
          ⟨back :: a.items, a.frames, (item.settled.renumber a.nextId).2⟩ hroom
        refine ⟨back :: backs, Node.sameAll_cons hsame hsames,
          writeItems_cons_ok hwrite hwrites, ?_⟩
        have hsplit : (joinLines first others).toList ++ rest =
            first.toList ++ '\n' :: (others.toList ++ rest) := by
          simp [joinLines, hne, hempty]
        rw [hsplit, hrun, Assembly.run_blank _ _ (by decide)]
        simpa using hruns

theorem settled_element {tag : Tag} {id : Nat} {attributes : Option (List Attribute)}
    {body : Option Node} (himage : tag ≠ .image) (hcode : tag ≠ .code) :
    (Node.element tag id attributes body).settled =
      .element tag id attributes (Node.settledBody body) := by
  rw [Node.settled]
  · exact himage
  · exact hcode

theorem writeContent_string {value text : String}
    (htext : (writeContent (.string value)).result = .ok text)
    (hspace : (Node.string value).stringValue? ≠ some " ") : text = quote value := by
  have hvalue : value ≠ " " := by simpa [Node.stringValue?] using hspace
  simpa [writeContent, quoteLeaf, hvalue, eq_comm] using htext

theorem writeContent_number {x : Number} {text : String}
    (htext : (writeContent (.number x)).result = .ok text) : text = String.ofList x.text := by
  simpa [writeContent, eq_comm] using htext

theorem readsBack_string (room : Nat) (value : String) : ReadsBack room (.string value) := by
  intro text htext hspace
  obtain rfl := writeContent_string htext hspace
  refine ⟨by simp [quote, ← String.toList_inj], fun a rest _ _ => ⟨.string value, ?_, htext, ?_⟩⟩
  · simp [Node.settled, Node.renumber, Node.same]
  · simp only [a.run_quote, Assembly.push, Node.settled, Node.renumber]

theorem readsBack_number (room : Nat) {x : Number} (hx : x.isFinite = true) :
    ReadsBack room (.number x) := by
  intro text htext _
  obtain rfl := writeContent_number htext
  obtain ⟨c, cs, hcs, -⟩ := start_of_text hx
  refine ⟨by simp [hcs, ← String.toList_inj], fun a rest hrest _ => ?_⟩
  obtain ⟨y, hrun, hsame, hy⟩ := a.run_number hx hrest
  refine ⟨.number y, by simpa [Node.settled, Node.renumber, Node.same] using hsame,
    by simp [writeContent, hy], ?_⟩
  simpa [Assembly.push, Node.settled, Node.renumber] using hrun

theorem brace_ne_empty (tag head body : String) : brace tag head body ≠ "" := by
  intro h
  have := congrArg String.toList h
  simp [brace] at this

theorem readsBack_image {room id : Nat} {attributes : Option (List Attribute)} {items : List Node}
    (h : AreEntries attributes) (hfinite : ∀ x ∈ Node.numbersOfHead attributes, x.isFinite = true)
    (htag : IsTag .image) :
    ReadsBack (room + 1) (.element .image id attributes (some (.block items))) := by
  intro text htext _
  rw [writeContent_image h] at htext
  cases htext
  refine ⟨brace_ne_empty _ _ _, fun a rest hrest hroom => ?_⟩
  obtain ⟨back, hsame, hback, hhead, hrun⟩ :=
    a.run_brace htag h hfinite (by omega) "\"\"" rest
  refine ⟨.element .image a.nextId back (some (.block [.string ""])), ?_, ?_, ?_⟩
  · simp only [Node.settled, Node.renumber, Node.renumberBody, Node.renumberAll]
    exact Node.same_element hsame (by simp [Node.same, Node.sameAll])
  · rw [writeContent_image hback, hhead]
  · rw [hrun]
    refine (Assembly.run_empty _ _).trans ?_
    simp only [Node.settled, Node.renumber, Node.renumberBody, Node.renumberAll]
    exact Assembly.run_unbrace [.string ""] _ _ _ _ _ _ _

theorem eq_string_of_codeText {items : List Node} {value : String}
    (h : codeText (some (.block items)) = .ok value) : items = [.string value] := by
  rw [codeText.eq_def] at h
  split at h
  · simp_all
  all_goals cases h

theorem readsBack_code {room id : Nat} {attributes : Option (List Attribute)} {items : List Node}
    (h : AreEntries attributes) (hfinite : ∀ x ∈ Node.numbersOfHead attributes, x.isFinite = true)
    (htag : IsTag .code) :
    ReadsBack (room + 1) (.element .code id attributes (some (.block items))) := by
  intro text htext _
  rw [writeContent_code h] at htext
  obtain ⟨value, hvalue⟩ : ∃ value, codeText (some (.block items)) = .ok value := by
    cases hcode : codeText (some (.block items)) with
    | error e =>
      rw [hcode] at htext
      cases htext
    | ok value => exact ⟨value, rfl⟩
  obtain rfl := eq_string_of_codeText hvalue
  cases htext
  refine ⟨brace_ne_empty _ _ _, fun a rest hrest hroom => ?_⟩
  obtain ⟨back, hsame, hback, hhead, hrun⟩ :=
    a.run_brace htag h hfinite (by omega) (quoteCode value) rest
  refine ⟨.element .code a.nextId back (some (.block [.string value])), ?_, ?_, ?_⟩
  · simp only [Node.settled, Node.renumber, Node.renumberBody, Node.renumberAll]
    exact Node.same_element hsame (by simp [Node.same, Node.sameAll])
  · rw [writeContent_code hback, hhead]
    rfl
  · rw [hrun, Assembly.run_quoteCode]
    simp only [Node.settled, Node.renumber, Node.renumberBody, Node.renumberAll]
    exact Assembly.run_unbrace [.string value] _ _ _ _ _ _ _

theorem readsBack_braced {room id : Nat} {tag : Tag} {attributes : Option (List Attribute)}
    {items : List Node} (htag : IsTag tag) (h : AreEntries attributes)
    (hfinite : ∀ x ∈ Node.numbersOfHead attributes, x.isFinite = true)
    (hitems : ∀ item ∈ items, ReadsBack room item) :
    ReadsBack (room + 1) (.element tag id attributes (some (.block items))) := by
  by_cases himage : tag = .image
  · subst himage
    exact readsBack_image h hfinite htag
  by_cases hcode : tag = .code
  · subst hcode
    exact readsBack_code h hfinite htag
  intro text htext _
  rw [writeContent_braced h himage hcode] at htext
  cases hinner : (writeItems items).result with
  | error e =>
    rw [hinner] at htext
    cases htext
  | ok inner =>
    rw [hinner] at htext
    cases htext
    refine ⟨brace_ne_empty _ _ _, fun a rest hrest hroom => ?_⟩
    obtain ⟨back, hsame, hback, hhead, hrun⟩ := a.run_brace htag h hfinite (by omega) inner rest
    obtain ⟨backs, hsames, hwrites, hruns⟩ := readsBack_items hitems hinner
      ⟨[], ⟨tag, a.nextId, back, a.items⟩ :: a.frames, a.nextId + 1⟩
      (delimits_cons (by decide) (by decide) : Delimits (' ' :: '}' :: rest))
      (by simp only [List.length_cons]; omega)
    refine ⟨.element tag a.nextId back (some (.block backs)), ?_, ?_, ?_⟩
    · rw [settled_element himage hcode]
      simp only [Node.settledBody, Node.settled, Node.renumber, Node.renumberBody]
      exact Node.same_element hsame (by simpa only [Node.same] using hsames)
    · rw [writeContent_braced hback himage hcode, hwrites, hhead]
      rfl
    · rw [hrun, hruns, settled_element himage hcode, List.append_nil]
      simp only [Node.settledBody, Node.settled, Node.renumber, Node.renumberBody]
      exact Assembly.run_unbrace _ _ _ _ _ _ _ _

theorem readsBack_bare {room id : Nat} {tag : Tag} {attributes : Option (List Attribute)}
    {value : String} (htag : IsTag tag) (h : AreEntries attributes)
    (hfinite : ∀ x ∈ Node.numbersOfHead attributes, x.isFinite = true)
    (hbare : tag.takesBareString = true) :
    ReadsBack (room + 1) (.element tag id attributes (some (.string value))) := by
  have himage := Tag.ne_image_of_takesBareString hbare
  have hcode := Tag.ne_code_of_takesBareString hbare
  intro text htext _
  rw [writeContent_bare h hbare] at htext
  cases htext
  have hne : tag.name ++ headText "" attributes ++ quote value ≠ "" := by
    intro hempty
    have := congrArg String.toList hempty
    simp [toList_quote] at this
  refine ⟨hne, fun a rest hrest hroom => ?_⟩
  obtain ⟨back, hsame, hback, hhead, hrun⟩ :=
    a.run_bare htag h hfinite hbare (by omega) value rest
  refine ⟨.element tag a.nextId back (some (.string value)), ?_, ?_, ?_⟩
  · rw [settled_element himage hcode]
    simp only [Node.settledBody, Node.settled, Node.renumber, Node.renumberBody]
    exact Node.same_element hsame (by simp [Node.same])
  · rw [writeContent_bare hback hbare, hhead]
  · rw [hrun, settled_element himage hcode]
    simp only [Node.settledBody, Node.settled, Node.renumber, Node.renumberBody]

/-- Every item of the grammar is read back, if its numbers are finite. -/
theorem IsItem.readsBack {room : Nat} {item : Node} (h : IsItem room item)
    (hfinite : ∀ x ∈ item.numbers, x.isFinite = true) : ReadsBack room item := by
  induction h with
  | string value => exact readsBack_string _ value
  | number value => exact readsBack_number _ (hfinite value (by simp [Node.numbers]))
  | braced htag hattributes _ ih =>
    simp only [Node.numbers, Node.numbersOfBody, List.mem_append, Node.mem_numbersOfAll] at hfinite
    exact readsBack_braced htag hattributes (fun x hx => hfinite x (.inl hx)) fun item hitem =>
      ih item hitem fun x hx => hfinite x (.inr ⟨item, hitem, hx⟩)
  | bare htag hattributes hbare =>
    simp only [Node.numbers, Node.numbersOfBody, List.mem_append] at hfinite
    exact readsBack_bare htag hattributes (fun x hx => hfinite x (.inl hx)) hbare

/-! ## Documents -/

theorem write_ofItems (items : List Node) :
    write (.ofItems items) = (writeItems items).result := by
  simp [write, writeTraced, Node.ofItems, writeContent, Except.bind]

/-- What was written for a document is read as the settled document, numbered anew, and is written
for that once more. -/
theorem IsDocument.readsBack {tree : Node} (h : IsDocument tree)
    (hfinite : ∀ x ∈ tree.numbers, x.isFinite = true) {source : String}
    (hwrite : write tree = .ok source) :
    ∃ back, read source = .ok back ∧ back.same tree.settled.renumbered = true ∧
      write back = .ok source := by
  obtain ⟨items, rfl, hitems⟩ := h
  rw [write_ofItems] at hwrite
  simp only [Node.ofItems, Node.numbers, Node.numbersOfBody, Node.mem_numbersOfAll] at hfinite
  have hback : ∀ item ∈ items, ReadsBack maxDepth item := fun item hitem =>
    (hitems item hitem).readsBack fun x hx => hfinite x ⟨item, hitem, hx⟩
  obtain ⟨backs, hsame, hwrites, hrun⟩ :=
    readsBack_items hback hwrite .empty delimits_nil (Nat.le_refl _)
  refine ⟨.ofItems backs, ?_, ?_, ?_⟩
  · rw [List.append_nil] at hrun
    rw [read, hrun, Assembly.run_end rfl]
    simp [Assembly.empty]
  · simp only [Node.ofItems, Node.renumbered, Node.settled, Node.settledBody, Node.renumber,
      Node.renumberBody, Node.same]
    exact hsame
  · rw [write_ofItems, hwrites]

end ChatMarkup.Source

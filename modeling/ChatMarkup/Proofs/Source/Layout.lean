import ChatMarkup.Proofs.Source.Lexeme
import ChatMarkup.Proofs.Source.Numbering

/-!
# Layouts

The ways of writing a document. Blanks and comments stand between any two tokens, and have to stand
where one token would go on with the other; attributes have commas between them, or none. Nothing of
that shows in what is read.

* `LaysValue`, `LaysEntries`, `LaysHead`, `Lays`: values, attributes and items laid out as source;
* `LaysEntries.read`, `LaysHead.read`: what attributes are read as, whatever their layout;
* `Lays.run`: reading goes over the source as over the items, or stops if they are too deep;
* `read_layout`: a document is read from each of its layouts.
-/

namespace ChatMarkup.Source

/-! ## Values -/

/-- A value laid out as source, and what characters the source would go on with. -/
inductive LaysValue : Node → List Char → (Char → Bool) → Prop
  | string {value : String} {cs : List Char} : IsLiteral value cs →
      LaysValue (.string value) cs fun _ => false
  | number {x : Number} {cs : List Char} : IsNumeral x cs → LaysValue (.number x) cs isNumeralChar
  | boolean (value : Bool) :
      LaysValue (.boolean value) (if value then "true" else "false").toList isIdentifierChar
  | name {name : String} : IsPlainName name →
      LaysValue (.identifier name) name.toList isIdentifierChar
  /-- Nothing stands between a name and the parenthesis of its call. -/
  | call {name : String} {inner : List Char} : IsPlainName name → Balanced inner →
      LaysValue (.identifier (name ++ String.ofList ('(' :: (inner ++ [')']))))
        (name.toList ++ '(' :: (inner ++ [')'])) fun _ => false

theorem IsLiteral.readValue {value : String} {cs : List Char} (h : IsLiteral value cs)
    (rest : List Char) :
    Source.readValue (skipTrivia (cs ++ rest)) = .ok (.string value, rest) := by
  obtain ⟨quote, more, hcs, hquote, hread⟩ := h.readString rest
  obtain ⟨hstart, hblank, hslash⟩ := start_of_mem_literalQuotes quote hquote
  rw [hcs, skipTrivia_token hblank hslash, Source.readValue, hstart]
  simp only [hread]
  rfl

/-- A value is read up to where what follows cannot go on with it. -/
theorem LaysValue.read {value : Node} {cs : List Char} {goesOn : Char → Bool}
    (h : LaysValue value cs goesOn) {rest : List Char}
    (hrest : ∀ c ∈ rest.head?, goesOn c = false ∧ c ≠ '(') :
    readValue (skipTrivia (cs ++ rest)) = .ok (value, rest) := by
  cases h with
  | string hliteral => exact hliteral.readValue rest
  | number hnumeral =>
    have hread := hnumeral.readNumber fun c hc => (hrest c hc).1
    obtain ⟨c, more, rfl, hstart, hblank, hslash, -⟩ := hnumeral.eq_cons
    rw [List.cons_append] at hread ⊢
    rw [skipTrivia_token hblank hslash, readValue, hstart]
    simp only [hread]
    rfl
  | boolean value =>
    cases value with
    | true =>
      have hname : IsName "true" := isName_of_chars (by decide)
      rw [if_pos rfl, skipTrivia_name hname, readValue_of_isName hname, readName_true hrest]
    | false =>
      have hname : IsName "false" := isName_of_chars (by decide)
      rw [if_neg (by decide), skipTrivia_name hname, readValue_of_isName hname,
        readName_false hrest]
  | name hname =>
    rw [skipTrivia_name hname.isName, readValue_of_isName hname.isName, readName_name hname hrest]
  | call hname hinner =>
    rw [List.append_assoc, skipTrivia_name hname.isName, readValue_of_isName hname.isName]
    exact readName_call hname rfl hinner.isCall rest

/-! ## Attributes -/

/-- Attributes laid out as source; commas may only stand behind the first of them. -/
inductive LaysEntries : Bool → List Attribute → List Char → Prop
  | nil {later : Bool} : LaysEntries later [] []
  | trivia {later : Bool} {blanks cs : List Char} {entries : List Attribute} : IsTrivia blanks →
      LaysEntries later entries cs → LaysEntries later entries (blanks ++ cs)
  | comma {cs : List Char} {entries : List Attribute} : LaysEntries true entries cs →
      LaysEntries true entries (',' :: cs)
  | entry {later : Bool} {key : String} {value : Node} {before behind source cs : List Char}
      {goesOn : Char → Bool} {entries : List Attribute} : IsName key → IsTrivia before →
      IsTrivia behind → LaysValue value source goesOn → (∀ c ∈ cs.head?, goesOn c = false) →
      LaysEntries true entries cs →
      LaysEntries later (⟨key, value⟩ :: entries)
        (key.toList ++ (before ++ '=' :: (behind ++ (source ++ cs))))

theorem expect_trivia {blanks : List Char} (h : IsTrivia blanks) (c : Char) (what : Expectation)
    (cs : List Char) : expect c what (blanks ++ cs) = expect c what cs := by
  rw [expect, expect, h.skip]

/-- Neither attributes nor the bracket behind them make a call of the name in front. -/
theorem LaysEntries.not_call {later : Bool} {entries : List Attribute} {cs : List Char}
    (h : LaysEntries later entries cs) (rest : List Char) :
    ∀ c ∈ (cs ++ ']' :: rest).head?, c ≠ '(' := by
  induction h with
  | nil =>
    rintro c ⟨⟩
    decide
  | trivia hblanks _ ih =>
    rw [List.append_assoc]
    refine hblanks.head (fun c hc => ?_) (by decide) ih
    rintro rfl
    exact absurd hc (by decide)
  | comma =>
    rintro c ⟨⟩
    decide
  | entry hkey =>
    obtain ⟨c, cs, hlist, hc, -⟩ := hkey
    rw [hlist]
    rintro d ⟨⟩
    exact ne_of_isIdentifierStart hc (by decide)

theorem LaysValue.goesOn_bracket {value : Node} {cs : List Char} {goesOn : Char → Bool}
    (h : LaysValue value cs goesOn) : goesOn ']' = false := by
  cases h <;> decide

/-- What stands in front of other source ends at its first character, or else at the other's. -/
theorem forall_head?_append {p : Char → Prop} {cs : List Char} (h : ∀ c ∈ cs.head?, p c)
    {rest : List Char} (hrest : ∀ c ∈ rest.head?, p c) : ∀ c ∈ (cs ++ rest).head?, p c := by
  cases cs with
  | nil => exact hrest
  | cons c cs => exact h

/-- Attributes are read up to the bracket behind them. -/
theorem LaysEntries.read {later : Bool} {entries : List Attribute} {cs : List Char}
    (h : LaysEntries later entries cs) {acc : List Attribute} (hacc : later = true → acc ≠ [])
    (rest : List Char) :
    readAttributesTail acc (cs ++ ']' :: rest) = .ok (acc.reverse ++ entries, rest) := by
  induction h generalizing acc with
  | nil => simp [readAttributesTail_close]
  | trivia hblanks _ ih =>
    rw [List.append_assoc, readAttributesTail_congr acc (hblanks.skip _), ih hacc]
  | comma _ ih => rw [List.cons_append, readAttributesTail_comma (hacc rfl), ih hacc]
  | @entry later key value before behind source cs goesOn entries hkey hbefore hbehind hvalue hends
      hentries ih =>
    have hsplit : key.toList ++ (before ++ '=' :: (behind ++ (source ++ cs))) ++ ']' :: rest =
        key.toList ++ (before ++ '=' :: (behind ++ (source ++ (cs ++ ']' :: rest)))) := by
      simp
    have hmore : ∀ c ∈ (before ++ '=' :: (behind ++ (source ++ (cs ++ ']' :: rest)))).head?,
        isIdentifierChar c = false := by
      apply hbefore.not_identifierChar
      rintro c ⟨⟩
      decide
    have hequals : expect '=' (.valueOf key)
        (before ++ '=' :: (behind ++ (source ++ (cs ++ ']' :: rest)))) =
          .ok (behind ++ (source ++ (cs ++ ']' :: rest))) := by
      rw [expect_trivia hbefore, expect_cons (by decide) (by decide)]
    have hfollow : ∀ c ∈ (cs ++ ']' :: rest).head?, goesOn c = false := by
      apply forall_head?_append hends
      rintro c ⟨⟩
      exact hvalue.goesOn_bracket
    have hread : readValue (skipTrivia (behind ++ (source ++ (cs ++ ']' :: rest)))) =
        .ok (value, cs ++ ']' :: rest) := by
      rw [hbehind.skip]
      exact hvalue.read fun c hc => ⟨hfollow c hc, hentries.not_call rest c hc⟩
    rw [hsplit, readAttributesTail_key acc hkey, readAttribute_key hkey hmore hequals, hread]
    show readAttributesTail (⟨key, value⟩ :: acc) (cs ++ ']' :: rest) = _
    rw [ih (by simp)]
    simp

/-! ## Heads -/

/-- What stands behind a tag: nothing, or one list of attributes. -/
inductive LaysHead : Option (List Attribute) → List Char → Prop
  | absent : LaysHead none []
  | list {gap cs : List Char} {entries : List Attribute} : IsTrivia gap →
      LaysEntries false entries cs → LaysHead (some entries) (gap ++ '[' :: (cs ++ [']']))

/-- The characters that a body starts with. -/
def bodyStarts : List Char :=
  ['{', '`', '"']

theorem of_mem_bodyStarts : ∀ c ∈ bodyStarts,
    isBlank c = false ∧ c ≠ '/' ∧ c ≠ '[' ∧ isIdentifierChar c = false := by
  decide

/-- The attributes of an element are read up to its body, and its tag up to them. -/
theorem LaysHead.read {attributes : Option (List Attribute)} {head : List Char}
    (h : LaysHead attributes head) {gap : List Char} (hgap : IsTrivia gap) {c : Char}
    (hc : c ∈ bodyStarts) (more : List Char) :
    (∀ d ∈ (head ++ (gap ++ c :: more)).head?, isIdentifierChar d = false) ∧
      ∃ rest, Assembly.readAttributes? (skipTrivia (head ++ (gap ++ c :: more))) =
        .ok (attributes, rest) ∧ skipTrivia rest = c :: more := by
  obtain ⟨hblank, hslash, hbracket, hname⟩ := of_mem_bodyStarts c hc
  have hstart : skipTrivia (c :: more) = c :: more := skipTrivia_token hblank hslash
  cases h with
  | absent =>
    refine ⟨hgap.not_identifierChar ?_, c :: more, ?_, hstart⟩
    · rintro d ⟨⟩
      exact hname
    · rw [List.nil_append, hgap.skip, hstart, Assembly.readAttributes?, if_neg (by simpa)]
  | @list before cs entries hbefore hentries =>
    have hsplit : before ++ '[' :: (cs ++ [']']) ++ (gap ++ c :: more) =
        before ++ '[' :: (cs ++ ']' :: (gap ++ c :: more)) := by
      simp
    rw [hsplit]
    refine ⟨hbefore.not_identifierChar ?_, gap ++ c :: more, ?_, by rw [hgap.skip, hstart]⟩
    · rintro d ⟨⟩
      decide
    · rw [hbefore.skip, skipTrivia_token (by decide) (by decide), Assembly.readAttributes?,
        if_pos (by simp), readAttributes, expect_cons (by decide) (by decide)]
      simp only [hentries.read (by simp)]
      rfl

/-! ## Items -/

/-- Items laid out as source. The numbers that elements have do not show in it. -/
inductive Lays : List Node → List Char → Prop
  | nil : Lays [] []
  | trivia {blanks cs : List Char} {items : List Node} : IsTrivia blanks → Lays items cs →
      Lays items (blanks ++ cs)
  | string {value : String} {source cs : List Char} {items : List Node} : IsLiteral value source →
      Lays items cs → Lays (.string value :: items) (source ++ cs)
  | number {x : Number} {source cs : List Char} {items : List Node} : IsNumeral x source →
      (∀ c ∈ cs.head?, isNumeralChar c = false) → Lays items cs →
      Lays (.number x :: items) (source ++ cs)
  | braced {tag : Tag} {id : Nat} {attributes : Option (List Attribute)}
      {head gap body cs : List Char} {inner items : List Node} : IsTag tag →
      LaysHead attributes head → IsTrivia gap → Lays inner body → Lays items cs →
      Lays (.element tag id attributes (some (.block inner)) :: items)
        (tag.name.toList ++ (head ++ (gap ++ '{' :: (body ++ '}' :: cs))))
  | bare {tag : Tag} {id : Nat} {attributes : Option (List Attribute)} {value : String}
      {head gap source cs : List Char} {items : List Node} : IsTag tag →
      tag.takesBareString = true → LaysHead attributes head → IsTrivia gap →
      IsLiteral value source → Lays items cs →
      Lays (.element tag id attributes (some (.string value)) :: items)
        (tag.name.toList ++ (head ++ (gap ++ (source ++ cs))))

namespace Assembly

theorem run_literal {value : String} {source : List Char} (h : IsLiteral value source)
    (a : Assembly) (rest : List Char) :
    a.run (source ++ rest) = (a.push (.string value)).run rest := by
  obtain ⟨quote, more, hsource, hquote, hread⟩ := h.readString rest
  obtain ⟨hstart, hblank, hslash⟩ := start_of_mem_literalQuotes quote hquote
  rw [hsource]
  exact a.run_string hstart hblank hslash (ne_of_mem_literalQuotes quote hquote).2.2.2 hread

theorem run_numeral {x : Number} {source : List Char} (h : IsNumeral x source) (a : Assembly)
    {rest : List Char} (hrest : ∀ c ∈ rest.head?, isNumeralChar c = false) :
    a.run (source ++ rest) = (a.push (.number x)).run rest := by
  have hread := h.readNumber hrest
  obtain ⟨c, more, rfl, hstart, hblank, hslash, hbrace⟩ := h.eq_cons
  rw [List.cons_append] at hread ⊢
  refine run_item hblank hslash hbrace ?_
  simp only [readItem, hstart, hread]
  rfl

theorem run_inline {a : Assembly} (hdepth : a.frames.length < maxDepth) {tag : Tag}
    (htag : IsTag tag) (hbare : tag.takesBareString = true)
    {attributes : Option (List Attribute)} {head gap : List Char}
    (hhead : LaysHead attributes head) (hgap : IsTrivia gap) {value : String} {source : List Char}
    (hliteral : IsLiteral value source) (id : Nat) (rest : List Char) :
    a.run (tag.name.toList ++ (head ++ (gap ++ (source ++ rest)))) =
      (a.pushAll [.element tag id attributes (some (.string value))]).run rest := by
  obtain ⟨quote, more, hsource, hquote, hread⟩ := hliteral.readString rest
  have hstart : quote ∈ bodyStarts := List.mem_cons_of_mem _ hquote
  have hbrace : quote ≠ '{' := (ne_of_mem_literalQuotes quote hquote).2.2.1
  obtain ⟨hends, behind, hhead, hskip⟩ := hhead.read hgap hstart more
  rw [hsource, a.run_tag htag hdepth hends hhead, hskip, readBody, if_neg hbrace]
  simp only [(start_of_mem_literalQuotes quote hquote).1, hbare, hread]
  simp [Except.bind, push, pushAll, Node.renumberAll, Node.renumber, Node.renumberBody]

theorem frames_pushAll (a : Assembly) (items : List Node) : (a.pushAll items).frames = a.frames :=
  rfl

theorem pushAll_room (a : Assembly) (items : List Node) (ha : a.frames.length ≤ maxDepth) :
    (a.pushAll items).frames.length ≤ maxDepth :=
  ha

/-- Where reading leads that goes over items, if there is room for them. -/
def runOver (a : Assembly) (items : List Node) (rest : List Char) : Except Stop (List Node) :=
  if Node.nestingAll items + a.frames.length ≤ maxDepth then (a.pushAll items).run rest
  else .error .tooDeep

/-- Reading goes over items one by one. -/
theorem runOver_cons (a : Assembly) (item : Node) (items : List Node) (rest : List Char) :
    a.runOver (item :: items) rest =
      if item.nesting + a.frames.length ≤ maxDepth then (a.pushAll [item]).runOver items rest
      else .error .tooDeep := by
  have hpush : a.pushAll (item :: items) = (a.pushAll [item]).pushAll items :=
    a.pushAll_append [item] items
  rw [runOver, runOver, frames_pushAll, hpush, Node.nestingAll]
  split
  · rw [if_pos (by omega), if_pos (by omega)]
  · split
    · rw [if_neg (by omega)]
    · rfl

theorem runOver_string {a : Assembly} (ha : a.frames.length ≤ maxDepth) (value : String)
    (items : List Node) (rest : List Char) :
    a.runOver (.string value :: items) rest = (a.push (.string value)).runOver items rest := by
  rw [runOver_cons, if_pos (by simpa [Node.nesting] using ha)]
  simp [pushAll, push, Node.renumberAll, Node.renumber]

theorem runOver_number {a : Assembly} (ha : a.frames.length ≤ maxDepth) (x : Number)
    (items : List Node) (rest : List Char) :
    a.runOver (.number x :: items) rest = (a.push (.number x)).runOver items rest := by
  rw [runOver_cons, if_pos (by simpa [Node.nesting] using ha)]
  simp [pushAll, push, Node.renumberAll, Node.renumber]

end Assembly

/-- Reading goes over the source of items, and stops exactly where there is no room for them. -/
theorem Lays.run {items : List Node} {cs : List Char} (h : Lays items cs) {a : Assembly}
    (ha : a.frames.length ≤ maxDepth) {rest : List Char}
    (hrest : ∀ c ∈ rest.head?, isNumeralChar c = false) :
    a.run (cs ++ rest) = a.runOver items rest := by
  induction h generalizing a rest with
  | nil =>
    rw [Assembly.runOver, if_pos (by simpa [Node.nestingAll])]
    rfl
  | trivia hblanks _ ih => rw [List.append_assoc, a.run_congr (hblanks.skip _), ih ha hrest]
  | @string value source cs items hliteral _ ih =>
    have hpush : (a.push (.string value)).frames.length ≤ maxDepth := ha
    rw [List.append_assoc, Assembly.run_literal hliteral, ih hpush hrest,
      Assembly.runOver_string ha]
  | @number x source cs items hnumeral hends _ ih =>
    have hpush : (a.push (.number x)).frames.length ≤ maxDepth := ha
    rw [List.append_assoc, Assembly.run_numeral hnumeral a (forall_head?_append hends hrest),
      ih hpush hrest, Assembly.runOver_number ha]
  | @braced tag id attributes head gap body cs inner items htag hhead hgap _ _ ihinner ih =>
    have hsplit : tag.name.toList ++ (head ++ (gap ++ '{' :: (body ++ '}' :: cs))) ++ rest =
        tag.name.toList ++ (head ++ (gap ++ '{' :: (body ++ '}' :: (cs ++ rest)))) := by
      simp
    rw [hsplit, Assembly.runOver_cons, Node.nesting_element_block]
    by_cases hdepth : a.frames.length < maxDepth
    · -- The body is read one level deeper, where there is as much room for what is in it.
      have hroom : (a.enter tag attributes).frames.length ≤ maxDepth := hdepth
      have hframes : (a.enter tag attributes).frames.length = a.frames.length + 1 := rfl
      obtain ⟨hends, behind, hread, hskip⟩ := hhead.read hgap (show '{' ∈ bodyStarts by decide)
        (body ++ '}' :: (cs ++ rest))
      rw [Assembly.run_enter htag hdepth hends hread hskip, ihinner hroom (by rintro c ⟨⟩; decide),
        Assembly.runOver, hframes, Nat.add_right_comm, ← Nat.add_assoc]
      split
      · rw [a.run_leave tag id, ih (a.pushAll_room _ ha) hrest]
      · rfl
    · -- The element itself has no room, whatever is in it.
      have hfull : maxDepth ≤ a.frames.length := Nat.le_of_not_lt hdepth
      rw [if_neg (by omega), Assembly.run_tooDeep hfull htag]
  | @bare tag id attributes value head gap source cs items htag hbare hhead hgap hliteral _ ih =>
    have hsplit : tag.name.toList ++ (head ++ (gap ++ (source ++ cs))) ++ rest =
        tag.name.toList ++ (head ++ (gap ++ (source ++ (cs ++ rest)))) := by
      simp
    have hnesting : (Node.element tag id attributes (some (.string value))).nesting = 1 := by
      simp [Node.nesting]
    rw [hsplit, Assembly.runOver_cons, hnesting]
    by_cases hdepth : a.frames.length < maxDepth
    · rw [Assembly.run_inline hdepth htag hbare hhead hgap hliteral id, if_pos (by omega),
        ih (a.pushAll_room _ ha) hrest]
    · have hfull : maxDepth ≤ a.frames.length := Nat.le_of_not_lt hdepth
      rw [if_neg (by omega), Assembly.run_tooDeep hfull htag]

/-! ## Documents -/

/-- Items laid out as the source of a document. Nothing has to end a comment that stands last. -/
inductive IsLayout (items : List Node) : List Char → Prop
  | closed {cs : List Char} : Lays items cs → IsLayout items cs
  | comment {cs text : List Char} : Lays items cs → (∀ c ∈ text, c ≠ '\n') →
      IsLayout items (cs ++ '/' :: '/' :: text)

/-- A comment that no line end follows goes up to the end of the source. -/
theorem skipTrivia_open {text : List Char} (h : ∀ c ∈ text, c ≠ '\n') :
    skipTrivia ('/' :: '/' :: text) = skipTrivia [] := by
  have hline := skipTrivia_comment h []
  rw [List.append_nil] at hline
  exact hline

theorem IsLayout.run {items : List Node} {cs : List Char} (h : IsLayout items cs) :
    Assembly.empty.run cs = Assembly.empty.runOver items [] := by
  have hempty : Assembly.empty.frames.length ≤ maxDepth := Nat.zero_le _
  cases h with
  | closed hlays =>
    have hrun := hlays.run hempty (show ∀ c ∈ [].head?, isNumeralChar c = false by simp)
    rwa [List.append_nil] at hrun
  | comment hlays htext =>
    rw [hlays.run hempty (by rintro c ⟨⟩; decide), Assembly.runOver, Assembly.runOver,
      Assembly.run_congr _ (skipTrivia_open htext)]

/-- A document is read from each of its layouts, with its elements numbered in the order in which
they open. It is refused exactly if its elements are nested too deep. -/
theorem read_layout {source : String} {items : List Node} (h : IsLayout items source.toList) :
    (Node.nestingAll items ≤ maxDepth →
      read source = .ok (Node.ofItems items).renumbered ∧
        ∃ count, (Node.ofItems items).renumbered.ids = List.range count) ∧
      (maxDepth < Node.nestingAll items → read source = .error (.tooDeep maxDepth)) := by
  have hrun := h.run
  rw [Assembly.runOver, show Assembly.empty.frames.length = 0 from rfl, Nat.add_zero] at hrun
  refine ⟨fun hroom => ?_, fun hdeep => ?_⟩
  · rw [if_pos hroom, Assembly.run_end rfl] at hrun
    have hread : read source = .ok (Node.ofItems items).renumbered := by
      rw [read, hrun]
      simp [Assembly.pushAll, Assembly.empty, Node.renumbered_ofItems]
    exact ⟨hread, ids_of_read hread⟩
  · rw [if_neg (Nat.not_le_of_lt hdeep)] at hrun
    rw [read, hrun]
    rfl

/-- Comments, commas and both ways of quoting. -/
theorem read_layout_spread :
    read "p\x7bb//a\n[k=\"x\",,n=-.5]`t`7//b\n8 \x7d//" =
      .ok (.ofItems [.element .paragraph 0 none (some (.block
        [.element .bold 1
          (some [⟨"k", .string "x"⟩, ⟨"n", .number (.ofDecimal true ⟨5, 1⟩)⟩])
          (some (.string "t")),
        .number (.ofDecimal false ⟨7, 0⟩), .number (.ofDecimal false ⟨8, 0⟩)]))]) := by
  have hcomment : ∀ {c : Char}, c ≠ '\n' → IsTrivia ['/', '/', c, '\n'] := fun {c} hc =>
    @IsTrivia.comment [c] [] (by simpa using hc) .nil
  have hquoted : ∀ {quote c : Char}, quote ∈ literalQuotes → c ≠ quote → c ≠ '\\' →
      IsLiteral (String.ofList [c]) [quote, c, quote] := fun hquote hc hslash =>
    .quoted hquote (by rw [String.toList_ofList]; exact .plain hc hslash .nil)
  have hx : IsLiteral "x" ['"', 'x', '"'] := hquoted (by decide) (by decide) (by decide)
  have ht : IsLiteral "t" ['`', 't', '`'] := hquoted (by decide) (by decide) (by decide)
  have hhalf : IsDecimal ⟨5, 1⟩ ['.', '5'] :=
    @IsDecimal.point [] ['5'] (by decide) (by decide) (by decide)
  have hseven : IsDecimal ⟨7, 0⟩ ['7'] := @IsDecimal.whole ['7'] (by decide) (by decide)
  have height : IsDecimal ⟨8, 0⟩ ['8'] := @IsDecimal.whole ['8'] (by decide) (by decide)
  have hhead := LaysHead.list (hcomment (show 'a' ≠ '\n' by decide))
    (.entry (isName_of_chars (by decide) : IsName "k") .nil .nil (.string hx)
      (by rintro c ⟨⟩; decide)
      (.comma (.comma (.entry (isName_of_chars (by decide) : IsName "n") .nil .nil
        (.number (.negative hhalf)) (by rintro c ⟨⟩) .nil))))
  have hnumbers := Lays.number (.positive hseven (by decide)) (by rintro c ⟨⟩; decide)
    (.trivia (hcomment (show 'b' ≠ '\n' by decide))
      (.number (.positive height (by decide)) (by rintro c ⟨⟩; decide)
        (.trivia (.blank (show isBlank ' ' = true by decide) .nil) .nil)))
  have hbody := @Lays.bare .bold 1 _ _ _ _ _ _ _ ⟨isName_of_chars (by decide), by decide⟩ rfl hhead
    .nil ht hnumbers
  have hlays := @Lays.braced .paragraph 0 _ _ _ _ _ _ _ ⟨isName_of_chars (by decide), by decide⟩
    .absent .nil hbody .nil
  have hlayout := IsLayout.comment hlays (show ∀ c ∈ [], c ≠ '\n' by decide)
  exact ((read_layout (show IsLayout _ "p\x7bb//a\n[k=\"x\",,n=-.5]`t`7//b\n8 \x7d//".toList
    from hlayout)).1 (by decide)).1

end ChatMarkup.Source

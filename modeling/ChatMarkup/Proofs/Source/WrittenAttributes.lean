import ChatMarkup.Proofs.Source.Grammar
import ChatMarkup.Proofs.Tree.Settled
import ChatMarkup.Source.Writer

/-!
# Attribute lists read back

The canonical source of the attributes of an element, and what reading makes of it. Finite numbers
come back as numbers of the same value, everything else as it was.

* `writeEntries_eq`: attributes of the grammar are always written, each by `entryText`;
* `readAttributes_bracket`: a written list is read up to its bracket, whatever follows;
* `entriesSource_cons`: a written list attribute by attribute, as its reader goes over it.
-/

namespace ChatMarkup.Source

/-! ## What is written -/

/-- An attribute value as it is written. -/
def valueText : Node → String
  | .string value => quote value
  | .number value => String.ofList value.text
  | .boolean value => if value then "true" else "false"
  | .identifier name => name
  | _ => ""

/-- An attribute as it is written. -/
def entryText (entry : Attribute) : String :=
  entry.key ++ "=" ++ valueText entry.value

theorem writeEntries_cons {entry : Attribute} {entries : List Attribute} (h : IsEntry entry) :
    (writeEntries (entry :: entries)).result =
      (writeEntries entries).result.map (entryText entry :: ·) := by
  obtain ⟨key, value⟩ := entry
  have hvalue := h.value
  cases hvalue <;>
    simp only [writeEntries, Node.stringValue?, writeContent, Traced.result_bind,
      Traced.result_see, Traced.result_pure, entryText, valueText] <;>
    cases (writeEntries entries).result <;> rfl

/-- Attributes of the grammar are always written. -/
theorem writeEntries_eq {entries : List Attribute} (h : ∀ entry ∈ entries, IsEntry entry) :
    (writeEntries entries).result = .ok (entries.map entryText) := by
  induction entries with
  | nil => simp [writeEntries]
  | cons entry entries ih =>
    rw [writeEntries_cons (h entry List.mem_cons_self),
      ih fun e he => h e (List.mem_cons_of_mem _ he)]
    rfl

/-- What stands between a tag and its body. -/
def headText (absent : String) : Option (List Attribute) → String
  | none => absent
  | some entries => bracket (entries.map entryText)

theorem writeHead_eq (absent : String) {attributes : Option (List Attribute)}
    (h : AreEntries attributes) :
    (writeHead absent attributes).result = .ok (headText absent attributes) := by
  cases attributes with
  | none => simp [writeHead, headText]
  | some entries =>
    simp [writeHead, headText, writeEntries_eq (areEntries_some.mp h), Except.bind]

/-! ## Values -/

theorem isName_of_chars {name : String} (h : (name.toList.head?.any isIdentifierStart &&
    name.toList.tail.all isIdentifierChar) = true) : IsName name := by
  cases hlist : name.toList with
  | nil => simp [hlist] at h
  | cons c cs =>
    simp only [hlist, List.head?_cons, Option.any_some, List.tail_cons, Bool.and_eq_true,
      List.all_eq_true] at h
    exact ⟨c, cs, hlist, h.1, h.2⟩

theorem Delimits.head {rest : List Char} (h : Delimits rest) :
    ∀ c ∈ rest.head?, isIdentifierChar c = false :=
  fun c hc => (h c hc).1

theorem Delimits.not_call {rest : List Char} (h : Delimits rest) : rest.head? ≠ some '(' :=
  fun hc => (h '(' hc).2 rfl

theorem readName_true {rest : List Char} (hrest : Delimits rest) :
    readName ("true".toList ++ rest) = .ok (.boolean true, rest) := by
  rw [readName, readIdentifier_append (isName_of_chars (by decide)) hrest.head]
  simp

theorem readName_false {rest : List Char} (hrest : Delimits rest) :
    readName ("false".toList ++ rest) = .ok (.boolean false, rest) := by
  rw [readName, readIdentifier_append (isName_of_chars (by decide)) hrest.head]
  simp

theorem readName_name {name : String} (hname : IsPlainName name) {rest : List Char}
    (hrest : Delimits rest) : readName (name.toList ++ rest) = .ok (.identifier name, rest) := by
  rw [readName, readIdentifier_append hname.isName hrest.head]
  simp [hname.ne_true, hname.ne_false, hrest.not_call]

theorem readName_call {name : String} {call : List Char} (hname : IsPlainName name)
    (hopen : call.head? = some '(') (hcall : IsCall call) (rest : List Char) :
    readName (name.toList ++ (call ++ rest)) =
      .ok (.identifier (name ++ String.ofList call), rest) := by
  have hhead : (call ++ rest).head? = some '(' := by
    simp [List.head?_append, hopen]
  rw [readName, readIdentifier_append hname.isName]
  · simp only [hname.ne_true, hname.ne_false, hhead, ↓reduceIte, readCall_append hcall]
    rfl
  · intro c hc
    rw [hhead] at hc
    cases hc
    decide

theorem readValue_of_isName {name : String} (hname : IsName name) (rest : List Char) :
    readValue (name.toList ++ rest) = readName (name.toList ++ rest) := by
  obtain ⟨c, cs, hlist, hc, -⟩ := hname
  rw [hlist, List.cons_append, readValue, start_of_isIdentifierStart hc]

theorem readValue_quote (text : String) (rest : List Char) :
    readValue ((quote text).toList ++ rest) = .ok (.string text, rest) := by
  have hread := readString_quote text rest
  rw [toList_quote, List.cons_append] at hread ⊢
  rw [readValue, show Start.of '`' = .string by decide]
  simp only [hread]
  rfl

/-- A numeral starts with a digit or a minus sign. -/
theorem start_of_text {x : Number} (hx : x.isFinite = true) :
    ∃ c cs, x.text = c :: cs ∧ Start.of c = .number ∧ isBlank c = false ∧ c ≠ '/' ∧ c ≠ '}' := by
  obtain ⟨negative, d, htext⟩ := Number.text_eq_signed hx
  rw [htext]
  cases negative with
  | true => exact ⟨'-', d.write, rfl, by decide, by decide, by decide, by decide⟩
  | false =>
    obtain ⟨c, cs, hcs, hc⟩ := d.write_eq_cons
    refine ⟨c, cs, hcs, start_of_isDigit hc, isBlank_of_isDigit hc, ?_, ?_⟩
    · rintro rfl
      exact absurd hc (by decide)
    · rintro rfl
      exact absurd hc (by decide)

theorem readValue_number {x : Number} (hx : x.isFinite = true) {rest : List Char}
    (hrest : Delimits rest) :
    ∃ y, readValue (x.text ++ rest) = .ok (.number y, rest) ∧ y.same x = true ∧
      y.text = x.text := by
  obtain ⟨y, hread, hsame, htext⟩ := readNumber_text hx hrest
  obtain ⟨c, cs, hcs, hstart, -⟩ := start_of_text hx
  refine ⟨y, ?_, hsame, htext⟩
  rw [hcs, List.cons_append] at hread ⊢
  rw [readValue, hstart]
  simp only [hread]
  rfl

/-- A value of the grammar with finite numbers is read back, whatever ends it. -/
theorem readValue_valueText {value : Node} (h : IsValue value)
    (hfinite : ∀ x ∈ value.numbers, x.isFinite = true) {rest : List Char} (hrest : Delimits rest) :
    ∃ back, readValue ((valueText value).toList ++ rest) = .ok (back, rest) ∧
      back.same value = true ∧ valueText back = valueText value ∧ IsValue back := by
  cases h with
  | string value =>
    exact ⟨.string value, readValue_quote value rest, by simp [Node.same], rfl, .string value⟩
  | number x =>
    have hx : x.isFinite = true := hfinite x (by simp [Node.numbers])
    obtain ⟨y, hread, hsame, htext⟩ := readValue_number hx hrest
    refine ⟨.number y, ?_, by simpa [Node.same] using hsame, ?_, .number y⟩
    · simpa [valueText] using hread
    · simp [valueText, htext]
  | boolean value =>
    refine ⟨.boolean value, ?_, by simp [Node.same], rfl, .boolean value⟩
    cases value with
    | true =>
      exact (readValue_of_isName (isName_of_chars (by decide)) rest).trans (readName_true hrest)
    | false =>
      exact (readValue_of_isName (isName_of_chars (by decide)) rest).trans (readName_false hrest)
  | @name name hname =>
    refine ⟨.identifier name, ?_, by simp [Node.same], rfl, .name hname⟩
    exact (readValue_of_isName hname.isName rest).trans (readName_name hname hrest)
  | @call name call hname hopen hcall =>
    refine ⟨.identifier (name ++ String.ofList call), ?_, by simp [Node.same], rfl,
      .call hname hopen hcall⟩
    rw [valueText, String.toList_append, String.toList_ofList, List.append_assoc,
      readValue_of_isName hname.isName]
    exact readName_call hname hopen hcall rest

/-! ## Attributes -/

theorem expect_cons {c : Char} {what : Expectation} {rest : List Char} (hblank : isBlank c = false)
    (hslash : c ≠ '/') : expect c what (c :: rest) = .ok rest := by
  rw [expect, skipTrivia_token hblank hslash]
  simp

/-- Where a name starts nothing is passed over. -/
theorem skipTrivia_name {name : String} (h : IsName name) (rest : List Char) :
    skipTrivia (name.toList ++ rest) = name.toList ++ rest := by
  obtain ⟨c, cs, hlist, hc, -⟩ := h
  rw [hlist, List.cons_append]
  exact skipTrivia_token (isBlank_of_isIdentifierStart hc) (ne_of_isIdentifierStart hc (by decide))

/-- Where a value starts nothing is passed over. -/
theorem skipTrivia_valueText {value : Node} (h : IsValue value)
    (hfinite : ∀ x ∈ value.numbers, x.isFinite = true) (rest : List Char) :
    skipTrivia ((valueText value).toList ++ rest) = (valueText value).toList ++ rest := by
  cases h with
  | string value =>
    rw [valueText, toList_quote, List.cons_append]
    exact skipTrivia_token (by decide) (by decide)
  | number x =>
    obtain ⟨c, cs, hcs, -, hblank, hslash, -⟩ :=
      start_of_text (hfinite x (by simp [Node.numbers]))
    rw [valueText, String.toList_ofList, hcs, List.cons_append]
    exact skipTrivia_token hblank hslash
  | boolean value =>
    cases value with
    | true => exact skipTrivia_name (isName_of_chars (by decide) : IsName "true") rest
    | false => exact skipTrivia_name (isName_of_chars (by decide) : IsName "false") rest
  | name h => exact skipTrivia_name h.isName rest
  | call h =>
    rw [valueText, String.toList_append, List.append_assoc]
    exact skipTrivia_name h.isName _

/-- Behind a key and its equals sign a value is read. -/
theorem readAttribute_key {key : String} (hkey : IsName key) {more rest : List Char}
    (hmore : ∀ c ∈ more.head?, isIdentifierChar c = false)
    (hequals : expect '=' (.valueOf key) more = .ok rest) :
    readAttribute (key.toList ++ more) =
      (readValue (skipTrivia rest)).map fun value => ⟨key, value⟩ := by
  rw [readAttribute, readIdentifier_append hkey hmore]
  simp only [hequals]

theorem readAttribute_entry {entry : Attribute} (hkey : IsName entry.key) (rest : List Char) :
    readAttribute ((entryText entry).toList ++ rest) =
      (readValue (skipTrivia ((valueText entry.value).toList ++ rest))).map fun value =>
        ⟨entry.key, value⟩ := by
  have hsplit : (entryText entry).toList ++ rest =
      entry.key.toList ++ '=' :: ((valueText entry.value).toList ++ rest) := by
    simp [entryText]
  rw [hsplit]
  refine readAttribute_key hkey ?_ (expect_cons (by decide) (by decide))
  rintro c ⟨⟩
  decide

/-- An attribute is read back, whatever ends it. -/
theorem readAttribute_entryText {entry : Attribute} (h : IsEntry entry)
    (hfinite : ∀ x ∈ entry.value.numbers, x.isFinite = true) {rest : List Char}
    (hrest : Delimits rest) :
    ∃ back : Attribute, readAttribute ((entryText entry).toList ++ rest) = .ok (back, rest) ∧
      back.key = entry.key ∧ back.value.same entry.value = true ∧
      entryText back = entryText entry ∧ IsEntry back := by
  obtain ⟨value, hread, hsame, htext, hvalue⟩ := readValue_valueText h.value hfinite hrest
  refine ⟨⟨entry.key, value⟩, ?_, rfl, hsame, by simp [entryText, htext], ⟨h.key, hvalue⟩⟩
  rw [readAttribute_entry h.key, skipTrivia_valueText h.value hfinite, hread]
  rfl

/-! ## Lists -/

/-- Reading a list depends on what stands behind trivia only. -/
theorem readAttributesTail_congr (acc : List Attribute) {cs ds : List Char}
    (h : skipTrivia cs = skipTrivia ds) :
    readAttributesTail acc cs = readAttributesTail acc ds := by
  rw [readAttributesTail.eq_def, readAttributesTail.eq_def acc ds, h]

theorem readAttributesTail_blank {acc : List Attribute} {c : Char} {rest : List Char}
    (hc : isBlank c = true) :
    readAttributesTail acc (c :: rest) = readAttributesTail acc rest :=
  readAttributesTail_congr acc (skipTrivia_blank rest hc)

theorem readAttributesTail_of_nil {acc : List Attribute} {cs : List Char}
    (h : skipTrivia cs = []) :
    readAttributesTail acc cs = stop (.expected .closeOfAttributes none) [] := by
  rw [readAttributesTail.eq_def]
  split <;> simp_all

/-- What stands behind trivia decides how a list goes on. -/
theorem readAttributesTail_of_cons {acc : List Attribute} {cs rest : List Char} {first : Char}
    (h : skipTrivia cs = first :: rest) :
    readAttributesTail acc cs =
      if first = ']' then .ok (acc.reverse, rest)
      else if first = ',' && !acc.isEmpty then readAttributesTail acc rest
      else if isIdentifierStart first then
        (readAttribute (first :: rest)).bind fun next =>
          readAttributesTail (next.1 :: acc) next.2
      else stop (.characterInAttributes first) (first :: rest) := by
  rw [readAttributesTail.eq_def]
  split
  · rename_i hnil
    rw [h] at hnil
    cases hnil
  · rename_i hcons
    rw [h] at hcons
    cases hcons
    refine if_congr Iff.rfl rfl (if_congr Iff.rfl rfl (if_congr Iff.rfl ?_ rfl))
    split <;> (rename_i heq; rw [heq]; rfl)

theorem readAttributesTail_close {acc : List Attribute} {rest : List Char} :
    readAttributesTail acc (']' :: rest) = .ok (acc.reverse, rest) := by
  rw [readAttributesTail_of_cons (skipTrivia_token (by decide) (by decide)), if_pos rfl]

theorem readAttributesTail_comma {acc : List Attribute} {rest : List Char} (hacc : acc ≠ []) :
    readAttributesTail acc (',' :: rest) = readAttributesTail acc rest := by
  rw [readAttributesTail_of_cons (skipTrivia_token (by decide) (by decide))]
  simp [hacc]

/-- Where a name stands an attribute is read. -/
theorem readAttributesTail_key (acc : List Attribute) {key : String} (hkey : IsName key)
    (more : List Char) :
    readAttributesTail acc (key.toList ++ more) =
      (readAttribute (key.toList ++ more)).bind fun next =>
        readAttributesTail (next.1 :: acc) next.2 := by
  obtain ⟨c, cs, hlist, hc, -⟩ := hkey
  have hclose : c ≠ ']' := ne_of_isIdentifierStart hc (by decide)
  have hcomma : c ≠ ',' := ne_of_isIdentifierStart hc (by decide)
  have hskip : skipTrivia (c :: (cs ++ more)) = c :: (cs ++ more) :=
    skipTrivia_token (isBlank_of_isIdentifierStart hc) (ne_of_isIdentifierStart hc (by decide))
  rw [hlist, List.cons_append, readAttributesTail_of_cons hskip, if_neg hclose,
    if_neg (by simp [hcomma]), if_pos hc]

theorem readAttributesTail_entry (acc : List Attribute) {entry : Attribute}
    (hkey : IsName entry.key) (rest : List Char) :
    readAttributesTail acc ((entryText entry).toList ++ rest) =
      (readAttribute ((entryText entry).toList ++ rest)).bind fun next =>
        readAttributesTail (next.1 :: acc) next.2 := by
  have hsplit : (entryText entry).toList ++ rest =
      entry.key.toList ++ ('=' :: (valueText entry.value).toList ++ rest) := by
    simp [entryText]
  rw [hsplit]
  exact readAttributesTail_key acc hkey _

theorem delimits_comma (rest : List Char) : Delimits (',' :: rest) :=
  delimits_cons (by decide) (by decide)

theorem delimits_bracket (rest : List Char) : Delimits (']' :: rest) :=
  delimits_cons (by decide) (by decide)

/-- The source of attributes with commas between them, up to the bracket behind them. -/
def entriesSource (entries : List Attribute) (rest : List Char) : List Char :=
  (String.intercalate ", " (entries.map entryText)).toList ++ ']' :: rest

theorem entriesSource_nil (rest : List Char) : entriesSource [] rest = ']' :: rest := by
  simp [entriesSource]

/-- What stands behind the first attribute ends it and is passed over, up to the next one. -/
theorem entriesSource_cons (entry : Attribute) (entries : List Attribute) (rest : List Char) :
    ∃ behind, entriesSource (entry :: entries) rest = (entryText entry).toList ++ behind ∧
      Delimits behind ∧ ∀ acc, acc ≠ [] →
        readAttributesTail acc behind = readAttributesTail acc (entriesSource entries rest) := by
  cases entries with
  | nil =>
    refine ⟨']' :: rest, ?_, delimits_bracket rest, fun acc _ => by rw [entriesSource_nil]⟩
    rw [entriesSource, List.map_singleton, String.intercalate_singleton]
  | cons other others =>
    refine ⟨',' :: ' ' :: entriesSource (other :: others) rest, ?_, delimits_comma _,
      fun acc hacc => ?_⟩
    · simp [entriesSource, String.intercalate_cons_cons]
    · rw [readAttributesTail_comma hacc, readAttributesTail_blank (by decide)]

/-- Attributes with commas between them are read back up to the bracket behind them. -/
theorem readAttributesTail_entries (acc : List Attribute) {entries : List Attribute}
    (h : ∀ entry ∈ entries, IsEntry entry)
    (hfinite : ∀ x ∈ Node.numbersOfEntries entries, x.isFinite = true) (rest : List Char) :
    ∃ back : List Attribute,
      readAttributesTail acc (entriesSource entries rest) = .ok (acc.reverse ++ back, rest) ∧
      Node.sameAttributes back entries = true ∧ back.map entryText = entries.map entryText ∧
      ∀ entry ∈ back, IsEntry entry := by
  induction entries generalizing acc with
  | nil => exact ⟨[], by simp [entriesSource_nil, readAttributesTail_close], rfl, rfl, by simp⟩
  | cons entry entries ih =>
    have hvalue : ∀ x ∈ entry.value.numbers, x.isFinite = true := fun x hx =>
      hfinite x (by simp [Node.numbersOfEntries, hx])
    have hrest : ∀ x ∈ Node.numbersOfEntries entries, x.isFinite = true := fun x hx =>
      hfinite x (by simp [Node.numbersOfEntries, hx])
    rw [List.forall_mem_cons] at h
    obtain ⟨behind, hsplit, hends, hskip⟩ := entriesSource_cons entry entries rest
    obtain ⟨back, hread, hkey, hsame, htext, hback⟩ := readAttribute_entryText h.1 hvalue hends
    obtain ⟨backs, hreads, hsames, htexts, hbacks⟩ := ih (back :: acc) h.2 hrest
    refine ⟨back :: backs, ?_, Node.sameAttributes_cons hkey hsame hsames,
      by rw [List.map_cons, htext, htexts, ← List.map_cons], by simpa using ⟨hback, hbacks⟩⟩
    rw [hsplit, readAttributesTail_entry acc h.1.key, hread]
    show readAttributesTail (back :: acc) behind = _
    rw [hskip _ (by simp), hreads]
    simp

/-- Attributes with commas between them are read back between their brackets, whatever follows. -/
theorem readAttributes_entries {entries : List Attribute} (h : ∀ entry ∈ entries, IsEntry entry)
    (hfinite : ∀ x ∈ Node.numbersOfEntries entries, x.isFinite = true) (rest : List Char) :
    ∃ back : List Attribute,
      readAttributes
        ('[' :: ((String.intercalate ", " (entries.map entryText)).toList ++ ']' :: rest)) =
          .ok (back, rest) ∧
      Node.sameAttributes back entries = true ∧ back.map entryText = entries.map entryText ∧
      ∀ entry ∈ back, IsEntry entry := by
  obtain ⟨back, hread, hback⟩ := readAttributesTail_entries [] h hfinite rest
  refine ⟨back, ?_, hback⟩
  rw [readAttributes, expect_cons (by decide) (by decide)]
  exact hread

theorem bracket_append (entries : List Attribute) (rest : List Char) :
    (bracket (entries.map entryText)).toList ++ rest =
      '[' :: entriesSource entries (' ' :: rest) := by
  simp [bracket, entriesSource]

/-- A written list is read up to its bracket, whatever follows. -/
theorem readAttributes_bracket {entries : List Attribute} (h : ∀ entry ∈ entries, IsEntry entry)
    (hfinite : ∀ x ∈ Node.numbersOfEntries entries, x.isFinite = true) (rest : List Char) :
    ∃ back : List Attribute,
      readAttributes ((bracket (entries.map entryText)).toList ++ rest) = .ok (back, ' ' :: rest) ∧
      Node.sameAttributes back entries = true ∧ back.map entryText = entries.map entryText ∧
      ∀ entry ∈ back, IsEntry entry := by
  obtain ⟨back, hread, hback⟩ := readAttributes_entries h hfinite (' ' :: rest)
  refine ⟨back, ?_, hback⟩
  rw [bracket_append]
  exact hread

end ChatMarkup.Source

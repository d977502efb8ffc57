import ChatMarkup.Proofs.Source.Spelling

/-!
# Ways of writing a token

What may stand for a text, for a number or between two tokens, by a grammar for each, and what the
readers make of it. A text can be quoted in two ways, with escapes or without; a numeral may have a
point at either end, and zeros that say nothing.

* `IsTrivia.skip`: blanks and comments are passed over, whatever comes behind;
* `Spelled.read`, `IsLiteral.readString`: a text is read from each way of quoting it;
* `IsNumeral.readNumber`: a numeral is read as the number that it denotes;
* `Balanced.isCall`: text with its parentheses and quotes in pairs is read as one call.
-/

namespace ChatMarkup.Source

/-! ## Trivia -/

/-- Blanks and comments; a comment goes up to the end of its line. -/
inductive IsTrivia : List Char → Prop
  | nil : IsTrivia []
  | blank {c : Char} {more : List Char} : isBlank c = true → IsTrivia more → IsTrivia (c :: more)
  | comment {text more : List Char} : (∀ c ∈ text, c ≠ '\n') → IsTrivia more →
      IsTrivia ('/' :: '/' :: (text ++ '\n' :: more))

theorem skipTriviaFrom_line {text : List Char} (h : ∀ c ∈ text, c ≠ '\n') (rest : List Char) :
    skipTriviaFrom true (text ++ rest) = skipTriviaFrom true rest := by
  induction text with
  | nil => rfl
  | cons c text ih =>
    rw [List.forall_mem_cons] at h
    rw [List.cons_append, skipTriviaFrom, if_pos rfl, decide_eq_true h.1, ih h.2]

theorem skipTrivia_comment {text : List Char} (h : ∀ c ∈ text, c ≠ '\n') (rest : List Char) :
    skipTrivia ('/' :: '/' :: (text ++ rest)) = skipTriviaFrom true rest :=
  skipTriviaFrom_line h rest

theorem IsTrivia.skip {cs : List Char} (h : IsTrivia cs) (rest : List Char) :
    skipTrivia (cs ++ rest) = skipTrivia rest := by
  induction h with
  | nil => rfl
  | blank hc _ ih => rw [List.cons_append, skipTrivia_blank _ hc, ih]
  | @comment text more htext _ ih =>
    rw [List.cons_append, List.cons_append, List.append_assoc, List.cons_append,
      skipTrivia_comment htext, ← ih]
    rfl

/-- Where trivia starts, or what comes behind if there is none. -/
theorem IsTrivia.head {cs : List Char} (h : IsTrivia cs) {p : Char → Prop}
    (hblank : ∀ c, isBlank c = true → p c) (hslash : p '/') {rest : List Char}
    (hrest : ∀ c ∈ rest.head?, p c) : ∀ c ∈ (cs ++ rest).head?, p c := by
  cases h with
  | nil => exact hrest
  | blank hc _ =>
    rintro c ⟨⟩
    exact hblank _ hc
  | comment =>
    rintro c ⟨⟩
    exact hslash

theorem numbers_apart_from_blanks :
    ∀ r ∈ numericRanges, ∀ o ∈ blankRanges, r.2 < o.1 ∨ o.2 < r.1 := by
  decide +kernel

theorem isBlank_of_isIdentifierChar {c : Char} (h : isIdentifierChar c = true) :
    isBlank c = false := by
  have hstart : ∀ {d : Char}, isAlphabetic d = true → isBlank d = false := fun hd =>
    isBlank_of_isIdentifierStart (by simp [isIdentifierStart, hd])
  simp only [isIdentifierChar, isAlphanumeric, isNumeric, Bool.or_eq_true, Bool.and_eq_true,
    decide_eq_true_eq] at h
  rcases h with (((h | h | h) | rfl) | rfl) | rfl
  · exact hstart h
  · exact isBlank_of_isDigit h
  · exact inRanges_eq_false numbers_apart_from_blanks h.2
  · decide
  · decide
  · decide

/-- A name ends where trivia starts. -/
theorem IsTrivia.not_identifierChar {cs : List Char} (h : IsTrivia cs) {rest : List Char}
    (hrest : ∀ c ∈ rest.head?, isIdentifierChar c = false) :
    ∀ c ∈ (cs ++ rest).head?, isIdentifierChar c = false := by
  refine h.head (fun c hc => ?_) (by decide) hrest
  by_contra hname
  rw [isBlank_of_isIdentifierChar (by simpa using hname)] at hc
  cases hc

/-! ## Escapes -/

/-- The escapes that stand for one character. -/
def shortEscapes : List (Char × Char) :=
  [('n', '\n'), ('t', '\t'), ('r', '\r'), ('b', '\x08'), ('f', '\x0c'), ('"', '"'), ('\\', '\\'),
    ('/', '/'), ('`', '`')]

theorem unescape_short : ∀ escape ∈ shortEscapes,
    unescape escape.1 = [escape.2] ∧ escape.1 ≠ 'u' := by
  decide

theorem unescape_unknown {e : Char} (h : e ∉ shortEscapes.map Prod.fst) :
    unescape e = ['\\', e] := by
  unfold unescape
  split <;> first | exact absurd (by decide) h | rfl

/-- Four hexadecimal digits, and the number that they are. -/
inductive IsHex : List Char → Nat → Prop
  | digits {a b c d : Char} {i j k l : Nat} : hexDigit? a = some i → hexDigit? b = some j →
      hexDigit? c = some k → hexDigit? d = some l →
      IsHex [a, b, c, d] (0x1000 * i + 0x100 * j + 0x10 * k + l)

theorem IsHex.readHex {hex : List Char} {n : Nat} (h : IsHex hex n) (rest : List Char) :
    Source.readHex 4 0 (hex ++ rest) = .ok (n, rest) := by
  obtain ⟨ha, hb, hc, hd⟩ := h
  simp only [List.cons_append, List.nil_append, Source.readHex, ha, hb, hc, hd]
  congr 2
  omega

theorem isHighSurrogate_iff {n : Nat} :
    isHighSurrogate n = true ↔ 0xd800 ≤ n ∧ n < 0xdc00 := by
  rw [isHighSurrogate, decide_eq_true_eq]
  omega

theorem isHighSurrogate_toNat (c : Char) : isHighSurrogate c.toNat = false := by
  have hvalid : c.toNat.isValidChar := c.valid
  rw [Bool.eq_false_iff, ne_eq, isHighSurrogate_iff]
  rcases hvalid with h | h <;> omega

theorem IsHex.readUnicodeEscape {hex : List Char} {c : Char} (h : IsHex hex c.toNat)
    (rest : List Char) : Source.readUnicodeEscape (hex ++ rest) = .ok (c, rest) := by
  rw [readUnicodeEscape_single (h.readHex rest) (by simp [isHighSurrogate_toNat]),
    scalarOfNat?_toNat, Option.getD_some]

theorem readUnicodeEscape_join {high low : List Char} {i j : Nat} {c : Char} (hhigh : IsHex high i)
    (hlow : IsHex low j) (hi : isHighSurrogate i = true) (hjoin : joinSurrogates i j = c.toNat)
    (rest : List Char) :
    readUnicodeEscape (high ++ '\\' :: 'u' :: (low ++ rest)) = .ok (c, rest) := by
  rw [readUnicodeEscape_second (hhigh.readHex _) hi, hlow.readHex]
  simp only [Except.bind, hjoin, scalarOfNat?_toNat]

/-- The two surrogates of a character beyond the four digits. -/
theorem joinSurrogates_split {k : Nat} (h : k < 0x100000) :
    isHighSurrogate (0xd800 + k / 0x400) = true ∧
      joinSurrogates (0xd800 + k / 0x400) (0xdc00 + k % 0x400) = 0x10000 + k := by
  rw [isHighSurrogate_iff, joinSurrogates]
  omega

theorem readUnicodeEscape_pair {c : Char} {k : Nat} (hc : c.toNat = 0x10000 + k)
    {high low : List Char} (hhigh : IsHex high (0xd800 + k / 0x400))
    (hlow : IsHex low (0xdc00 + k % 0x400)) (rest : List Char) :
    readUnicodeEscape (high ++ '\\' :: 'u' :: (low ++ rest)) = .ok (c, rest) := by
  have hk : k < 0x100000 := by
    have hvalid : c.toNat.isValidChar := c.valid
    rw [hc] at hvalid
    rcases hvalid with h | h <;> omega
  obtain ⟨hsurrogate, hjoin⟩ := joinSurrogates_split hk
  exact readUnicodeEscape_join hhigh hlow hsurrogate (hjoin.trans hc.symm) rest

theorem scalarOfNat?_surrogate {n : Nat} (h : 0xd800 ≤ n ∧ n < 0xe000) : scalarOfNat? n = none := by
  rw [scalarOfNat?]
  apply dif_neg
  rintro (hlow | hhigh) <;> omega

/-- A surrogate with no second one behind it. -/
theorem readUnicodeEscape_lone {n : Nat} (hn : 0xd800 ≤ n ∧ n < 0xe000) {hex : List Char}
    (hhex : IsHex hex n) {rest : List Char} (hrest : n < 0xdc00 → ¬ ['\\', 'u'] <+: rest) :
    readUnicodeEscape (hex ++ rest) = .ok ('\ufffd', rest) := by
  have hsingle : ∀ behind, isHighSurrogate n = true → rest ≠ '\\' :: 'u' :: behind := by
    rintro behind hhigh rfl
    exact hrest (isHighSurrogate_iff.mp hhigh).2 ⟨behind, rfl⟩
  rw [readUnicodeEscape_single (hhex.readHex rest) hsingle, scalarOfNat?_surrogate hn,
    Option.getD_none]

/-! ## Literals -/

/-- The quotes of a literal. -/
def literalQuotes : List Char :=
  ['`', '"']

theorem start_of_mem_literalQuotes : ∀ quote ∈ literalQuotes,
    Start.of quote = .string ∧ isBlank quote = false ∧ quote ≠ '/' := by
  decide

theorem mem_literalQuotes {quote : Char} (h : Start.of quote = .string) :
    quote ∈ literalQuotes := by
  rw [Start.of] at h
  split at h
  · rename_i hquote
    simpa [literalQuotes] using hquote
  · split at h
    · cases h
    · split at h <;> cases h

theorem ne_of_mem_literalQuotes : ∀ quote ∈ literalQuotes,
    quote ≠ '\\' ∧ quote ≠ 'u' ∧ quote ≠ '{' ∧ quote ≠ '}' := by
  decide

/-- A text, and a way of writing it between two quotes. -/
inductive Spelled (quote : Char) : List Char → List Char → Prop
  | nil : Spelled quote [] []
  | plain {c : Char} {text source : List Char} : c ≠ quote → c ≠ '\\' →
      Spelled quote text source → Spelled quote (c :: text) (c :: source)
  | escape {e c : Char} {text source : List Char} : (e, c) ∈ shortEscapes →
      Spelled quote text source → Spelled quote (c :: text) ('\\' :: e :: source)
  /-- An unknown escape stands for itself. -/
  | unknown {e : Char} {text source : List Char} : e ≠ 'u' → e ∉ shortEscapes.map Prod.fst →
      Spelled quote text source → Spelled quote ('\\' :: e :: text) ('\\' :: e :: source)
  | unicode {c : Char} {hex text source : List Char} : IsHex hex c.toNat →
      Spelled quote text source → Spelled quote (c :: text) ('\\' :: 'u' :: (hex ++ source))
  /-- A character beyond the four digits is written as two surrogates. -/
  | pair {c : Char} {k : Nat} {high low text source : List Char} : c.toNat = 0x10000 + k →
      IsHex high (0xd800 + k / 0x400) → IsHex low (0xdc00 + k % 0x400) →
      Spelled quote text source →
      Spelled quote (c :: text) ('\\' :: 'u' :: (high ++ '\\' :: 'u' :: (low ++ source)))
  /-- A surrogate alone stands for the replacement character. -/
  | lone {n : Nat} {hex text source : List Char} : 0xd800 ≤ n ∧ n < 0xe000 → IsHex hex n →
      (n < 0xdc00 → ¬ ['\\', 'u'] <+: source) → Spelled quote text source →
      Spelled quote ('\ufffd' :: text) ('\\' :: 'u' :: (hex ++ source))

/-- The quote behind a text does not start a second escape. -/
theorem not_escape_append {quote : Char} (hquote : quote ∈ literalQuotes) {source : List Char}
    (h : ¬ ['\\', 'u'] <+: source) (rest : List Char) :
    ¬ ['\\', 'u'] <+: source ++ quote :: rest := by
  obtain ⟨hslash, hu, -⟩ := ne_of_mem_literalQuotes quote hquote
  rcases source with - | ⟨c, - | ⟨d, source⟩⟩
  · simp [List.cons_prefix_cons, hslash.symm]
  · simp [List.cons_prefix_cons, hu.symm]
  · simpa [List.cons_prefix_cons] using h

/-- A text is read from any way of writing it, up to the closing quote. -/
theorem Spelled.read {quote : Char} (hquote : quote ∈ literalQuotes)
    {text source : List Char} (h : Spelled quote text source) (opening acc rest : List Char) :
    readStringTail quote opening acc (source ++ quote :: rest) =
      .ok (acc.reverse ++ text, rest) := by
  have hslash : '\\' ≠ quote := (ne_of_mem_literalQuotes quote hquote).1.symm
  induction h generalizing acc with
  | nil => simp [readStringTail_close]
  | plain hc hbackslash _ ih =>
    rw [List.cons_append, readStringTail_plain hc hbackslash, ih]
    simp
  | escape hmem _ ih =>
    obtain ⟨hstands, hu⟩ := unescape_short _ hmem
    rw [List.cons_append, List.cons_append, readStringTail_escape hslash hu, hstands, ih]
    simp
  | unknown hu hmem _ ih =>
    rw [List.cons_append, List.cons_append, readStringTail_escape hslash hu,
      unescape_unknown hmem, ih]
    simp
  | unicode hhex _ ih =>
    rw [List.cons_append, List.cons_append, List.append_assoc,
      readStringTail_unicode hslash (hhex.readUnicodeEscape _), ih]
    simp
  | pair hc hhigh hlow _ ih =>
    rw [List.cons_append, List.cons_append, List.append_assoc, List.cons_append, List.cons_append,
      List.append_assoc, readStringTail_unicode hslash (readUnicodeEscape_pair hc hhigh hlow _), ih]
    simp
  | lone hn hhex halone _ ih =>
    have hrest := fun hlow => not_escape_append hquote (halone hlow) rest
    rw [List.cons_append, List.cons_append, List.append_assoc,
      readStringTail_unicode hslash (readUnicodeEscape_lone hn hhex hrest), ih]
    simp

/-- A text in backticks or in double quotes. -/
inductive IsLiteral (value : String) : List Char → Prop
  | quoted {quote : Char} {source : List Char} : quote ∈ literalQuotes →
      Spelled quote value.toList source → IsLiteral value (quote :: (source ++ [quote]))

/-- A literal starts with a quote, and is read up to the other one. -/
theorem IsLiteral.readString {value : String} {cs : List Char} (h : IsLiteral value cs)
    (rest : List Char) :
    ∃ quote more, cs ++ rest = quote :: more ∧ quote ∈ literalQuotes ∧
      Source.readString (quote :: more) = .ok (value, rest) := by
  obtain ⟨hquote, hspelled⟩ := h
  rename_i quote source
  refine ⟨quote, source ++ quote :: rest, by simp, hquote, ?_⟩
  rw [Source.readString, hspelled.read hquote]
  simp

/-! ## Numerals -/

/-- A numeral without a sign: digits, with a point somewhere between them or at either end. -/
inductive IsDecimal : Decimal → List Char → Prop
  | whole {digits : List Char} : (∀ c ∈ digits, c.isDigit = true) → digits ≠ [] →
      IsDecimal ⟨Nat.ofDigitChars 10 digits 0, 0⟩ digits
  | point {whole fraction : List Char} : (∀ c ∈ whole, c.isDigit = true) →
      (∀ c ∈ fraction, c.isDigit = true) → whole ++ fraction ≠ [] →
      IsDecimal ⟨Nat.ofDigitChars 10 (whole ++ fraction) 0, fraction.length⟩
        (whole ++ '.' :: fraction)

/-- A numeral starts with a digit, or with a minus sign. -/
inductive IsNumeral : Number → List Char → Prop
  | positive {d : Decimal} {c : Char} {cs : List Char} : IsDecimal d (c :: cs) →
      c.isDigit = true → IsNumeral (.ofDecimal false d) (c :: cs)
  | negative {d : Decimal} {cs : List Char} : IsDecimal d cs →
      IsNumeral (.ofDecimal true d) ('-' :: cs)

theorem IsDecimal.read? {d : Decimal} {cs : List Char} (h : IsDecimal d cs) :
    Decimal.read? cs = some d := by
  cases h with
  | whole hdigits hne => exact Decimal.read?_digits hdigits hne
  | point hwhole hfraction hne => exact Decimal.read?_point hwhole hfraction hne

theorem IsDecimal.isNumeralChar {d : Decimal} {cs : List Char} (h : IsDecimal d cs) :
    ∀ c ∈ cs, isNumeralChar c = true := by
  apply isNumeralChar_of_isPlain
  intro c hc
  cases h with
  | whole hdigits => exact .inl (hdigits c hc)
  | point hwhole hfraction =>
    rcases List.mem_append.mp hc with hc | hc
    · exact .inl (hwhole c hc)
    · rcases List.mem_cons.mp hc with hc | hc
      · exact .inr hc
      · exact .inl (hfraction c hc)

theorem IsDecimal.ne_nil {d : Decimal} {cs : List Char} (h : IsDecimal d cs) : cs ≠ [] := by
  cases h with
  | whole _ hne => exact hne
  | point => simp

/-- A numeral is read up to where what follows cannot go on with it. -/
theorem IsNumeral.readNumber {x : Number} {cs : List Char} (h : IsNumeral x cs) {rest : List Char}
    (hrest : ∀ c ∈ rest.head?, isNumeralChar c = false) :
    Source.readNumber (cs ++ rest) = .ok (x, rest) := by
  cases h with
  | positive hdecimal hdigit =>
    show Source.readNumber (Number.signed false _ ++ rest) = _
    refine readNumber_signed hdecimal.isNumeralChar hdecimal.ne_nil hrest ?_
    rw [Number.signed, if_neg (by decide), Number.read?_of_digit hdigit, hdecimal.read?]
    rfl
  | negative hdecimal =>
    show Source.readNumber (Number.signed true _ ++ rest) = _
    refine readNumber_signed hdecimal.isNumeralChar hdecimal.ne_nil hrest ?_
    simp [Number.signed, Number.read?, hdecimal.read?]

theorem IsNumeral.eq_cons {x : Number} {cs : List Char} (h : IsNumeral x cs) :
    ∃ c more, cs = c :: more ∧ Start.of c = .number ∧ isBlank c = false ∧ c ≠ '/' ∧ c ≠ '}' := by
  cases h with
  | positive _ hdigit =>
    refine ⟨_, _, rfl, start_of_isDigit hdigit, isBlank_of_isDigit hdigit, ?_, ?_⟩
    · rintro rfl
      exact absurd hdigit (by decide)
    · rintro rfl
      exact absurd hdigit (by decide)
  | negative => exact ⟨'-', _, rfl, by decide, by decide, by decide, by decide⟩

/-! ## Calls -/

/-- The quotes inside which parentheses do not count. -/
def callQuotes : List Char :=
  ['"', '`', '\'']

/-- What stands between two such quotes; a backslash takes the next character along. -/
inductive IsQuoted (quote : Char) : List Char → Prop
  | nil : IsQuoted quote []
  | plain {c : Char} {cs : List Char} : c ≠ quote → c ≠ '\\' → IsQuoted quote cs →
      IsQuoted quote (c :: cs)
  | escape {c : Char} {cs : List Char} : IsQuoted quote cs → IsQuoted quote ('\\' :: c :: cs)

/-- Text with its parentheses and its quotes in pairs. -/
inductive Balanced : List Char → Prop
  | nil : Balanced []
  | plain {c : Char} {cs : List Char} : c ∉ callQuotes → c ≠ '(' → c ≠ ')' → Balanced cs →
      Balanced (c :: cs)
  | quoted {quote : Char} {text cs : List Char} : quote ∈ callQuotes → IsQuoted quote text →
      Balanced cs → Balanced (quote :: (text ++ quote :: cs))
  | nested {inner cs : List Char} : Balanced inner → Balanced cs →
      Balanced ('(' :: (inner ++ ')' :: cs))

theorem readCallTail_quoted {quote : Char} (hquote : quote ≠ '\\') {text : List Char}
    (h : IsQuoted quote text) (acc : List Char) (depth : Nat) (rest : List Char) :
    readCallTail acc (some quote) depth (text ++ quote :: rest) =
      readCallTail (quote :: (text.reverse ++ acc)) none depth rest := by
  induction h generalizing acc with
  | nil =>
    rw [List.nil_append, readCallTail.eq_def]
    simp only [hquote, if_false, if_true]
    rfl
  | plain hc hslash _ ih =>
    rw [List.cons_append, readCallTail.eq_def]
    simp only [hc, hslash, if_false]
    rw [ih]
    simp
  | escape _ ih =>
    rw [List.cons_append, List.cons_append, readCallTail, ih]
    simp

theorem readCallTail_open (acc : List Char) (depth : Nat) (rest : List Char) :
    readCallTail acc none depth ('(' :: rest) =
      readCallTail ('(' :: acc) none (depth + 1) rest := by
  simp [readCallTail]

theorem readCallTail_close (acc : List Char) (depth : Nat) (rest : List Char) :
    readCallTail acc none (depth + 2) (')' :: rest) =
      readCallTail (')' :: acc) none (depth + 1) rest := by
  simp [readCallTail]

/-- Reading a call goes over balanced text, and is as deep behind it as before. -/
theorem Balanced.readCallTail {cs : List Char} (h : Balanced cs) (acc : List Char) (depth : Nat)
    (rest : List Char) :
    Source.readCallTail acc none (depth + 1) (cs ++ rest) =
      Source.readCallTail (cs.reverse ++ acc) none (depth + 1) rest := by
  induction h generalizing acc depth rest with
  | nil => rfl
  | plain hquote hopen hclose _ ih =>
    simp only [callQuotes, List.mem_cons, List.not_mem_nil, or_false] at hquote
    simp only [List.cons_append, Source.readCallTail, hquote, hopen, hclose, if_false]
    rw [ih]
    simp
  | @quoted quote text cs hquote htext _ ih =>
    have hslash : quote ≠ '\\' := by
      rintro rfl
      exact absurd hquote (by decide)
    simp only [callQuotes, List.mem_cons, List.not_mem_nil, or_false] at hquote
    simp only [List.cons_append, List.append_assoc, Source.readCallTail, hquote, if_true]
    rw [readCallTail_quoted hslash htext, ih]
    simp
  | nested _ _ ihinner ih =>
    rw [List.cons_append, List.append_assoc, List.cons_append, readCallTail_open, ihinner,
      readCallTail_close, ih]
    simp

/-- Balanced text between parentheses is one call. -/
theorem Balanced.isCall {inner : List Char} (h : Balanced inner) :
    IsCall ('(' :: (inner ++ [')'])) := by
  rw [IsCall, readCall, readCallTail_open, h.readCallTail]
  simp [Source.readCallTail]

end ChatMarkup.Source

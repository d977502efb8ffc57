import ChatMarkup.Proofs.Number.Numeral
import ChatMarkup.Source.Attributes
import ChatMarkup.Source.Quoted

/-!
# Tokens behind which anything may stand

The readers of single tokens, on a token with any source behind it. A string literal, a call and a
bracket end by themselves; a name and a numeral end where the source behind them cannot go on with
them (`Delimits`).

* `readString_quote`, `readString_quoteCode`: both ways of quoting a text are undone by the one
  reader of strings, whatever follows;
* `readIdentifier_append`, `readIdentifier_eq_ok`: a name is read up to where it ends;
* `readCall_append`, `readCall_eq_ok`: a call is read up to the parenthesis that closes it;
* `readNumber_text`: the numeral of a finite number is read as a number of the same value.
-/

namespace ChatMarkup.Source

/-! ## What a token starts with -/

theorem skipTrivia_token {c : Char} {rest : List Char} (hblank : isBlank c = false)
    (hslash : c ≠ '/') : skipTrivia (c :: rest) = c :: rest :=
  skipTrivia_cons hblank fun h => absurd h hslash

theorem skipTrivia_skipTriviaFrom (inComment : Bool) (cs : List Char) :
    skipTrivia (skipTriviaFrom inComment cs) = skipTriviaFrom inComment cs := by
  induction cs generalizing inComment with
  | nil => rfl
  | cons c rest ih =>
    rw [skipTriviaFrom]
    split
    · exact ih _
    · split
      · exact ih _
      · rename_i hblank
        split
        · exact ih _
        · rename_i hslash
          rw [Bool.and_eq_true, decide_eq_true_eq, decide_eq_true_eq, not_and] at hslash
          exact skipTrivia_cons (by simpa using hblank) hslash

/-- Behind trivia nothing more is passed over. -/
theorem skipTrivia_idem (cs : List Char) : skipTrivia (skipTrivia cs) = skipTrivia cs :=
  skipTrivia_skipTriviaFrom false cs

theorem inRanges_eq_false {ranges others : List (Nat × Nat)} {c : Char}
    (hapart : ∀ r ∈ ranges, ∀ o ∈ others, r.2 < o.1 ∨ o.2 < r.1)
    (h : inRanges ranges c = true) : inRanges others c = false := by
  simp only [inRanges, List.any_eq_true, Bool.and_eq_true, decide_eq_true_eq] at h
  obtain ⟨r, hr, hlow, hhigh⟩ := h
  simp only [inRanges, List.any_eq_false, Bool.and_eq_true, decide_eq_true_eq, not_and]
  intro o ho _
  have := hapart r hr o ho
  omega

theorem letters_apart_from_blanks :
    ∀ r ∈ alphabeticRanges, ∀ o ∈ blankRanges, r.2 < o.1 ∨ o.2 < r.1 := by
  decide +kernel

theorem inRanges_of_isAlpha {c : Char} (h : c.isAlpha = true) :
    inRanges alphabeticRanges c = true := by
  simp only [inRanges, List.any_eq_true, Bool.and_eq_true, decide_eq_true_eq]
  rcases toNat_of_isAlpha h with h | h
  · exact ⟨(0x41, 0x5a), by decide, h⟩
  · exact ⟨(0x61, 0x7a), by decide, h⟩

/-- A letter is no blank. -/
theorem isBlank_of_isIdentifierStart {c : Char} (h : isIdentifierStart c = true) :
    isBlank c = false := by
  simp only [isIdentifierStart, isAlphabetic, Bool.or_eq_true, Bool.and_eq_true,
    decide_eq_true_eq] at h
  rcases h with (h | h) | rfl
  · exact inRanges_eq_false letters_apart_from_blanks (inRanges_of_isAlpha h)
  · exact inRanges_eq_false letters_apart_from_blanks h.2
  · decide

theorem isBlank_of_isDigit {c : Char} (h : c.isDigit = true) : isBlank c = false := by
  have hdigit : inRanges [(0x30, 0x39)] c = true := by
    simpa [inRanges] using Char.isDigit_iff_toNat.mp h
  exact inRanges_eq_false (by decide) hdigit

/-- A letter is no digit. -/
theorem isDigit_of_isIdentifierStart {c : Char} (h : isIdentifierStart c = true) :
    c.isDigit = false := by
  by_contra hdigit
  have hle := (Char.isDigit_iff_toNat.mp (by simpa using hdigit)).2
  have hnine : '9'.toNat = 57 := rfl
  simp only [isIdentifierStart, isAlphabetic, Bool.or_eq_true, Bool.and_eq_true,
    decide_eq_true_eq] at h
  rcases h with (h | h) | rfl
  · have := toNat_of_isAlpha h
    omega
  · omega
  · exact absurd hle (by decide)

theorem ne_of_isIdentifierStart {c d : Char} (h : isIdentifierStart c = true)
    (hd : isIdentifierStart d = false) : c ≠ d := by
  rintro rfl
  rw [h] at hd
  cases hd

theorem start_of_isIdentifierStart {c : Char} (h : isIdentifierStart c = true) :
    Start.of c = .identifier := by
  have hback : c ≠ '`' := ne_of_isIdentifierStart h (by decide)
  have hquote : c ≠ '"' := ne_of_isIdentifierStart h (by decide)
  have hminus : c ≠ '-' := ne_of_isIdentifierStart h (by decide)
  simp [Start.of, hback, hquote, hminus, isDigit_of_isIdentifierStart h, h]

theorem start_of_isDigit {c : Char} (h : c.isDigit = true) : Start.of c = .number := by
  have hback : c ≠ '`' := by
    rintro rfl
    exact absurd h (by decide)
  have hquote : c ≠ '"' := by
    rintro rfl
    exact absurd h (by decide)
  simp [Start.of, hback, hquote, h]

/-! ## Strings -/

section Strings

variable {quote : Char} {opening acc rest : List Char}

theorem readStringTail_close :
    readStringTail quote opening acc (quote :: rest) = .ok (acc.reverse, rest) := by
  rw [readStringTail.eq_def]
  simp

theorem readStringTail_plain {c : Char} (hquote : c ≠ quote) (hslash : c ≠ '\\') :
    readStringTail quote opening acc (c :: rest) =
      readStringTail quote opening (c :: acc) rest := by
  rw [readStringTail.eq_def]
  simp [hquote, hslash]

theorem readStringTail_slash (hquote : '\\' ≠ quote) :
    readStringTail quote opening acc ['\\'] = stop .unterminatedString opening := by
  rw [readStringTail.eq_def]
  simp only [hquote, ↓reduceIte]

theorem readStringTail_escape {c : Char} (hquote : '\\' ≠ quote) (hu : c ≠ 'u') :
    readStringTail quote opening acc ('\\' :: c :: rest) =
      readStringTail quote opening ((unescape c).reverse ++ acc) rest := by
  rw [readStringTail.eq_def]
  simp only [hquote, ↓reduceIte]

theorem readStringTail_unicode {c : Char} {digits : List Char} (hquote : '\\' ≠ quote)
    (h : readUnicodeEscape digits = .ok (c, rest)) :
    readStringTail quote opening acc ('\\' :: 'u' :: digits) =
      readStringTail quote opening (c :: acc) rest := by
  rw [readStringTail.eq_def]
  simp only [hquote, ↓reduceIte]
  split
  · rename_i heq
    rw [h] at heq
    cases heq
    rfl
  · rename_i heq
    rw [h] at heq
    cases heq

theorem readStringTail_unicode_error {digits : List Char} {e : Stop} (hquote : '\\' ≠ quote)
    (h : readUnicodeEscape digits = .error e) :
    readStringTail quote opening acc ('\\' :: 'u' :: digits) = .error e := by
  rw [readStringTail.eq_def]
  simp only [hquote, ↓reduceIte]
  split
  · rename_i heq
    rw [h] at heq
    cases heq
  · rename_i heq
    rw [h] at heq
    cases heq
    rfl

/-- A text whose characters are spelled so that each is read as itself is read up to the closing
quote. -/
theorem readStringTail_flatMap {spell : Char → List Char}
    (hspell : ∀ c acc rest, readStringTail quote opening acc (spell c ++ rest) =
      readStringTail quote opening (c :: acc) rest) (cs : List Char) :
    readStringTail quote opening acc (cs.flatMap spell ++ quote :: rest) =
      .ok (acc.reverse ++ cs, rest) := by
  induction cs generalizing acc with
  | nil => simp [readStringTail_close]
  | cons c cs ih =>
    rw [List.flatMap_cons, List.append_assoc, hspell, ih]
    simp

end Strings

theorem readStringTail_quoteChar {opening acc rest : List Char} (c : Char) :
    readStringTail '`' opening acc (quoteChar c ++ rest) =
      readStringTail '`' opening (c :: acc) rest := by
  unfold quoteChar
  split
  · subst_vars
    exact readStringTail_escape (by decide) (by decide)
  · split
    · subst_vars
      exact readStringTail_escape (by decide) (by decide)
    · rename_i hslash hquote
      exact readStringTail_plain hquote hslash

/-- The hexadecimal digits of a number below 16 are read as that number. -/
theorem hexDigit?_hexDigit : ∀ n < 16, hexDigit? (Json.hexDigit n) = some n := by
  decide

theorem readHex_two (acc : Nat) {m n : Nat} (rest : List Char) (hm : m < 16) (hn : n < 16) :
    readHex 2 acc (Json.hexDigit m :: Json.hexDigit n :: rest) =
      .ok (16 * (16 * acc + m) + n, rest) := by
  simp [readHex, hexDigit?_hexDigit m hm, hexDigit?_hexDigit n hn]

theorem scalarOfNat?_toNat (c : Char) : scalarOfNat? c.toNat = some c := by
  rw [scalarOfNat?]
  exact dif_pos c.valid

/-- Behind a high surrogate, a second escape makes a pair with it. -/
theorem readUnicodeEscape_second {code : Nat} {cs behind : List Char}
    (h : readHex 4 0 cs = .ok (code, '\\' :: 'u' :: behind))
    (hhigh : isHighSurrogate code = true) :
    readUnicodeEscape cs =
      (readHex 4 0 behind).bind fun low =>
        match scalarOfNat? (joinSurrogates code low.1) with
        | some c => .ok (c, low.2)
        | none => stop .invalidSurrogatePair low.2 := by
  rw [readUnicodeEscape, h]
  simp only [hhigh]
  cases readHex 4 0 behind <;> rfl

/-- An escape that is not the first of a pair stands for itself. -/
theorem readUnicodeEscape_single {code : Nat} {cs rest : List Char}
    (h : readHex 4 0 cs = .ok (code, rest))
    (hsingle : ∀ behind, isHighSurrogate code = true → rest ≠ '\\' :: 'u' :: behind) :
    readUnicodeEscape cs = .ok ((scalarOfNat? code).getD '\ufffd', rest) := by
  rw [readUnicodeEscape, h]
  dsimp only
  split
  · rename_i hhigh
    exact absurd rfl (hsingle _ hhigh)
  · rfl

/-- The escape of a character below U+0100. -/
theorem readUnicodeEscape_low {c : Char} {rest : List Char} (hc : c.toNat < 256) :
    readUnicodeEscape
      ('0' :: '0' :: Json.hexDigit (c.toNat / 16) :: Json.hexDigit (c.toNat % 16) :: rest) =
        .ok (c, rest) := by
  have hhex : readHex 4 0
      ('0' :: '0' :: Json.hexDigit (c.toNat / 16) :: Json.hexDigit (c.toNat % 16) :: rest) =
        .ok (c.toNat, rest) := by
    have hzero : hexDigit? '0' = some 0 := by decide
    have htwo := readHex_two 0 rest (show c.toNat / 16 < 16 by omega)
      (show c.toNat % 16 < 16 by omega)
    simp only [readHex, hzero] at htwo ⊢
    rw [htwo]
    congr 2
    omega
  have hhigh : isHighSurrogate c.toNat = false := by
    simp only [isHighSurrogate, decide_eq_false_iff_not]
    omega
  rw [readUnicodeEscape_single hhex (by simp [hhigh]), scalarOfNat?_toNat, Option.getD_some]

theorem readStringTail_quoteCodeChar {opening acc rest : List Char} (c : Char) :
    readStringTail '`' opening acc (quoteCodeChar c ++ rest) =
      readStringTail '`' opening (c :: acc) rest := by
  have hescape : ∀ e, e ≠ 'u' → unescape e = [c] →
      readStringTail '`' opening acc (['\\', e] ++ rest) =
        readStringTail '`' opening (c :: acc) rest := by
    intro e he hc
    have h : readStringTail '`' opening acc ('\\' :: e :: rest) =
        readStringTail '`' opening ((unescape e).reverse ++ acc) rest :=
      readStringTail_escape (by decide) he
    rw [hc] at h
    exact h
  unfold quoteCodeChar
  split
  · subst_vars
    exact hescape '`' (by decide) rfl
  · rename_i hquote
    unfold Json.escapeChar
    split
    · subst_vars
      exact hescape '"' (by decide) rfl
    · split
      · subst_vars
        exact hescape '\\' (by decide) rfl
      · rename_i hslash
        split
        · subst_vars
          exact hescape 'b' (by decide) rfl
        · split
          · subst_vars
            exact hescape 'f' (by decide) rfl
          · split
            · subst_vars
              exact hescape 'n' (by decide) rfl
            · split
              · subst_vars
                exact hescape 'r' (by decide) rfl
              · split
                · subst_vars
                  exact hescape 't' (by decide) rfl
                · split
                  · exact readStringTail_unicode (by decide) (readUnicodeEscape_low (by omega))
                  · exact readStringTail_plain hquote hslash

theorem toList_quote (text : String) :
    (quote text).toList = '`' :: (text.toList.flatMap quoteChar ++ ['`']) := by
  simp [quote]

theorem toList_quoteCode (text : String) :
    (quoteCode text).toList = '`' :: (text.toList.flatMap quoteCodeChar ++ ['`']) := by
  simp [quoteCode]

/-- A literal whose characters are spelled so that each is read as itself. -/
theorem readString_flatMap {spell : Char → List Char} {quote : Char}
    (hspell : ∀ opening c acc rest, readStringTail quote opening acc (spell c ++ rest) =
      readStringTail quote opening (c :: acc) rest) (text : String) (rest : List Char) :
    readString (quote :: (text.toList.flatMap spell ++ quote :: rest)) = .ok (text, rest) := by
  rw [readString, readStringTail_flatMap (hspell _)]
  simp

/-- A quoted text is read as the text, whatever follows. -/
theorem readString_quote (text : String) (rest : List Char) :
    readString ((quote text).toList ++ rest) = .ok (text, rest) := by
  rw [toList_quote, List.cons_append, List.append_assoc]
  exact readString_flatMap (fun _ c _ _ => readStringTail_quoteChar c) text rest

/-- A quoted code is read as the code, whatever follows. -/
theorem readString_quoteCode (text : String) (rest : List Char) :
    readString ((quoteCode text).toList ++ rest) = .ok (text, rest) := by
  rw [toList_quoteCode, List.cons_append, List.append_assoc]
  exact readString_flatMap (fun _ c _ _ => readStringTail_quoteCodeChar c) text rest

/-- The empty literal between double quotes. -/
theorem readString_empty (rest : List Char) :
    readString ('"' :: '"' :: rest) = .ok ("", rest) := by
  rw [readString, readStringTail_close]
  rfl

/-! ## Names -/

/-- A text that is read as an identifier. -/
def IsName (name : String) : Prop :=
  ∃ c cs, name.toList = c :: cs ∧ isIdentifierStart c = true ∧ ∀ d ∈ cs, isIdentifierChar d = true

/-- Source that goes on with neither a name nor a numeral nor a call. -/
def Delimits (rest : List Char) : Prop :=
  ∀ c ∈ rest.head?, isIdentifierChar c = false ∧ c ≠ '('

theorem delimits_nil : Delimits [] := by
  simp [Delimits]

theorem delimits_cons {c : Char} {rest : List Char} (hc : isIdentifierChar c = false)
    (hcall : c ≠ '(') : Delimits (c :: rest) := by
  simp [Delimits, hc, hcall]

section Prefixes

variable {p : Char → Bool} {cs rest : List Char}

theorem takeWhile_append_stop (hcs : ∀ c ∈ cs, p c = true) (hrest : ∀ c ∈ rest.head?, p c = false) :
    (cs ++ rest).takeWhile p = cs := by
  rw [List.takeWhile_append_of_pos hcs]
  cases rest with
  | nil => simp
  | cons c rest => simp [hrest c rfl]

theorem dropWhile_append_stop (hcs : ∀ c ∈ cs, p c = true) (hrest : ∀ c ∈ rest.head?, p c = false) :
    (cs ++ rest).dropWhile p = rest := by
  rw [List.dropWhile_append_of_pos hcs]
  cases rest with
  | nil => rfl
  | cons c rest => simp [hrest c rfl]

end Prefixes

theorem readIdentifier_append {name : String} {rest : List Char} (hname : IsName name)
    (hrest : ∀ c ∈ rest.head?, isIdentifierChar c = false) :
    readIdentifier (name.toList ++ rest) = .ok (name, rest) := by
  obtain ⟨c, cs, hlist, hc, hcs⟩ := hname
  rw [hlist, List.cons_append, readIdentifier, if_pos hc, takeWhile_append_stop hcs hrest,
    dropWhile_append_stop hcs hrest, ← hlist, String.ofList_toList]

/-- What is read as an identifier is a name, and it is all of the name that stands there. -/
theorem readIdentifier_eq_ok {name : String} {cs rest : List Char}
    (h : readIdentifier cs = .ok (name, rest)) :
    IsName name ∧ cs = name.toList ++ rest ∧
      ∀ c ∈ rest.head?, isIdentifierChar c = false := by
  cases cs with
  | nil => cases h
  | cons c cs =>
    rw [readIdentifier] at h
    split at h
    · rename_i hc
      cases h
      refine ⟨⟨c, cs.takeWhile isIdentifierChar, String.toList_ofList, hc, ?_⟩, ?_, ?_⟩
      · exact fun d hd => List.mem_takeWhile_imp hd
      · simp
      · intro d hd
        have hnot := List.head?_dropWhile_not isIdentifierChar cs
        rw [Option.mem_def.mp hd] at hnot
        exact hnot
    · cases h

/-! ## Calls -/

/-- A text that is read as a call. -/
def IsCall (call : List Char) : Prop :=
  readCall call = .ok (call, [])

/-- A call ends by itself: what is read of it does not depend on what follows. -/
theorem readCallTail_eq_ok {acc : List Char} {quote : Option Char} {depth : Nat}
    {value cs rest : List Char} (h : readCallTail acc quote depth cs = .ok (value, rest)) :
    ∃ used, cs = used ++ rest ∧ value = acc.reverse ++ used ∧
      ∀ more, readCallTail acc quote depth (used ++ more) = .ok (value, more) := by
  fun_induction readCallTail acc quote depth cs with
  | case1 | case2 | case7 => cases h
  | case3 acc depth q next cs ih =>
    obtain ⟨used, rfl, rfl, hmore⟩ := ih h
    refine ⟨'\\' :: next :: used, rfl, by simp, fun more => ?_⟩
    rw [List.cons_append, List.cons_append, readCallTail]
    exact hmore more
  | case4 acc depth c cs q hc ih =>
    obtain ⟨used, rfl, rfl, hmore⟩ := ih h
    refine ⟨c :: used, rfl, by simp, fun more => ?_⟩
    rw [List.cons_append, readCallTail.eq_def]
    simp only [hc, if_false]
    exact hmore more
  | case5 acc depth c cs hc ih =>
    obtain ⟨used, rfl, rfl, hmore⟩ := ih h
    refine ⟨c :: used, rfl, by simp, fun more => ?_⟩
    simp only [List.cons_append, readCallTail, hc, if_true]
    exact hmore more
  | case6 acc depth cs _ ih =>
    obtain ⟨used, rfl, rfl, hmore⟩ := ih h
    refine ⟨'(' :: used, rfl, by simp, fun more => ?_⟩
    simp only [List.cons_append, readCallTail]
    exact hmore more
  | case8 acc cs =>
    cases h
    exact ⟨[')'], rfl, by simp, fun more => by simp [readCallTail]⟩
  | case9 acc cs _ _ depth ih =>
    obtain ⟨used, rfl, rfl, hmore⟩ := ih h
    refine ⟨')' :: used, rfl, by simp, fun more => ?_⟩
    simp only [List.cons_append, readCallTail]
    exact hmore more
  | case10 acc depth c cs hquote hopen hclose ih =>
    obtain ⟨used, rfl, rfl, hmore⟩ := ih h
    refine ⟨c :: used, rfl, by simp, fun more => ?_⟩
    simp only [List.cons_append, readCallTail, hquote, hopen, hclose]
    exact hmore more

theorem readCall_eq_ok {call cs rest : List Char} (h : readCall cs = .ok (call, rest)) :
    IsCall call ∧ cs = call ++ rest := by
  obtain ⟨used, rfl, hvalue, hmore⟩ := readCallTail_eq_ok h
  have hcall : call = used := by simpa using hvalue
  subst hcall
  refine ⟨?_, rfl⟩
  have hend := hmore []
  rwa [List.append_nil] at hend

theorem readCall_append {call : List Char} (h : IsCall call) (rest : List Char) :
    readCall (call ++ rest) = .ok (call, rest) := by
  obtain ⟨used, hused, -, hmore⟩ := readCallTail_eq_ok h
  rw [List.append_nil] at hused
  subst hused
  exact hmore rest

/-! ## Numerals -/

theorem isIdentifierChar_of_isNumeralChar (c : Char) (h : isNumeralChar c = true) :
    isIdentifierChar c = true := by
  simp only [isNumeralChar, Bool.or_eq_true, decide_eq_true_eq] at h
  rcases h with h | rfl
  · simp [isIdentifierChar, isAlphanumeric, isNumeric_of_isDigit h]
  · simp [isIdentifierChar]

theorem isNumeralChar_of_isPlain {cs : List Char} (h : Decimal.IsPlain cs) :
    ∀ c ∈ cs, isNumeralChar c = true := fun c hc => by
  simpa [isNumeralChar] using h c hc

/-- A numeral is split off up to where the source behind it cannot go on with it. -/
theorem splitNumeral_signed (negative : Bool) {cs rest : List Char}
    (hcs : ∀ c ∈ cs, isNumeralChar c = true) (hne : cs ≠ [])
    (hrest : ∀ c ∈ rest.head?, isNumeralChar c = false) :
    splitNumeral (Number.signed negative cs ++ rest) = (Number.signed negative cs, rest) := by
  have htake := takeWhile_append_stop hcs hrest
  have hdrop := dropWhile_append_stop hcs hrest
  cases negative with
  | true => simp [Number.signed, splitNumeral, htake, hdrop]
  | false =>
    simp only [Number.signed, Bool.false_eq_true, if_false]
    unfold splitNumeral
    split
    · rename_i heq
      obtain ⟨c, more, rfl⟩ := List.exists_cons_of_ne_nil hne
      cases heq
      exact absurd (hcs '-' List.mem_cons_self) (by decide)
    · rw [htake, hdrop]

theorem readNumber_signed {negative : Bool} {cs rest : List Char} {x : Number}
    (hcs : ∀ c ∈ cs, isNumeralChar c = true) (hne : cs ≠ [])
    (hrest : ∀ c ∈ rest.head?, isNumeralChar c = false)
    (hread : Number.read? (Number.signed negative cs) = some x) :
    readNumber (Number.signed negative cs ++ rest) = .ok (x, rest) := by
  rw [readNumber, splitNumeral_signed negative hcs hne hrest, hread]

theorem Delimits.not_numeral {rest : List Char} (h : Delimits rest) :
    ∀ c ∈ rest.head?, isNumeralChar c = false := by
  intro c hc
  by_contra hnumeral
  have := isIdentifierChar_of_isNumeralChar c (by simpa using hnumeral)
  rw [(h c hc).1] at this
  cases this

/-- The numeral of a finite number is read as a number of the same value. -/
theorem readNumber_text {x : Number} (hx : x.isFinite = true) {rest : List Char}
    (hrest : Delimits rest) :
    ∃ y, readNumber (x.text ++ rest) = .ok (y, rest) ∧ y.same x = true ∧ y.text = x.text := by
  obtain ⟨negative, d, htext⟩ := Number.text_eq_signed hx
  obtain ⟨y, hread, hsame, hy⟩ := Number.read?_text hx
  refine ⟨y, ?_, hsame, hy⟩
  rw [htext] at hread ⊢
  have hne : d.write ≠ [] := by
    obtain ⟨c, cs, hcs, -⟩ := d.write_eq_cons
    rw [hcs]
    exact List.cons_ne_nil _ _
  exact readNumber_signed (isNumeralChar_of_isPlain d.isPlain_write) hne hrest.not_numeral hread

end ChatMarkup.Source

import ChatMarkup.Json.Basic
import ChatMarkup.Source.Literal

/-!
# Reading JSON

A strict reader for JSON texts.  It keeps the arrays and objects that are still open, innermost
first, and goes on token by token; what is left of the text gets shorter with every token.
-/

namespace ChatMarkup.Json

/-- The blanks between JSON tokens. -/
def isBlank (c : Char) : Bool :=
  c = ' ' || c = '\n' || c = '\t' || c = '\r'

def skipBlanks (cs : List Char) : List Char :=
  cs.dropWhile isBlank

/-! ## Strings -/

/-- The character of a short escape. -/
def unescape? : Char → Option Char
  | '"' => some '"'
  | '\\' => some '\\'
  | '/' => some '/'
  | 'b' => some '\x08'
  | 'f' => some '\x0c'
  | 'n' => some '\n'
  | 'r' => some '\r'
  | 't' => some '\t'
  | _ => none

/-- The value of four hexadecimal digits. -/
def hexValue? (a b c d : Char) : Option Nat :=
  match Source.hexDigit? a, Source.hexDigit? b, Source.hexDigit? c, Source.hexDigit? d with
  | some a, some b, some c, some d => some (((a * 16 + b) * 16 + c) * 16 + d)
  | _, _, _, _ => none

/-- The code units from U+DC00 to U+DFFF, told by their six high bits. -/
def isLowSurrogate (unit : Nat) : Bool :=
  unit / 0x400 = 0x37

/-- The part of a string literal that was read: its characters, last first, a high surrogate that
waits for its partner, and whether all surrogates so far had one. -/
structure Text where
  acc : List Char
  high : Option Nat
  sound : Bool

namespace Text

def empty : Text := ⟨[], none, true⟩

/-- One more character. -/
def push (t : Text) (c : Char) : Text :=
  ⟨c :: t.acc, none, t.sound && t.high.isNone⟩

/-- One more escaped code unit. -/
def pushUnit (t : Text) (unit : Nat) : Text :=
  match t.high, Source.scalarOfNat? unit with
  | none, some c => t.push c
  | none, none =>
    if Source.isHighSurrogate unit then { t with high := some unit } else { t with sound := false }
  | some high, _ =>
    match isLowSurrogate unit, Source.scalarOfNat? (Source.joinSurrogates high unit) with
    | true, some c => ⟨c :: t.acc, none, t.sound⟩
    | _, _ => ⟨t.acc, none, false⟩

/-- The text, if all surrogates had a partner. -/
def value? (t : Text) : Option String :=
  if t.sound && t.high.isNone then some (String.ofList t.acc.reverse) else none

end Text

/-- Reads the rest of a string literal behind the part `t`. -/
def readStringTail (t : Text) : List Char → Option (Option String × List Char)
  | [] => none
  | '"' :: rest => some (t.value?, rest)
  | '\\' :: 'u' :: a :: b :: c :: d :: rest =>
    match hexValue? a b c d with
    | some unit => readStringTail (t.pushUnit unit) rest
    | none => none
  | '\\' :: e :: rest =>
    match unescape? e with
    | some c => readStringTail (t.push c) rest
    | none => none
  | c :: rest => if c.toNat < 0x20 then none else readStringTail (t.push c) rest

theorem readStringTail_length_lt {t : Text} {value : Option String} {cs rest : List Char}
    (h : readStringTail t cs = some (value, rest)) : rest.length < cs.length := by
  fun_induction readStringTail t cs with
  | case1 | case4 | case6 | case7 => cases h
  | case2 =>
    cases h
    exact Nat.lt_succ_self _
  | case3 _ _ _ _ _ _ _ _ ih =>
    have := ih h
    simp only [List.length_cons]
    omega
  | case5 _ _ _ _ _ _ ih =>
    have := ih h
    simp only [List.length_cons]
    omega
  | case8 _ _ _ _ _ _ _ ih => exact Nat.lt_succ_of_lt (ih h)

/-! ## Numerals and words -/

/-- Splits off the digits in front. -/
def splitDigits (cs : List Char) : List Char × List Char :=
  (cs.takeWhile Char.isDigit, cs.dropWhile Char.isDigit)

/-- Reads a point with the digits behind it, at least one, if one stands here. -/
def readFraction : List Char → Option (Option (List Char) × List Char)
  | '.' :: cs =>
    match splitDigits cs with
    | ([], _) => none
    | (digits, rest) => some (some digits, rest)
  | cs => some (none, cs)

/-- Splits off the sign of an exponent; true for a minus sign. -/
def splitSign : List Char → Bool × List Char
  | '-' :: cs => (true, cs)
  | '+' :: cs => (false, cs)
  | cs => (false, cs)

/-- Reads an exponent, if one stands here. -/
def readExponent : List Char → Option (Option Int × List Char)
  | [] => some (none, [])
  | c :: cs =>
    if c = 'e' || c = 'E' then
      match splitDigits (splitSign cs).2 with
      | ([], _) => none
      | (digits, rest) =>
        let size : Int := Nat.ofDigitChars 10 digits 0
        some (some (if (splitSign cs).1 then -size else size), rest)
    else some (none, c :: cs)

/-- Reads a numeral behind its sign; its whole part has no zero in front of other digits. -/
def readUnsigned (negative : Bool) (cs : List Char) : Option (Numeral × List Char) :=
  match splitDigits cs with
  | ([], _) => none
  | (first :: more, rest) =>
    if first = '0' && !more.isEmpty then none
    else
      match readFraction rest with
      | none => none
      | some (fraction, rest) =>
        match readExponent rest with
        | none => none
        | some (exponent, rest) => some (⟨negative, first :: more, fraction, exponent⟩, rest)

/-- Reads a numeral with its sign. -/
def readNumeral : List Char → Option (Numeral × List Char)
  | '-' :: cs => readUnsigned true cs
  | cs => readUnsigned false cs

/-- The text behind a word. -/
def dropWord (word : String) (cs : List Char) : Option (List Char) :=
  if word.toList.isPrefixOf cs then some (cs.drop word.length) else none

/-- Reads a value other than an array or object. -/
def readScalar (cs : List Char) : Option (Json × List Char) :=
  match cs with
  | '"' :: rest => (readStringTail .empty rest).map fun (text, rest) => (.ofText text, rest)
  | 'n' :: _ => (dropWord "null" cs).map fun rest => (.null, rest)
  | 't' :: _ => (dropWord "true" cs).map fun rest => (.bool true, rest)
  | 'f' :: _ => (dropWord "false" cs).map fun rest => (.bool false, rest)
  | _ => (readNumeral cs).map fun (value, rest) => (.number value, rest)

/-! ## Values -/

/-- An array or object that is being read, with what it has so far, last first. -/
inductive Frame where
  | array (items : List Json)
  | object (members : List (Option String × Json)) (key : Option String)

/-- What comes next: a value, or what follows the value that was read. -/
inductive State where
  | value
  | after (value : Json)

/-- Reads a key with the colon behind it. -/
def readKey (cs : List Char) : Option (Option String × List Char) :=
  match skipBlanks cs with
  | '"' :: rest =>
    match readStringTail .empty rest with
    | some (key, rest) =>
      match skipBlanks rest with
      | ':' :: rest => some (key, rest)
      | _ => none
    | none => none
  | _ => none

/-- Reads one token and says what comes next. -/
def step (frames : List Frame) (state : State) (cs : List Char) :
    Option (List Frame × State × List Char) :=
  match state with
  | .value =>
    match skipBlanks cs with
    | '[' :: rest =>
      match skipBlanks rest with
      | ']' :: rest => some (frames, .after (.array []), rest)
      | rest => some (.array [] :: frames, .value, rest)
    | '\x7b' :: rest =>
      match skipBlanks rest with
      | '\x7d' :: rest => some (frames, .after (.object []), rest)
      | rest => (readKey rest).map fun (key, rest) => (.object [] key :: frames, .value, rest)
    | rest => (readScalar rest).map fun (value, rest) => (frames, .after value, rest)
  | .after value =>
    match frames, skipBlanks cs with
    | .array items :: frames, ',' :: rest => some (.array (value :: items) :: frames, .value, rest)
    | .array items :: frames, ']' :: rest =>
      some (frames, .after (.array (value :: items).reverse), rest)
    | .object members key :: frames, ',' :: rest =>
      (readKey rest).map fun (next, rest) =>
        (.object ((key, value) :: members) next :: frames, .value, rest)
    | .object members key :: frames, '\x7d' :: rest =>
      some (frames, .after (.ofMembers ((key, value) :: members).reverse), rest)
    | _, _ => none

theorem skipBlanks_length_le (cs : List Char) : (skipBlanks cs).length ≤ cs.length :=
  (List.dropWhile_suffix isBlank).length_le

theorem splitDigits_length_le (cs : List Char) : (splitDigits cs).2.length ≤ cs.length :=
  (List.dropWhile_suffix Char.isDigit).length_le

theorem splitSign_length_le (cs : List Char) : (splitSign cs).2.length ≤ cs.length := by
  unfold splitSign
  split <;> simp

theorem readFraction_length_le {value : Option (List Char)} {cs rest : List Char}
    (h : readFraction cs = some (value, rest)) : rest.length ≤ cs.length := by
  unfold readFraction at h
  split at h
  · rename_i cs
    have := splitDigits_length_le cs
    split at h
    · cases h
    · rename_i hsplit
      cases h
      rw [hsplit] at this
      exact Nat.le_succ_of_le this
  · cases h
    exact Nat.le_refl _

theorem readExponent_length_le {value : Option Int} {cs rest : List Char}
    (h : readExponent cs = some (value, rest)) : rest.length ≤ cs.length := by
  cases cs with
  | nil =>
    cases h
    exact Nat.le_refl _
  | cons c cs =>
    rw [readExponent] at h
    split at h
    · have h₁ := splitDigits_length_le (splitSign cs).2
      have h₂ := splitSign_length_le cs
      split at h
      · cases h
      · rename_i hsplit
        cases h
        rw [hsplit] at h₁
        exact Nat.le_succ_of_le (Nat.le_trans h₁ h₂)
    · cases h
      exact Nat.le_refl _

theorem readUnsigned_length_lt {negative : Bool} {value : Numeral} {cs rest : List Char}
    (h : readUnsigned negative cs = some (value, rest)) : rest.length < cs.length := by
  have hlen : (splitDigits cs).1.length + (splitDigits cs).2.length = cs.length := by
    rw [← List.length_append]
    simp [splitDigits]
  rw [readUnsigned] at h
  split at h
  · cases h
  · rename_i first more behind hsplit
    rw [hsplit, List.length_cons] at hlen
    split at h
    · cases h
    · split at h
      · cases h
      · rename_i hfraction
        have h₁ := readFraction_length_le hfraction
        split at h
        · cases h
        · rename_i hexponent
          have h₂ := readExponent_length_le hexponent
          cases h
          have : behind.length < cs.length := by
            simp only at hlen
            omega
          omega

theorem readNumeral_length_lt {value : Numeral} {cs rest : List Char}
    (h : readNumeral cs = some (value, rest)) : rest.length < cs.length := by
  unfold readNumeral at h
  split at h
  · exact Nat.lt_succ_of_lt (readUnsigned_length_lt h)
  · exact readUnsigned_length_lt h

theorem dropWord_length_lt {word : String} (hword : 0 < word.length) {cs rest : List Char}
    (h : dropWord word cs = some rest) : rest.length < cs.length := by
  rw [dropWord] at h
  split at h
  · rename_i hprefix
    cases h
    have := (List.isPrefixOf_iff_prefix.mp hprefix).length_le
    rw [String.length_toList] at this
    rw [List.length_drop]
    omega
  · cases h

theorem readScalar_length_lt {value : Json} {cs rest : List Char}
    (h : readScalar cs = some (value, rest)) : rest.length < cs.length := by
  unfold readScalar at h
  split at h <;> obtain ⟨_, hread, heq⟩ := Option.map_eq_some_iff.mp h <;> cases heq
  · exact Nat.lt_succ_of_lt (readStringTail_length_lt hread)
  · exact dropWord_length_lt (by decide) hread
  · exact dropWord_length_lt (by decide) hread
  · exact dropWord_length_lt (by decide) hread
  · exact readNumeral_length_lt hread

theorem readKey_length_lt {key : Option String} {cs rest : List Char}
    (h : readKey cs = some (key, rest)) : rest.length < cs.length := by
  have h₁ := skipBlanks_length_le cs
  unfold readKey at h
  split at h
  · rename_i hskip
    rw [hskip, List.length_cons] at h₁
    split at h
    · rename_i behind hread
      have h₂ := readStringTail_length_lt hread
      have h₃ := skipBlanks_length_le behind
      split at h
      · rename_i hcolon
        rw [hcolon, List.length_cons] at h₃
        cases h
        omega
      · cases h
    · cases h
  · cases h

theorem step_length_lt {frames frames' : List Frame} {state state' : State} {cs rest : List Char}
    (h : step frames state cs = some (frames', state', rest)) : rest.length < cs.length := by
  have hcs := skipBlanks_length_le cs
  unfold step at h
  split at h
  · split at h
    · rename_i behind hskip
      rw [hskip, List.length_cons] at hcs
      have hbehind := skipBlanks_length_le behind
      split at h
      · rename_i hclose
        rw [hclose, List.length_cons] at hbehind
        cases h
        omega
      · cases h
        omega
    · rename_i behind hskip
      rw [hskip, List.length_cons] at hcs
      have hbehind := skipBlanks_length_le behind
      split at h
      · rename_i hclose
        rw [hclose, List.length_cons] at hbehind
        cases h
        omega
      · obtain ⟨_, hkey, heq⟩ := Option.map_eq_some_iff.mp h
        cases heq
        have := readKey_length_lt hkey
        omega
    · obtain ⟨_, hread, heq⟩ := Option.map_eq_some_iff.mp h
      cases heq
      exact Nat.lt_of_lt_of_le (readScalar_length_lt hread) hcs
  · split at h
    all_goals try rename_i hskip
    · rw [hskip, List.length_cons] at hcs
      cases h
      exact hcs
    · rw [hskip, List.length_cons] at hcs
      cases h
      exact hcs
    · rw [hskip, List.length_cons] at hcs
      obtain ⟨_, hkey, heq⟩ := Option.map_eq_some_iff.mp h
      cases heq
      exact Nat.lt_trans (readKey_length_lt hkey) hcs
    · rw [hskip, List.length_cons] at hcs
      cases h
      exact hcs
    · cases h

/-- Reads on up to the end of the text. -/
def run (frames : List Frame) (state : State) (cs : List Char) : Option Json :=
  match frames, state, skipBlanks cs with
  | [], .after value, [] => some value
  | _, _, _ =>
    match _hstep : step frames state cs with
    | some (frames, state, rest) => run frames state rest
    | none => none
termination_by cs.length
decreasing_by exact step_length_lt _hstep

/-- Reads a JSON text. -/
def read? (text : String) : Option Json :=
  run [] .value text.toList

end ChatMarkup.Json

import ChatMarkup.Number.Basic
import ChatMarkup.Source.Fault
import ChatMarkup.Text.Letter

/-!
# Literals

Readers for the tokens of markup source: quoted strings, numerals, identifiers and the call that
may follow an identifier.  Each hands back the source behind what it read.  The main statements
are the lemmas `…_length_lt`: what is left is shorter.
-/

namespace ChatMarkup.Source

/-- What a reader answers: a value and the source behind it, or why it stopped. -/
abbrev Reading (α : Type) := Except Stop (α × List Char)

/-- Stops at the place from which on `rest` is left. -/
def stop {α : Type} (cause : Fault) (rest : List Char) : Except Stop α :=
  .error (.fault cause rest)

/-! ## Strings -/

/-- The value of a hexadecimal digit. -/
def hexDigit? (c : Char) : Option Nat :=
  if c.isDigit then some (c.toNat - '0'.toNat)
  else if 'a' ≤ c ∧ c ≤ 'f' then some (c.toNat - 'a'.toNat + 10)
  else if 'A' ≤ c ∧ c ≤ 'F' then some (c.toNat - 'A'.toNat + 10)
  else none

/-- Reads `count` hexadecimal digits behind those with value `acc`. -/
def readHex : (count : Nat) → (acc : Nat) → List Char → Reading Nat
  | 0, acc, cs => .ok (acc, cs)
  | _ + 1, _, [] => stop .invalidEscape []
  | count + 1, acc, c :: rest =>
    match hexDigit? c with
    | some digit => readHex count (16 * acc + digit) rest
    | none => stop .invalidEscape rest

/-- The scalar with this value, if there is one. -/
def scalarOfNat? (n : Nat) : Option Char :=
  if h : n.isValidChar then some (Char.ofNatAux n h) else none

/-- The code units from U+D800 to U+DBFF, told by their six high bits. -/
def isHighSurrogate (unit : Nat) : Bool :=
  unit / 0x400 = 0x36

/-- The scalar of a high surrogate with another code unit behind it; of both the ten low bits
count. -/
def joinSurrogates (high low : Nat) : Nat :=
  0x10000 + high % 0x400 * 0x400 + low % 0x400

/-- Reads the digits of a `\u` escape, and a second such escape behind a high surrogate.  A lone
surrogate stands for U+FFFD. -/
def readUnicodeEscape (cs : List Char) : Reading Char :=
  match readHex 4 0 cs with
  | .error e => .error e
  | .ok (code, rest) =>
    match isHighSurrogate code, rest with
    | true, '\\' :: 'u' :: behind =>
      match readHex 4 0 behind with
      | .error e => .error e
      | .ok (low, rest) =>
        match scalarOfNat? (joinSurrogates code low) with
        | some c => .ok (c, rest)
        | none => stop .invalidSurrogatePair rest
    | _, _ => .ok ((scalarOfNat? code).getD '\ufffd', rest)

/-- The text of an escape other than `\u`: an unknown one stands for itself. -/
def unescape : Char → List Char
  | 'n' => ['\n']
  | 't' => ['\t']
  | 'r' => ['\r']
  | 'b' => ['\x08']
  | 'f' => ['\x0c']
  | '"' => ['"']
  | '\\' => ['\\']
  | '/' => ['/']
  | '`' => ['`']
  | c => ['\\', c]

theorem readHex_length_le {count acc n : Nat} {cs rest : List Char}
    (h : readHex count acc cs = .ok (n, rest)) : rest.length ≤ cs.length := by
  induction count generalizing acc cs with
  | zero =>
    cases h
    exact Nat.le_refl _
  | succ count ih =>
    cases cs with
    | nil => cases h
    | cons c cs =>
      rw [readHex] at h
      split at h
      · exact Nat.le_succ_of_le (ih h)
      · cases h

theorem readUnicodeEscape_length_le {c : Char} {cs rest : List Char}
    (h : readUnicodeEscape cs = .ok (c, rest)) : rest.length ≤ cs.length := by
  unfold readUnicodeEscape at h
  split at h
  · cases h
  · rename_i code behind h₁
    have hle := readHex_length_le h₁
    split at h
    · rename_i behind' _
      split at h
      · cases h
      · rename_i low left h₂
        have hle₂ := readHex_length_le h₂
        split at h
        · cases h
          simp only [List.length_cons] at hle
          omega
        · cases h
    · cases h
      exact hle

/-- Reads the rest of a string up to its closing quote, behind a part with the characters `acc`,
last first; `opening` is the source from the opening quote on. -/
def readStringTail (quote : Char) (opening acc : List Char) (cs : List Char) :
    Reading (List Char) :=
  match cs with
  | [] => stop .unterminatedString opening
  | c :: rest =>
    if c = quote then .ok (acc.reverse, rest)
    else if c = '\\' then
      match rest with
      | [] => stop .unterminatedString opening
      | 'u' :: digits =>
        match _hread : readUnicodeEscape digits with
        | .ok (c, rest) => readStringTail quote opening (c :: acc) rest
        | .error e => .error e
      | escape :: rest => readStringTail quote opening ((unescape escape).reverse ++ acc) rest
    else readStringTail quote opening (c :: acc) rest
termination_by cs.length
decreasing_by
  · have := readUnicodeEscape_length_le ‹_›
    simp only [List.length_cons]
    omega
  · simp only [List.length_cons]
    omega
  · simp only [List.length_cons]
    omega

/-- Reads a string with its quotes; the first character is the opening quote. -/
def readString : List Char → Reading String
  | [] => stop .expectedString []
  | quote :: rest =>
    match readStringTail quote (quote :: rest) [] rest with
    | .ok (value, rest) => .ok (String.ofList value, rest)
    | .error e => .error e

theorem readStringTail_length_lt {quote : Char} {opening acc value cs rest : List Char}
    (h : readStringTail quote opening acc cs = .ok (value, rest)) : rest.length < cs.length := by
  fun_induction readStringTail quote opening acc cs with
  | case1 | case3 | case5 => cases h
  | case2 =>
    cases h
    exact Nat.lt_succ_self _
  | case4 _ _ _ _ hread _ ih =>
    have := readUnicodeEscape_length_le hread
    have := ih h
    simp only [List.length_cons]
    omega
  | case6 _ _ _ _ _ ih =>
    have := ih h
    simp only [List.length_cons]
    omega
  | case7 _ _ _ _ _ ih => exact Nat.lt_succ_of_lt (ih h)

theorem readString_length_lt {value : String} {cs rest : List Char}
    (h : readString cs = .ok (value, rest)) : rest.length < cs.length := by
  cases cs with
  | nil => cases h
  | cons quote cs =>
    rw [readString] at h
    split at h
    · rename_i hread
      cases h
      exact Nat.lt_succ_of_lt (readStringTail_length_lt hread)
    · cases h

/-! ## Numerals -/

/-- The characters of a numeral behind its sign. -/
def isNumeralChar (c : Char) : Bool :=
  c.isDigit || c = '.'

/-- Splits off a minus sign, if one is there, and all digits and points behind it. -/
def splitNumeral : List Char → List Char × List Char
  | '-' :: cs => ('-' :: cs.takeWhile isNumeralChar, cs.dropWhile isNumeralChar)
  | cs => (cs.takeWhile isNumeralChar, cs.dropWhile isNumeralChar)

/-- Reads a numeral with its sign; a fault is placed in front of it. -/
def readNumber (cs : List Char) : Reading Number :=
  match Number.read? (splitNumeral cs).1 with
  | some x => .ok (x, (splitNumeral cs).2)
  | none => stop (.invalidNumber (splitNumeral cs).1) cs

theorem splitNumeral_append (cs : List Char) : (splitNumeral cs).1 ++ (splitNumeral cs).2 = cs := by
  unfold splitNumeral
  split <;> simp

theorem readNumber_length_lt {x : Number} {cs rest : List Char}
    (h : readNumber cs = .ok (x, rest)) : rest.length < cs.length := by
  rw [readNumber] at h
  split at h
  · rename_i hread
    cases h
    have hlen := congrArg List.length (splitNumeral_append cs)
    have hne : (splitNumeral cs).1 ≠ [] := by
      intro hnil
      rw [hnil] at hread
      cases hread
    have := List.length_pos_iff.mpr hne
    rw [List.length_append] at hlen
    omega
  · cases h

/-! ## Identifiers -/

/-- The characters an identifier starts with. -/
def isIdentifierStart (c : Char) : Bool :=
  isAlphabetic c || c = '_'

/-- The characters an identifier goes on with. -/
def isIdentifierChar (c : Char) : Bool :=
  isAlphanumeric c || c = '_' || c = '-' || c = '.'

/-- Reads an identifier. -/
def readIdentifier : List Char → Reading String
  | [] => stop .expectedIdentifier []
  | c :: rest =>
    if isIdentifierStart c then
      .ok (String.ofList (c :: rest.takeWhile isIdentifierChar), rest.dropWhile isIdentifierChar)
    else stop .expectedIdentifier (c :: rest)

theorem readIdentifier_length_lt {name : String} {cs rest : List Char}
    (h : readIdentifier cs = .ok (name, rest)) : rest.length < cs.length := by
  cases cs with
  | nil => cases h
  | cons c cs =>
    rw [readIdentifier] at h
    split at h
    · cases h
      exact Nat.lt_succ_of_le (List.dropWhile_suffix isIdentifierChar).length_le
    · cases h

/-! ## Calls -/

/-- Reads the rest of a call up to the parenthesis that closes it, `depth` levels deep and behind
the characters `acc`, last first.  Inside quotes parentheses do not count and a backslash takes the
next character along. -/
def readCallTail (acc : List Char) (quote : Option Char) (depth : Nat) :
    List Char → Reading (List Char)
  | [] => stop .unterminatedCall []
  | c :: rest =>
    match quote with
    | some q =>
      if c = '\\' then
        match rest with
        | [] => stop .unterminatedCall []
        | next :: rest => readCallTail (next :: c :: acc) (some q) depth rest
      else readCallTail (c :: acc) (if c = q then none else some q) depth rest
    | none =>
      if c = '"' ∨ c = '`' ∨ c = '\'' then readCallTail (c :: acc) (some c) depth rest
      else if c = '(' then readCallTail (c :: acc) none (depth + 1) rest
      else if c = ')' then
        match depth with
        | 0 => stop .unbalancedCall rest
        | 1 => .ok ((c :: acc).reverse, rest)
        | depth + 2 => readCallTail (c :: acc) none (depth + 1) rest
      else readCallTail (c :: acc) none depth rest

/-- Reads a call, verbatim; the first character is its opening parenthesis. -/
def readCall (cs : List Char) : Reading (List Char) :=
  readCallTail [] none 0 cs

theorem readCallTail_length_lt {acc : List Char} {quote : Option Char} {depth : Nat}
    {value cs rest : List Char} (h : readCallTail acc quote depth cs = .ok (value, rest)) :
    rest.length < cs.length := by
  fun_induction readCallTail acc quote depth cs with
  | case1 | case2 | case7 => cases h
  | case8 =>
    cases h
    exact Nat.lt_succ_self _
  | case3 _ _ _ _ _ ih =>
    have := ih h
    simp only [List.length_cons]
    omega
  | case4 _ _ _ _ _ _ ih => exact Nat.lt_succ_of_lt (ih h)
  | case5 _ _ _ _ _ ih => exact Nat.lt_succ_of_lt (ih h)
  | case6 _ _ _ _ ih => exact Nat.lt_succ_of_lt (ih h)
  | case9 _ _ _ _ _ ih => exact Nat.lt_succ_of_lt (ih h)
  | case10 _ _ _ _ _ _ _ ih => exact Nat.lt_succ_of_lt (ih h)

end ChatMarkup.Source

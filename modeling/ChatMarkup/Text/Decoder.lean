/-!
# Decoding UTF-8 in chunks

A decoder that takes UTF-8 chunk by chunk.  After a chunk it carries the bytes of an unfinished
character, which are read again before the next chunk.  Bytes that cannot be part of a character
become one replacement character for each longest run that starts like a character.
-/

namespace ChatMarkup

/-- What stands for bytes that are no character. -/
def replacementChar : Char := '\ufffd'

namespace Utf8

/-- The number of bytes of a character that starts with this byte; zero if none does. -/
def lengthFrom (lead : UInt8) : Nat :=
  if lead < 0x80 then 1
  else if 0xc2 ≤ lead && lead ≤ 0xdf then 2
  else if 0xe0 ≤ lead && lead ≤ 0xef then 3
  else if 0xf0 ≤ lead && lead ≤ 0xf4 then 4
  else 0

/-- Whether a byte continues a character. -/
def isContinuation (byte : UInt8) : Bool :=
  0x80 ≤ byte && byte ≤ 0xbf

/-- Whether a byte can be the second of a character; overlong forms, surrogates and what is above
the last character are ruled out here. -/
def isSecond (lead byte : UInt8) : Bool :=
  isContinuation byte
    && (lead ≠ 0xe0 || 0xa0 ≤ byte) && (lead ≠ 0xed || byte ≤ 0x9f)
    && (lead ≠ 0xf0 || 0x90 ≤ byte) && (lead ≠ 0xf4 || byte ≤ 0x8f)

/-- Whether a byte can come next in an unfinished character. -/
def continues (carried : List UInt8) (byte : UInt8) : Bool :=
  match carried with
  | [lead] => isSecond lead byte
  | _ => isContinuation byte

/-- The bits of a byte that starts a character of several bytes. -/
def leadBits (lead : UInt8) : Nat :=
  if lead < 0xe0 then lead.toNat - 0xc0
  else if lead < 0xf0 then lead.toNat - 0xe0
  else lead.toNat - 0xf0

/-- The character with these bytes. -/
def charOf : List UInt8 → Char
  | [] => replacementChar
  | [byte] => Char.ofNat byte.toNat
  | lead :: bytes =>
    Char.ofNat (bytes.foldl (fun bits byte => bits * 64 + (byte.toNat - 0x80)) (leadBits lead))

/-- What stands at the front of bytes. -/
inductive Front where
  /-- There are no bytes. -/
  | done
  /-- A character, and the bytes after it. -/
  | char (c : Char) (rest : List UInt8)
  /-- Bytes that no character starts with, and the bytes after them. -/
  | invalid (rest : List UInt8)
  /-- All bytes are of one character, which has more of them. -/
  | incomplete
deriving DecidableEq, Repr

/-- Takes the bytes that a character still misses after the taken ones. -/
def scan (taken : List UInt8) : Nat → List UInt8 → Front
  | 0, rest => .char (charOf taken) rest
  | _ + 1, [] => .incomplete
  | missing + 1, byte :: rest =>
    if continues taken byte then scan (taken ++ [byte]) missing rest else .invalid (byte :: rest)

/-- What stands at the front of these bytes. -/
def front : List UInt8 → Front
  | [] => .done
  | lead :: rest =>
    match lengthFrom lead with
    | 0 => .invalid rest
    | missing + 1 => scan [lead] missing rest

/-- The bytes after what stands at the front. -/
def Front.left : Front → List UInt8
  | .char _ rest | .invalid rest => rest
  | .done | .incomplete => []

theorem length_left_scan_le (taken : List UInt8) (missing : Nat) (bytes : List UInt8) :
    (scan taken missing bytes).left.length ≤ bytes.length := by
  fun_induction scan taken missing bytes with
  | case1 => simp [Front.left]
  | case2 => simp [Front.left]
  | case3 taken missing byte rest _ ih => exact Nat.le_succ_of_le ih
  | case4 => simp [Front.left]

theorem length_left_front_lt (lead : UInt8) (rest : List UInt8) :
    (front (lead :: rest)).left.length < (lead :: rest).length := by
  simp only [front]
  split
  · simp [Front.left]
  · exact Nat.lt_succ_of_le (length_left_scan_le [lead] _ rest)

theorem length_lt_of_front_char {bytes rest : List UInt8} {c : Char}
    (h : front bytes = .char c rest) : rest.length < bytes.length := by
  cases bytes with
  | nil => cases h
  | cons lead bytes => simpa [h, Front.left] using length_left_front_lt lead bytes

theorem length_lt_of_front_invalid {bytes rest : List UInt8}
    (h : front bytes = .invalid rest) : rest.length < bytes.length := by
  cases bytes with
  | nil => cases h
  | cons lead bytes => simpa [h, Front.left] using length_left_front_lt lead bytes

/-- Where bytes stop being text. -/
inductive Stop where
  /-- At their end. -/
  | done
  /-- At bytes that no character starts with, before these bytes. -/
  | invalid (rest : List UInt8)
  /-- At these bytes of an unfinished character. -/
  | incomplete (bytes : List UInt8)
deriving DecidableEq, Repr

/-- The text that bytes start with, and where they stop being text. -/
def validate (bytes : List UInt8) : List Char × Stop :=
  match h : front bytes with
  | .done => ([], .done)
  | .char c rest =>
    have := length_lt_of_front_char h
    let (text, stop) := validate rest
    (c :: text, stop)
  | .invalid rest => ([], .invalid rest)
  | .incomplete => ([], .incomplete bytes)
termination_by bytes.length

theorem length_lt_of_validate_invalid {bytes rest : List UInt8}
    (h : (validate bytes).2 = .invalid rest) : rest.length < bytes.length := by
  fun_induction validate bytes with
  | case1 => cases h
  | case2 bytes c others hfront hlt text stop hrest ih =>
    rw [hrest] at ih
    exact Nat.lt_trans (ih h) hlt
  | case3 bytes others hfront =>
    cases h
    exact length_lt_of_front_invalid hfront
  | case4 => cases h

/-- What bytes become, with the bytes of an unfinished character at the end left over. -/
def decodeAll (bytes : List UInt8) : List Char × List UInt8 :=
  match h : validate bytes with
  | (text, .done) => (text, [])
  | (text, .invalid rest) =>
    have := length_lt_of_validate_invalid (congrArg Prod.snd h)
    let (others, carried) := decodeAll rest
    (text ++ replacementChar :: others, carried)
  | (text, .incomplete carried) => (text, carried)
termination_by bytes.length

/-- Takes the bytes of a chunk after the carried ones: what is decoded, and what is carried on. -/
def decode (carried chunk : List UInt8) : List Char × List UInt8 :=
  decodeAll (carried ++ chunk)

/-- What bytes become when no more come: an unfinished character at their end is replaced too. -/
def lossy (bytes : List UInt8) : List Char :=
  match h : validate bytes with
  | (text, .done) => text
  | (text, .invalid rest) =>
    have := length_lt_of_validate_invalid (congrArg Prod.snd h)
    text ++ replacementChar :: lossy rest
  | (text, .incomplete _) => text ++ [replacementChar]
termination_by bytes.length

/-- What the carried bytes become when no more come. -/
def flush (carried : List UInt8) : List Char :=
  lossy carried

end Utf8

end ChatMarkup

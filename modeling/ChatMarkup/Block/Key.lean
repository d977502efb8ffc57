import ChatMarkup.Text.Bytes

/-!
# Keys of code blocks

A block of a message is known by its language and its code, and by how many blocks with the same
two stand before it.  So it keeps its key when other blocks come and go around it.
-/

namespace ChatMarkup

/-- What tells a code block from the other blocks of its message. -/
structure BlockKey where
  lang : String
  code : String
  occurrence : Nat
deriving DecidableEq, Repr

namespace BlockKey

/-- The bytes that the token is made from: the language, a zero byte, the code. -/
def message (key : BlockKey) : List UInt8 :=
  utf8Bytes key.lang ++ 0 :: utf8Bytes key.code

/-- One step of the 64-bit FNV-1a hash. -/
def absorb (hash : UInt64) (byte : UInt8) : UInt64 :=
  (hash ^^^ byte.toUInt64) * 0x100000001b3

/-- The 64-bit FNV-1a hash of some bytes. -/
def hashBytes (bytes : List UInt8) : UInt64 :=
  bytes.foldl absorb 0xcbf29ce484222325

/-- A word as sixteen hexadecimal digits. -/
def hexWord (word : UInt64) : String :=
  let digits := Nat.toDigits 16 word.toNat
  String.ofList (List.replicate (16 - digits.length) '0' ++ digits)

/-- A short name for the key, the same in every run. -/
def token (key : BlockKey) : String :=
  hexWord (hashBytes key.message) ++ "-" ++ toString key.occurrence

end BlockKey

end ChatMarkup

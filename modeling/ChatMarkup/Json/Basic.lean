import ChatMarkup.Number.Scaling

/-!
# JSON values

JSON as data: members keep their order and their repetitions, numerals their digits.
-/

namespace ChatMarkup

/-- A JSON numeral as it is written. -/
structure Numeral where
  negative : Bool
  whole : List Char
  fraction : Option (List Char)
  exponent : Option Int
deriving DecidableEq, Repr

/-- A JSON value.  A string literal with an escaped surrogate that has no partner denotes no text;
such a literal, and an object with such a key, is `faulty`. -/
inductive Json where
  | null
  | bool (value : Bool)
  | number (value : Numeral)
  | string (text : String)
  | array (items : List Json)
  | object (members : List (String × Json))
  | faulty
deriving Inhabited

/-- The fields of a record, each with its name or all in the order of their declaration. -/
inductive Record (α : Type) where
  | named (members : List (String × α))
  | listed (items : List α)

/-- The values of the fields with the given names, none for one that is missing.  A named field may
not come twice; of listed ones only those behind the first `required` may be left out. -/
def Record.fields? {α : Type} (names : List String) (required : Nat) :
    Record α → Option (List (Option α))
  | named members =>
    if names.all fun name => (members.filter fun member => member.1 = name).length ≤ 1 then
      some (names.map fun name => List.lookup name members)
    else none
  | listed items =>
    if required ≤ items.length ∧ items.length ≤ names.length then
      some (items.map some ++ List.replicate (names.length - items.length) none)
    else none

namespace Numeral

/-- The numeral of a natural number. -/
def ofNat (n : Nat) : Numeral :=
  ⟨false, Nat.toDigits 10 n, none, none⟩

/-- The natural number that a numeral without sign, fraction and exponent denotes. -/
def nat? (n : Numeral) : Option Nat :=
  if n.negative || n.fraction.isSome || n.exponent.isSome then none
  else some (Nat.ofDigitChars 10 n.whole 0)

/-- The greatest significand that is kept. -/
def greatestSignificand : Nat := UInt64.size - 1

/-- Whether one more digit leaves the significand small enough. -/
def fits (significand : Nat) (digit : Char) : Bool :=
  10 * significand + (digit.toNat - '0'.toNat) ≤ greatestSignificand

/-- Takes the digits in front of the point into the significand as long as it stays small enough,
and counts the others. -/
def takeWhole (significand : Nat) : List Char → Nat × Nat
  | [] => (significand, 0)
  | c :: cs =>
    if fits significand c then takeWhole (10 * significand + (c.toNat - '0'.toNat)) cs
    else (significand, cs.length + 1)

/-- Takes the digits behind the point into the significand as long as it stays small enough, and
counts those taken. -/
def takeFraction (significand taken : Nat) : List Char → Nat × Nat
  | [] => (significand, taken)
  | c :: cs =>
    if fits significand c then
      takeFraction (10 * significand + (c.toNat - '0'.toNat)) (taken + 1) cs
    else (significand, taken)

/-- The number that a numeral denotes; none beyond the greatest magnitude. -/
def number? (n : Numeral) : Option Number :=
  let (whole, dropped) := takeWhole 0 n.whole
  let (significand, taken) := takeFraction whole 0 (n.fraction.getD [])
  (Magnitude.ofScientific significand (dropped - taken + n.exponent.getD 0)).map
    (.finite n.negative)

/-- The digits of an integer. -/
def intDigits : Int → List Char
  | .ofNat n => Nat.toDigits 10 n
  | .negSucc n => '-' :: Nat.toDigits 10 (n + 1)

/-- Writes the numeral. -/
def write (n : Numeral) : List Char :=
  (if n.negative then ['-'] else []) ++ n.whole
    ++ (match n.fraction with
      | some digits => '.' :: digits
      | none => [])
    ++ (match n.exponent with
      | some e => 'e' :: intDigits e
      | none => [])

end Numeral

namespace Json

/-! ## Values of literals -/

/-- The value of a string literal that denotes a text, or none. -/
def ofText : Option String → Json
  | some text => string text
  | none => faulty

/-- The object with members whose keys denote texts, or none. -/
def ofMembers (members : List (Option String × Json)) : Json :=
  match members.mapM fun (key, value) => key.map fun key => (key, value) with
  | some members => object members
  | none => faulty

/-! ## Writing -/

/-- The digits of a number below 16. -/
def hexDigit (n : Nat) : Char :=
  Nat.digitChar n

/-- A character inside a JSON string: quotes, backslashes and control characters are escaped, the
latter by their short escapes where there are any. -/
def escapeChar (c : Char) : List Char :=
  if c = '"' then ['\\', '"']
  else if c = '\\' then ['\\', '\\']
  else if c = '\x08' then ['\\', 'b']
  else if c = '\x0c' then ['\\', 'f']
  else if c = '\n' then ['\\', 'n']
  else if c = '\r' then ['\\', 'r']
  else if c = '\t' then ['\\', 't']
  else if c.toNat < 0x20 then
    ['\\', 'u', '0', '0', hexDigit (c.toNat / 16), hexDigit (c.toNat % 16)]
  else [c]

/-- A text with its characters escaped, without the quotes. -/
def escape (cs : List Char) : List Char :=
  cs.flatMap escapeChar

/-- A JSON string literal. -/
def quote (text : String) : String :=
  "\"" ++ String.ofList (escape text.toList) ++ "\""

mutual

/-- Writes a value without blanks. -/
def write : Json → String
  | null => "null"
  | bool true => "true"
  | bool false => "false"
  | number value => String.ofList value.write
  | string text => quote text
  | array items => "[" ++ writeItems items ++ "]"
  | object members => "\x7b" ++ writeMembers members ++ "\x7d"
  | faulty => quote ""

def writeItems : List Json → String
  | [] => ""
  | [item] => write item
  | item :: items => write item ++ "," ++ writeItems items

def writeMembers : List (String × Json) → String
  | [] => ""
  | [(key, value)] => quote key ++ ":" ++ write value
  | (key, value) :: members => quote key ++ ":" ++ write value ++ "," ++ writeMembers members

end

/-! ## Taking values apart -/

/-- The text of a string. -/
def text? : Json → Option String
  | string text => some text
  | _ => none

def bool? : Json → Option Bool
  | bool value => some value
  | _ => none

def nat? : Json → Option Nat
  | number value => value.nat?
  | _ => none

def number? : Json → Option Number
  | number value => value.number?
  | _ => none

/-- The record that a value is, if it is one. -/
def record? : Json → Option (Record Json)
  | object members => some (.named members)
  | array items => some (.listed items)
  | _ => none

end Json

end ChatMarkup

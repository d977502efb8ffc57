import ChatMarkup.Number.Decimal

/-!
# Numbers

The numbers of the markup: signed magnitudes, and the two infinities that a literal beyond the
greatest magnitude denotes.
-/

namespace ChatMarkup

/-- A number; zero has two signs. -/
inductive Number where
  | finite (negative : Bool) (magnitude : Magnitude)
  | infinite (negative : Bool)
deriving DecidableEq, Repr

namespace Number

/-- The number nearest to a signed numeral. -/
def ofDecimal (negative : Bool) (d : Decimal) : Number :=
  match d.magnitude? with
  | some x => .finite negative x
  | none => .infinite negative

/-- A whole number. -/
def ofNat (n : Nat) : Number :=
  ofDecimal false ⟨n, 0⟩

/-- Whether two numbers are the same value; the two zeros are. -/
def same : Number → Number → Bool
  | .finite s x, .finite t y => x = y && (s = t || x = .zero)
  | .infinite s, .infinite t => s = t
  | _, _ => false

/-- Reads a numeral with an optional minus sign. -/
def read? : List Char → Option Number
  | '-' :: cs => (Decimal.read? cs).map (ofDecimal true)
  | cs => (Decimal.read? cs).map (ofDecimal false)

/-- Puts the minus sign of a negative number in front. -/
def signed (negative : Bool) (cs : List Char) : List Char :=
  if negative then '-' :: cs else cs

/-- The digits of a number with its sign, also that of a zero. -/
def display : Number → List Char
  | .finite negative x => signed negative (Decimal.ofMagnitude x).write
  | .infinite negative => signed negative ['i', 'n', 'f']

/-- A number as the markup writes it: a zero has no sign. -/
def text : Number → List Char
  | .finite negative x => if x = .zero then ['0'] else display (.finite negative x)
  | x => display x

theorem ofDecimal_eq_finite {negative : Bool} {d : Decimal} {x : Magnitude}
    (h : d.magnitude? = some x) : ofDecimal negative d = .finite negative x := by
  unfold ofDecimal
  rw [h]

theorem ofDecimal_ofMagnitude (negative : Bool) (x : Magnitude) :
    ofDecimal negative (.ofMagnitude x) = .finite negative x :=
  ofDecimal_eq_finite (Decimal.magnitude?_ofMagnitude x)

theorem same_refl (x : Number) : x.same x = true := by
  cases x <;> simp [same]

end Number

end ChatMarkup

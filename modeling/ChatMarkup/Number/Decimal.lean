import ChatMarkup.Number.Magnitude

/-!
# Decimal numerals

Numerals without an exponent, such as `12` and `0.25`: reading them, writing them, and the
coarsest one that a magnitude is the nearest to.  The main statement is
`Decimal.magnitude?_ofMagnitude`: the numeral chosen for a magnitude denotes that magnitude.
-/

namespace ChatMarkup

-- Powers are those of the natural numbers.
attribute [local instance (high)] instPowNat

/-- The value `coefficient / 10 ^ places`. -/
structure Decimal where
  coefficient : Nat
  places : Nat
deriving DecidableEq, Repr

namespace Decimal

/-! ## Reading and writing -/

/-- Reads digits with at most one point between, before or after them; at least one digit is
needed. -/
def read? (cs : List Char) : Option Decimal :=
  let whole := cs.takeWhile Char.isDigit
  match cs.dropWhile Char.isDigit with
  | [] => if whole.isEmpty then none else some ⟨Nat.ofDigitChars 10 whole 0, 0⟩
  | '.' :: fraction =>
    if fraction.all Char.isDigit && !(whole.isEmpty && fraction.isEmpty) then
      some ⟨Nat.ofDigitChars 10 (whole ++ fraction) 0, fraction.length⟩
    else none
  | _ => none

/-- Writes all digits of the coefficient, the last `places` of them after a point, with at least
one digit in front of it. -/
def write (d : Decimal) : List Char :=
  let digits := Nat.toDigits 10 d.coefficient
  if d.places = 0 then digits
  else
    let padded := List.replicate (d.places + 1 - digits.length) '0' ++ digits
    padded.take (padded.length - d.places) ++ '.' :: padded.drop (padded.length - d.places)

/-- The nearest magnitude; none for a value beyond all of them. -/
def magnitude? (d : Decimal) : Option Magnitude :=
  Magnitude.nearest d.coefficient (10 ^ d.places)

/-! ## The coarsest numeral of a magnitude -/

/-- The magnitude itself, as a numeral with all its places. -/
def exactly (x : Magnitude) : Decimal :=
  ⟨x.steps * 5 ^ finestPlace, finestPlace⟩

/-- A grid of numerals: the multiples of `10 ^ tens / 10 ^ places`. -/
structure Grid where
  tens : Nat
  places : Nat

/-- The one of two neighbours of `x` that denotes `x`; of two such, the one asked for. -/
def choose (x : Magnitude) (below above : Decimal) (preferBelow : Bool) : Option Decimal :=
  if below.magnitude? = some x then
    if above.magnitude? = some x then some (bif preferBelow then below else above)
    else some below
  else if above.magnitude? = some x then some above
  else none

/-- The nearer of the two neighbours of `x` on the grid that denote `x`; the upper one of two at
the same distance. -/
def onGrid (x : Magnitude) (g : Grid) : Option Decimal :=
  let num := x.steps * 10 ^ g.places
  let den := 2 ^ finestPlace * 10 ^ g.tens
  choose x ⟨num / den * 10 ^ g.tens, g.places⟩ ⟨(num / den + 1) * 10 ^ g.tens, g.places⟩
    (2 * (num % den) < den)

/-- All grids from one with spacing `10 ^ tens` on, coarsest first. -/
def grids (tens : Nat) : List Grid :=
  (List.range (tens + 1)).reverse.map (⟨·, 0⟩) ++ (List.range finestPlace).map (⟨0, · + 1⟩)

/-- The numeral for `x` on the coarsest of the grids that has one. -/
def coarsest (x : Magnitude) (grids : List Grid) : Decimal :=
  (grids.findSome? (onGrid x)).getD (exactly x)

/-- The numeral with the fewest digits that denotes `x`, and of those the nearest to `x`: it lies
on the coarsest grid that has a numeral for `x`. -/
def ofMagnitude (x : Magnitude) : Decimal :=
  match x.mantissa with
  | 0 => ⟨0, 0⟩
  | _ + 1 => coarsest x (grids (Nat.toDigits 10 (x.steps / 2 ^ finestPlace)).length)

theorem magnitude?_mul_five_pow (x : Magnitude) {n : Nat} (h : n = finestPlace) :
    magnitude? ⟨x.steps * 5 ^ n, n⟩ = some x := by
  refine Magnitude.nearest_exact x (Nat.pow_pos (by decide)) ?_
  rw [← h, Nat.mul_assoc, ← Nat.mul_pow]

theorem magnitude?_exactly (x : Magnitude) : (exactly x).magnitude? = some x :=
  magnitude?_mul_five_pow x rfl

theorem magnitude?_of_choose {x : Magnitude} {below above d : Decimal} {preferBelow : Bool}
    (h : choose x below above preferBelow = some d) : d.magnitude? = some x := by
  simp only [choose] at h
  split at h
  · rename_i hb
    split at h
    · rename_i ha
      cases preferBelow <;> cases h
      · exact ha
      · exact hb
    · cases h
      exact hb
  · split at h
    · rename_i ha
      cases h
      exact ha
    · cases h

theorem magnitude?_coarsest (x : Magnitude) (grids : List Grid) :
    (coarsest x grids).magnitude? = some x := by
  unfold coarsest
  cases h : grids.findSome? (onGrid x) with
  | none => exact magnitude?_exactly x
  | some d =>
    obtain ⟨g, _, hg⟩ := List.exists_of_findSome?_eq_some h
    exact magnitude?_of_choose hg

theorem magnitude?_ofMagnitude (x : Magnitude) : (ofMagnitude x).magnitude? = some x := by
  unfold ofMagnitude
  split
  · rename_i h
    have h0 : x.steps = 0 := by rw [Magnitude.steps, h, Nat.zero_mul]
    rw [Magnitude.eq_zero_of_steps h0]
    rfl
  · exact magnitude?_coarsest x _

end Decimal

end ChatMarkup

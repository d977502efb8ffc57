import ChatMarkup.Number.Basic

/-!
# Scaling by powers of ten

A number read as a whole significand and a power of ten, with a rounding after each step: the
significand is rounded to a magnitude, which is then multiplied or divided by the magnitude of the
power, one of at most `10 ^ 308` at a time.
-/

namespace ChatMarkup

-- Powers are those of the natural numbers.
attribute [local instance (high)] instPowNat

namespace Magnitude

/-- The product, rounded. -/
def mul (x y : Magnitude) : Option Magnitude :=
  nearest (x.steps * y.steps) (2 ^ finestPlace * 2 ^ finestPlace)

/-- The quotient, rounded. -/
def div (x y : Magnitude) : Option Magnitude :=
  nearest x.steps y.steps

/-- The greatest exponent of a power of ten that is used in one step. -/
def greatestPower : Nat := 308

/-- The power of ten, rounded. -/
def powerOfTen (n : Nat) : Magnitude :=
  (nearest (10 ^ n) 1).getD zero

/-- Multiplies by a power of ten; none when the product is too great. -/
def scaleUp (x : Magnitude) (n : Nat) : Option Magnitude :=
  if n ≤ greatestPower then x.mul (powerOfTen n)
  else if x = zero then some x
  else none

/-- Divides by a power of ten, in steps. -/
def scaleDown (x : Magnitude) (n : Nat) : Option Magnitude :=
  if n ≤ greatestPower then x.div (powerOfTen n)
  else if x = zero then some x
  else
    match x.div (powerOfTen greatestPower) with
    | some y => scaleDown y (n - greatestPower)
    | none => none
termination_by n
decreasing_by
  simp only [greatestPower] at *
  omega

/-- The magnitude of a significand times a power of ten. -/
def ofScientific (significand : Nat) (exponent : Int) : Option Magnitude :=
  (nearest significand 1).bind fun x =>
    match exponent with
    | .ofNat n => x.scaleUp n
    | .negSucc n => x.scaleDown (n + 1)

end Magnitude

end ChatMarkup

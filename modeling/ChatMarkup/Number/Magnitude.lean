/-!
# Magnitudes of the binary64 format

The finite unsigned values of the binary64 format, each in its one canonical form, and the
rounding of a quotient to the nearest of them.  The main statement is
`Magnitude.nearest_exact`: a quotient that is a magnitude already rounds to itself.
-/

namespace ChatMarkup

-- Powers are those of the natural numbers.
attribute [local instance (high)] instPowNat

/-- The quotient rounded to the nearest whole number, a half to the even neighbour. -/
def roundDiv (num den : Nat) : Nat :=
  let floor := num / den
  let rest := num % den
  if 2 * rest < den then floor
  else if den < 2 * rest then floor + 1
  else if floor % 2 = 0 then floor
  else floor + 1

theorem le_roundDiv (num den : Nat) : num / den ≤ roundDiv num den := by
  simp only [roundDiv]
  split
  · exact Nat.le_refl _
  · split
    · exact Nat.le_succ _
    · split
      · exact Nat.le_refl _
      · exact Nat.le_succ _

theorem roundDiv_mul_left (m : Nat) {den : Nat} (h : 0 < den) : roundDiv (m * den) den = m := by
  have hd : m * den / den = m := Nat.mul_div_cancel m h
  have hm : m * den % den = 0 := Nat.mul_mod_left m den
  simp [roundDiv, hd, hm, h]

/-- The binary places of the finest magnitudes: the smallest positive one is `2 ^ -1074`. -/
def finestPlace : Nat := 1074

/-- The value `mantissa · 2 ^ exponent / 2 ^ finestPlace`, in the form with the greatest mantissa
that has at most 53 bits. -/
structure Magnitude where
  mantissa : Nat
  exponent : Nat
  mantissa_lt : mantissa < 2 ^ (53 : Nat)
  exponent_le : exponent ≤ 2045
  normal : exponent = 0 ∨ 2 ^ (52 : Nat) ≤ mantissa
deriving DecidableEq, Repr

namespace Magnitude

def zero : Magnitude where
  mantissa := 0
  exponent := 0
  mantissa_lt := by decide
  exponent_le := by decide
  normal := .inl rfl

/-- The value counted in steps of the smallest positive magnitude. -/
def steps (x : Magnitude) : Nat :=
  x.mantissa * 2 ^ x.exponent

/-- The exponent of the magnitudes around a value of `steps` whole steps. -/
def exponentOf (steps : Nat) : Nat :=
  steps.log2 - 52

theorem le_roundDiv_of_exponentOf (num den : Nat) :
    exponentOf (num / den) = 0 ∨
      2 ^ (52 : Nat) ≤ roundDiv num (den * 2 ^ exponentOf (num / den)) := by
  rcases Nat.eq_zero_or_pos (exponentOf (num / den)) with h | h
  · exact .inl h
  · refine .inr (Nat.le_trans ?_ (le_roundDiv _ _))
    have hlog : (num / den).log2 = exponentOf (num / den) + 52 := by
      simp only [exponentOf] at h ⊢
      omega
    have hne : num / den ≠ 0 := by
      intro h0
      simp [h0] at hlog
    have hle := Nat.log2_self_le hne
    rw [hlog, Nat.add_comm, Nat.pow_add] at hle
    rw [← Nat.div_div_eq_div_mul]
    exact (Nat.le_div_iff_mul_le (Nat.two_pow_pos _)).mpr hle

/-- `mantissa` steps of size `2 ^ exponent`, where a mantissa of 54 bits is the least such; none
beyond the greatest magnitude. -/
def ofRounded (mantissa exponent : Nat) (normal : exponent = 0 ∨ 2 ^ (52 : Nat) ≤ mantissa) :
    Option Magnitude :=
  if small : mantissa < 2 ^ (53 : Nat) then
    if inside : exponent ≤ 2045 then some ⟨mantissa, exponent, small, inside, normal⟩ else none
  else if inside : exponent + 1 ≤ 2045 then
    some ⟨2 ^ (52 : Nat), exponent + 1, by decide, inside, .inr (Nat.le_refl _)⟩
  else none

/-- The magnitude nearest to a quotient, a half to the even mantissa; none when that lies beyond
the greatest magnitude. -/
def nearest : Nat → Nat → Option Magnitude
  | 0, _ => some zero
  | num + 1, den =>
    let steps := (num + 1) * 2 ^ finestPlace
    ofRounded (roundDiv steps (den * 2 ^ exponentOf (steps / den))) (exponentOf (steps / den))
      (le_roundDiv_of_exponentOf steps den)

theorem exponentOf_steps (x : Magnitude) : exponentOf x.steps = x.exponent := by
  simp only [exponentOf, steps]
  rcases x.normal with h | h
  · rw [h, Nat.pow_zero, Nat.mul_one]
    rcases Nat.eq_zero_or_pos x.mantissa with h0 | h0
    · simp [h0]
    · have := (Nat.log2_lt (Nat.pos_iff_ne_zero.mp h0)).mpr x.mantissa_lt
      omega
  · have hpos : 0 < x.mantissa := Nat.lt_of_lt_of_le (Nat.two_pow_pos 52) h
    have h0 : x.mantissa * 2 ^ x.exponent ≠ 0 :=
      Nat.pos_iff_ne_zero.mp (Nat.mul_pos hpos (Nat.two_pow_pos _))
    have h1 : 52 + x.exponent ≤ (x.mantissa * 2 ^ x.exponent).log2 := by
      rw [Nat.le_log2 h0, Nat.pow_add]
      exact Nat.mul_le_mul_right _ h
    have h2 : (x.mantissa * 2 ^ x.exponent).log2 < 53 + x.exponent := by
      rw [Nat.log2_lt h0, Nat.pow_add]
      exact Nat.mul_lt_mul_of_pos_right x.mantissa_lt (Nat.two_pow_pos _)
    omega

theorem eq_zero_of_steps {x : Magnitude} (h : x.steps = 0) : x = zero := by
  obtain ⟨mantissa, exponent, _, _, normal⟩ := x
  have hm : mantissa = 0 :=
    (Nat.mul_eq_zero.mp h).resolve_right (Nat.pos_iff_ne_zero.mp (Nat.two_pow_pos exponent))
  subst hm
  have he : exponent = 0 := normal.resolve_right (by decide)
  subst he
  rfl

theorem nearest_exact (x : Magnitude) {num den : Nat} (hden : 0 < den)
    (h : num * 2 ^ finestPlace = x.steps * den) : nearest num den = some x := by
  cases num with
  | zero =>
    rw [Nat.zero_mul] at h
    have h0 : x.steps = 0 :=
      (Nat.mul_eq_zero.mp h.symm).resolve_right (Nat.pos_iff_ne_zero.mp hden)
    rw [eq_zero_of_steps h0]
    rfl
  | succ num =>
    have hq : (num + 1) * 2 ^ finestPlace / den = x.steps := by
      rw [h]
      exact Nat.mul_div_cancel _ hden
    have hr : roundDiv ((num + 1) * 2 ^ finestPlace) (den * 2 ^ x.exponent) = x.mantissa := by
      rw [h, steps, Nat.mul_assoc, Nat.mul_comm (2 ^ x.exponent) den]
      exact roundDiv_mul_left _ (Nat.mul_pos hden (Nat.two_pow_pos _))
    simp only [nearest, hq, exponentOf_steps, hr, ofRounded, x.mantissa_lt, x.exponent_le,
      dite_true]

end Magnitude

end ChatMarkup

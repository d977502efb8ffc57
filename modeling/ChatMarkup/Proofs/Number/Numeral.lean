import ChatMarkup.Number.Basic
import Mathlib.Data.List.TakeWhile

/-!
# Numerals read back

A numeral that was written is read back as the same number:

* `Decimal.read?_write`: all digits and the point come back;
* `Number.read?_text`: the numeral that the markup writes for a finite number denotes a number of
  the same value, which is written the same way again.
-/

namespace ChatMarkup

namespace Decimal

/-- The characters of a numeral without a sign. -/
def IsPlain (cs : List Char) : Prop :=
  ∀ c ∈ cs, c.isDigit = true ∨ c = '.'

theorem isDigit_of_mem_toDigits {n : Nat} {c : Char} (h : c ∈ Nat.toDigits 10 n) :
    c.isDigit = true :=
  Nat.isDigit_of_mem_toDigits (by decide) (by decide) h

theorem read?_digits {cs : List Char} (hcs : ∀ c ∈ cs, c.isDigit = true) (hne : cs ≠ []) :
    read? cs = some ⟨Nat.ofDigitChars 10 cs 0, 0⟩ := by
  have htake : cs.takeWhile Char.isDigit = cs := List.takeWhile_eq_self_iff.mpr hcs
  have hdrop : cs.dropWhile Char.isDigit = [] := List.dropWhile_eq_nil_iff.mpr hcs
  simp [read?, htake, hdrop, hne]

theorem read?_point {whole fraction : List Char} (hwhole : ∀ c ∈ whole, c.isDigit = true)
    (hfraction : ∀ c ∈ fraction, c.isDigit = true) (hne : whole ++ fraction ≠ []) :
    read? (whole ++ '.' :: fraction) =
      some ⟨Nat.ofDigitChars 10 (whole ++ fraction) 0, fraction.length⟩ := by
  have htake : (whole ++ '.' :: fraction).takeWhile Char.isDigit = whole := by
    rw [List.takeWhile_append_of_pos hwhole]
    simp
  have hdrop : (whole ++ '.' :: fraction).dropWhile Char.isDigit = '.' :: fraction := by
    rw [List.dropWhile_append_of_pos hwhole]
    simp
  have hdigits : (fraction.all Char.isDigit && !(whole.isEmpty && fraction.isEmpty)) = true := by
    rw [Bool.and_eq_true, List.all_eq_true]
    refine ⟨hfraction, ?_⟩
    cases whole with
    | nil => simpa using hne
    | cons c whole => rfl
  rw [read?, hdrop, htake]
  exact if_pos hdigits

/-- The digits of a coefficient, filled up with zeros so that there is one in front of the
point. -/
def padded (d : Decimal) : List Char :=
  List.replicate (d.places + 1 - (Nat.toDigits 10 d.coefficient).length) '0' ++
    Nat.toDigits 10 d.coefficient

theorem isDigit_of_mem_padded {d : Decimal} {c : Char} (h : c ∈ d.padded) : c.isDigit = true := by
  rcases List.mem_append.mp h with h | h
  · rw [List.eq_of_mem_replicate h]
    decide
  · exact isDigit_of_mem_toDigits h

theorem places_lt_length_padded (d : Decimal) : d.places < d.padded.length := by
  simp only [padded, List.length_append, List.length_replicate]
  omega

theorem ofDigitChars_padded (d : Decimal) : Nat.ofDigitChars 10 d.padded 0 = d.coefficient := by
  rw [padded, Nat.ofDigitChars_append, Nat.ofDigitChars_replicate_zero, Nat.mul_zero,
    Nat.ofDigitChars_ten_toDigits]

/-- A numeral with places has a point in front of the last of them. -/
theorem write_of_places {d : Decimal} (h : d.places ≠ 0) :
    d.write = d.padded.take (d.padded.length - d.places) ++
      '.' :: d.padded.drop (d.padded.length - d.places) := by
  simp [write, padded, h]

theorem write_of_whole {d : Decimal} (h : d.places = 0) :
    d.write = Nat.toDigits 10 d.coefficient := by
  simp [write, h]

theorem read?_write (d : Decimal) : read? d.write = some d := by
  obtain ⟨coefficient, places⟩ := d
  by_cases h : places = 0
  · subst h
    rw [write_of_whole rfl, read?_digits (fun c hc => isDigit_of_mem_toDigits hc)
      Nat.toDigits_ne_nil, Nat.ofDigitChars_ten_toDigits]
  · have hlt := places_lt_length_padded ⟨coefficient, places⟩
    generalize hk : (padded ⟨coefficient, places⟩).length - places = k at *
    have hne : (padded ⟨coefficient, places⟩).take k ≠ [] := by
      apply List.ne_nil_of_length_pos
      rw [List.length_take]
      simp only at hlt
      omega
    rw [write_of_places h, hk,
      read?_point (fun c hc => isDigit_of_mem_padded (List.mem_of_mem_take hc))
        (fun c hc => isDigit_of_mem_padded (List.mem_of_mem_drop hc))
        (List.append_ne_nil_of_left_ne_nil hne _),
      List.take_append_drop, ofDigitChars_padded, List.length_drop]
    simp only at hlt
    congr 2
    omega

theorem isPlain_write (d : Decimal) : IsPlain d.write := by
  intro c hc
  by_cases h : d.places = 0
  · rw [write_of_whole h] at hc
    exact .inl (isDigit_of_mem_toDigits hc)
  · rw [write_of_places h] at hc
    rcases List.mem_append.mp hc with hc | hc
    · exact .inl (isDigit_of_mem_padded (List.mem_of_mem_take hc))
    · rcases List.mem_cons.mp hc with hc | hc
      · exact .inr hc
      · exact .inl (isDigit_of_mem_padded (List.mem_of_mem_drop hc))

/-- A numeral starts with a digit. -/
theorem write_eq_cons (d : Decimal) : ∃ c cs, d.write = c :: cs ∧ c.isDigit = true := by
  by_cases h : d.places = 0
  · rw [write_of_whole h]
    obtain ⟨c, cs, hcs⟩ := List.exists_cons_of_ne_nil (Nat.toDigits_ne_nil (n := d.coefficient))
    exact ⟨c, cs, hcs, isDigit_of_mem_toDigits (hcs ▸ List.mem_cons_self)⟩
  · have hlt := places_lt_length_padded d
    obtain ⟨c, cs, hcs⟩ := List.exists_cons_of_length_pos
      (show 0 < (d.padded.take (d.padded.length - d.places)).length by
        rw [List.length_take]
        omega)
    refine ⟨c, cs ++ '.' :: d.padded.drop (d.padded.length - d.places), ?_, ?_⟩
    · rw [write_of_places h, hcs, List.cons_append]
    · exact isDigit_of_mem_padded (List.mem_of_mem_take (hcs ▸ List.mem_cons_self))

end Decimal

namespace Number

/-- Whether a number is finite. -/
def isFinite : Number → Bool
  | finite _ _ => true
  | infinite _ => false

theorem read?_of_digit {c : Char} {cs : List Char} (h : c.isDigit = true) :
    read? (c :: cs) = (Decimal.read? (c :: cs)).map (ofDecimal false) := by
  have hc : c ≠ '-' := by
    rintro rfl
    exact absurd h (by decide)
  unfold read?
  split
  · rename_i heq
    cases heq
    exact absurd rfl hc
  · rfl

theorem read?_signed (negative : Bool) (d : Decimal) :
    read? (signed negative d.write) = some (ofDecimal negative d) := by
  cases negative with
  | true => simp [signed, read?, Decimal.read?_write]
  | false =>
    obtain ⟨c, cs, hcs, hc⟩ := d.write_eq_cons
    rw [signed, if_neg (by decide), hcs, read?_of_digit hc, ← hcs, Decimal.read?_write]
    rfl

theorem text_of_ne_zero (negative : Bool) {x : Magnitude} (h : x ≠ .zero) :
    text (.finite negative x) = signed negative (Decimal.ofMagnitude x).write := by
  simp [text, display, h]

theorem read?_text_zero : read? ['0'] = some (.finite false .zero) := by
  decide

/-- The numeral of a finite number denotes a number of the same value, with the same numeral. -/
theorem read?_text {x : Number} (h : x.isFinite = true) :
    ∃ y, read? x.text = some y ∧ y.same x = true ∧ y.text = x.text := by
  cases x with
  | infinite negative => cases h
  | finite negative x =>
    by_cases hx : x = .zero
    · subst hx
      exact ⟨.finite false .zero, read?_text_zero, by simp [same], rfl⟩
    · refine ⟨.finite negative x, ?_, same_refl _, rfl⟩
      rw [text_of_ne_zero negative hx, read?_signed, ofDecimal_ofMagnitude]

/-- The numeral of a finite number is a sign, if it is negative, and plain digits. -/
theorem text_eq_signed {x : Number} (h : x.isFinite = true) :
    ∃ negative d, x.text = signed negative (Decimal.write d) := by
  cases x with
  | infinite negative => cases h
  | finite negative x =>
    by_cases hx : x = .zero
    · subst hx
      exact ⟨false, ⟨0, 0⟩, rfl⟩
    · exact ⟨negative, _, text_of_ne_zero negative hx⟩

end Number

end ChatMarkup

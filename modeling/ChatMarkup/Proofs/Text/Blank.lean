import ChatMarkup.Text.Blank

/-!
# Folded blanks

Folding the runs of blanks in a part of a text before it is folded as a whole makes no difference,
and neither does one more space next to another one.

* `foldBlanks_append`: texts that fold to the same may stand for each other inside a text;
* `foldBlanks_idem`: what is folded stays as it is.
-/

namespace ChatMarkup

theorem foldBlanks_cons_blank {c : Char} (hc : isBlank c = true) (cs : List Char) :
    foldBlanks (c :: cs) =
      if cs.head?.any isBlank then foldBlanks cs else ' ' :: foldBlanks cs := by
  rw [foldBlanks, if_pos hc]

theorem foldBlanks_cons_other {c : Char} (hc : isBlank c = false) (cs : List Char) :
    foldBlanks (c :: cs) = c :: foldBlanks cs := by
  rw [foldBlanks, hc, if_neg Bool.false_ne_true]

/-- A folded text starts with a blank if the text does. -/
theorem head?_foldBlanks (cs : List Char) :
    (foldBlanks cs).head?.any isBlank = cs.head?.any isBlank := by
  induction cs with
  | nil => rfl
  | cons c cs ih =>
    cases hc : isBlank c with
    | true =>
      rw [foldBlanks_cons_blank hc]
      split
      · rename_i hnext
        rw [ih, hnext]
        simp [hc]
      · simp [hc, show isBlank ' ' = true by decide]
    | false => rw [foldBlanks_cons_other hc, List.head?_cons, List.head?_cons]

theorem head?_of_foldBlanks {xs ys : List Char} (h : foldBlanks xs = foldBlanks ys) :
    xs.head?.any isBlank = ys.head?.any isBlank := by
  rw [← head?_foldBlanks xs, h, head?_foldBlanks]

theorem foldBlanks_idem (cs : List Char) : foldBlanks (foldBlanks cs) = foldBlanks cs := by
  induction cs with
  | nil => rfl
  | cons c cs ih =>
    cases hc : isBlank c with
    | true =>
      rw [foldBlanks_cons_blank hc]
      split
      · exact ih
      · rename_i hnext
        rw [foldBlanks_cons_blank (by decide), head?_foldBlanks, if_neg hnext, ih]
    | false => rw [foldBlanks_cons_other hc, foldBlanks_cons_other hc, ih]

theorem foldBlanks_append_right {xs ys : List Char} (h : foldBlanks xs = foldBlanks ys)
    (front : List Char) : foldBlanks (front ++ xs) = foldBlanks (front ++ ys) := by
  induction front with
  | nil => exact h
  | cons c front ih =>
    rw [List.cons_append, List.cons_append]
    cases hc : isBlank c with
    | true => rw [foldBlanks_cons_blank hc, foldBlanks_cons_blank hc, ih, head?_of_foldBlanks ih]
    | false => rw [foldBlanks_cons_other hc, foldBlanks_cons_other hc, ih]

/-- The front of a text may be folded before the whole. -/
theorem foldBlanks_foldBlanks_append (xs ys : List Char) :
    foldBlanks (foldBlanks xs ++ ys) = foldBlanks (xs ++ ys) := by
  induction xs with
  | nil => rfl
  | cons c xs ih =>
    rw [List.cons_append]
    cases hc : isBlank c with
    | true =>
      rw [foldBlanks_cons_blank hc, foldBlanks_cons_blank hc]
      split
      · rename_i hnext
        have hhead : (xs ++ ys).head?.any isBlank = true := by
          cases xs with
          | nil => cases hnext
          | cons d xs => exact hnext
        rw [ih, hhead, if_pos rfl]
      · rw [List.cons_append, foldBlanks_cons_blank (by decide), ih, head?_of_foldBlanks ih]
    | false =>
      rw [foldBlanks_cons_other hc, foldBlanks_cons_other hc, List.cons_append,
        foldBlanks_cons_other hc, ih]

/-- Texts that fold to the same may stand for each other inside a text. -/
theorem foldBlanks_append {xs ys xs' ys' : List Char} (hxs : foldBlanks xs = foldBlanks xs')
    (hys : foldBlanks ys = foldBlanks ys') :
    foldBlanks (xs ++ ys) = foldBlanks (xs' ++ ys') := by
  rw [← foldBlanks_foldBlanks_append xs, hxs, foldBlanks_foldBlanks_append xs',
    foldBlanks_append_right hys]

theorem foldBlanks_space_space (cs : List Char) :
    foldBlanks (' ' :: ' ' :: cs) = foldBlanks (' ' :: cs) := by
  rw [foldBlanks_cons_blank (by decide)]
  exact if_pos (show isBlank ' ' = true by decide)

/-- A character of a folded text is a space or one of the text. -/
theorem mem_foldBlanks {cs : List Char} {c : Char} (h : c ∈ foldBlanks cs) : c = ' ' ∨ c ∈ cs := by
  induction cs with
  | nil => cases h
  | cons d cs ih =>
    have hrest : c ∈ foldBlanks cs → c = ' ' ∨ c ∈ d :: cs := fun hc =>
      (ih hc).imp id (List.mem_cons_of_mem d)
    rw [foldBlanks] at h
    split at h
    · split at h
      · exact hrest h
      · rcases List.mem_cons.mp h with hc | hc
        · exact .inl hc
        · exact hrest hc
    · rcases List.mem_cons.mp h with rfl | hc
      · exact .inr List.mem_cons_self
      · exact hrest hc

end ChatMarkup

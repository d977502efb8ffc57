import ChatMarkup.Text.Blank

/-!
# Trivia

Blanks and comments, which stand between the tokens of markup source.  A comment runs from two
slashes to the end of its line.  The main statements say that skipping leaves a tail of the source,
and that it passes over nothing where a token starts.
-/

namespace ChatMarkup.Source

/-- The source behind the blanks and comments in front; `inComment` tells whether it starts inside
a comment. -/
def skipTriviaFrom (inComment : Bool) : List Char → List Char
  | [] => []
  | c :: rest =>
    if inComment then skipTriviaFrom (c ≠ '\n') rest
    else if isBlank c then skipTriviaFrom false rest
    else if c = '/' && rest.head? = some '/' then skipTriviaFrom true rest
    else c :: rest

/-- The source behind the blanks and comments in front. -/
def skipTrivia (cs : List Char) : List Char :=
  skipTriviaFrom false cs

theorem skipTriviaFrom_suffix (inComment : Bool) (cs : List Char) :
    skipTriviaFrom inComment cs <:+ cs := by
  induction cs generalizing inComment with
  | nil => exact List.suffix_refl _
  | cons c rest ih =>
    rw [skipTriviaFrom]
    split
    · exact (ih _).trans (List.suffix_cons c rest)
    · split
      · exact (ih _).trans (List.suffix_cons c rest)
      · split
        · exact (ih _).trans (List.suffix_cons c rest)
        · exact List.suffix_refl _

theorem skipTrivia_suffix (cs : List Char) : skipTrivia cs <:+ cs :=
  skipTriviaFrom_suffix false cs

/-- Where a token starts nothing is passed over. -/
theorem skipTrivia_cons {c : Char} {rest : List Char} (hc : isBlank c = false)
    (h : c = '/' → rest.head? ≠ some '/') : skipTrivia (c :: rest) = c :: rest := by
  rw [skipTrivia, skipTriviaFrom]
  by_cases hs : c = '/'
  · simp [hc, h hs]
  · simp [hc, hs]

theorem skipTrivia_blank {c : Char} (rest : List Char) (hc : isBlank c = true) :
    skipTrivia (c :: rest) = skipTrivia rest := by
  simp [skipTrivia, skipTriviaFrom, hc]

end ChatMarkup.Source

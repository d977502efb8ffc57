/-!
# Ranges of code points

Properties of characters that a standard gives as a table of inclusive ranges of code points, and
properties that every character of a text has.
-/

namespace ChatMarkup

/-- Whether the code point of `c` lies in one of the inclusive ranges. -/
def inRanges (ranges : List (Nat × Nat)) (c : Char) : Bool :=
  ranges.any fun range => range.1 ≤ c.toNat && c.toNat ≤ range.2

/-- A property of every character of a text is decided along the text.  A library that can run over
all of `Char` would otherwise try that first. -/
instance decidableForallMemChar (p : Char → Prop) [DecidablePred p] (cs : List Char) :
    Decidable (∀ c ∈ cs, p c) :=
  List.decidableBAll p cs

end ChatMarkup

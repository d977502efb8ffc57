import ChatMarkup.Html.Basic
import ChatMarkup.Text.Blank

/-!
# HTML from a browser

What a browser writes is not yet well-formed: it does not close void elements, and it has a name for
the hard space.

The importer closes void elements by a pattern that is matched from the left,

    <(br|hr|img|input|wbr)(\s[^>]*?)?\s*/?>

in small letters or capitals, and writes each match as `<$1$2/>`.  `closeVoids` stands for this
replacement: `voidTag?` is one match, with `$2` as `dropClosing` leaves it, since the blanks and the
slash at the end go to the parts of the pattern behind it.
-/

namespace ChatMarkup.Html

/-- Whether a text starts with a name, in small letters or capitals. -/
def startsWithName (name : String) (cs : List Char) : Bool :=
  (cs.take name.length).map Char.toLower = name.toList

/-- What a tag of a void element holds behind its name, without a slash and blanks at its end.  A
blank in front is kept. -/
def dropClosing : List Char → List Char
  | [] => []
  | c :: cs =>
    if isBlank c then c :: trimEnd (if cs.getLast? = some '/' then cs.dropLast else cs) else []

/-- Whether what stands behind the name of a void element belongs to its tag. -/
def isTagRest (cs : List Char) : Bool :=
  cs = [] || cs = ['/'] || cs.head?.any isBlank

/-- The closed tag of the void element whose tag starts here, behind its bracket, and what follows
it. -/
def voidTag? (cs : List Char) : Option (List Char × List Char) :=
  (voidNames.find? fun name => startsWithName name cs).bind fun name =>
    let rest := cs.drop name.length
    let inner := rest.takeWhile (· ≠ '>')
    match rest.dropWhile (· ≠ '>') with
    | _ :: after =>
      if isTagRest inner then
        some ('<' :: cs.take name.length ++ dropClosing inner ++ ['/', '>'], after)
      else none
    | [] => none

theorem voidTag?_length_lt {cs tag after : List Char} (h : voidTag? cs = some (tag, after)) :
    after.length < cs.length := by
  obtain ⟨name, _, h⟩ := Option.bind_eq_some_iff.mp h
  have h₁ := (List.drop_suffix name.length cs).length_le
  have h₂ := (List.dropWhile_suffix (fun c => c ≠ '>') (l := cs.drop name.length)).length_le
  dsimp only at h
  split at h
  · rename_i hdrop
    rw [hdrop] at h₂
    split at h
    · cases h
      exact Nat.lt_of_lt_of_le h₂ h₁
    · cases h
  · cases h

/-- Closes the void elements in their own tags. -/
def closeVoids : List Char → List Char
  | [] => []
  | c :: cs =>
    if c = '<' then
      match _htag : voidTag? cs with
      | some (tag, after) => tag ++ closeVoids after
      | none => c :: closeVoids cs
    else c :: closeVoids cs
termination_by cs => cs.length
decreasing_by
  · have := voidTag?_length_lt _htag
    simp only [List.length_cons]
    omega
  · simp
  · simp

/-- Puts a number for the name of the hard space. -/
def numberHardSpaces : List Char → List Char
  | [] => []
  | '&' :: 'n' :: 'b' :: 's' :: 'p' :: ';' :: cs => "&#160;".toList ++ numberHardSpaces cs
  | c :: cs => c :: numberHardSpaces cs

-- The equations that are generated here evaluate the literal, which takes seconds.
theorem numberHardSpaces_nil : numberHardSpaces [] = [] := rfl

theorem numberHardSpaces_cons {c : Char} (hc : c ≠ '&') (cs : List Char) :
    numberHardSpaces (c :: cs) = c :: numberHardSpaces cs := by
  rw [numberHardSpaces.eq_def]
  split
  · rename_i heq
    cases heq
  · rename_i heq
    exact absurd (List.cons.inj heq).1 hc
  · rename_i heq
    cases heq
    rfl

/-- The well-formed text for what a browser writes. -/
def ofBrowser (text : String) : String :=
  String.ofList (numberHardSpaces (closeVoids text.toList))

end ChatMarkup.Html

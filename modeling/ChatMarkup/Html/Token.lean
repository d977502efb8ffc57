import ChatMarkup.Html.Character
import ChatMarkup.Html.Name

/-!
# HTML tokens

HTML cut into texts, tags and what says nothing: the lexical half of the XML reader that `read?`
stands for.  Each token passes over at least one character, which is what `readToken_length_lt`
says, so that cutting ends.
-/

namespace ChatMarkup.Html

/-- A piece of HTML: a text, a comment or processing instruction, or a tag.  A tag that opens an
element may close it at once. -/
inductive Token where
  | text (text : List Char)
  | aside
  | opening (name : Name) (attributes : List (Name × String)) (closed : Bool)
  | closing (name : Name)

/-- What stands in front of the first `mark`, and what comes behind it. -/
def cutAt? (mark : List Char) : List Char → Option (List Char × List Char)
  | [] => none
  | c :: cs =>
    if mark.isPrefixOf (c :: cs) then some ([], (c :: cs).drop mark.length)
    else (cutAt? mark cs).map fun (before, after) => (c :: before, after)

theorem cutAt?_length_le {mark cs before after : List Char}
    (h : cutAt? mark cs = some (before, after)) : after.length ≤ cs.length := by
  induction cs generalizing before after with
  | nil => cases h
  | cons c cs ih =>
    rw [cutAt?] at h
    split at h
    · cases h
      exact (List.drop_suffix _ _).length_le
    · obtain ⟨⟨before, after'⟩, hcut, heq⟩ := Option.map_eq_some_iff.mp h
      cases heq
      exact Nat.le_succ_of_le (ih hcut)

/-- Whether some characters stand anywhere in a text. -/
def occurs (mark : List Char) : List Char → Bool
  | [] => mark.isEmpty
  | c :: cs => mark.isPrefixOf (c :: cs) || occurs mark cs

def skipTagBlanks (cs : List Char) : List Char :=
  cs.dropWhile isTagBlank

theorem length_skipTagBlanks_le (cs : List Char) : (skipTagBlanks cs).length ≤ cs.length :=
  (List.dropWhile_suffix isTagBlank).length_le

/-! ## Texts and asides -/

/-- Reads up to the next tag. -/
def readText (cs : List Char) : Option (Token × List Char) :=
  let text := cs.takeWhile (· ≠ '<')
  if text.all isLegal && !occurs "]]>".toList text then
    (textOf? text).map fun text => (.text text, cs.dropWhile (· ≠ '<'))
  else none

/-- Reads a text without references, behind its opening mark. -/
def readCharacterData (cs : List Char) : Option (Token × List Char) :=
  (cutAt? "]]>".toList cs).bind fun (inside, rest) =>
    if inside.all isLegal then some (.text (foldLineEnds inside), rest) else none

/-- Reads a comment, behind its opening mark. -/
def readComment (cs : List Char) : Option (Token × List Char) :=
  (cutAt? "-->".toList cs).bind fun (inside, rest) =>
    if inside.all isLegal && !occurs "--".toList inside && inside.getLast? ≠ some '-' then
      some (.aside, rest)
    else none

/-- Reads a processing instruction, behind its opening mark.  An XML declaration can only stand at
the start of a document. -/
def readInstruction (cs : List Char) : Option (Token × List Char) :=
  if "xml ".toList.isPrefixOf cs then none
  else if cs.head?.any fun c => isNameStart c || c = ':' then
    (cutAt? "?>".toList (skipTagBlanks (cs.dropWhile isNamePart))).bind fun (inside, rest) =>
      if inside.all isLegal then some (.aside, rest) else none
  else none

/-! ## Tags -/

/-- Reads the value of an attribute, behind its opening quote. -/
def readValue (quote : Char) (cs : List Char) : Option (String × List Char) :=
  let value := cs.takeWhile fun c => c ≠ quote && c ≠ '<'
  match cs.dropWhile fun c => c ≠ quote && c ≠ '<' with
  | c :: rest =>
    if c = quote && value.all isLegal then
      (valueOf? value).map fun value => (String.ofList value, rest)
    else none
  | [] => none

/-- Reads an attribute. -/
def readAttribute (cs : List Char) : Option ((Name × String) × List Char) :=
  (readName cs).bind fun (name, rest) =>
    match skipTagBlanks rest with
    | '=' :: rest =>
      match skipTagBlanks rest with
      | quote :: rest =>
        if quote = '"' || quote = '\'' then
          (readValue quote rest).map fun (value, rest) => ((name, value), rest)
        else none
      | [] => none
    | _ => none

theorem readValue_length_le {quote : Char} {value : String} {cs rest : List Char}
    (h : readValue quote cs = some (value, rest)) : rest.length ≤ cs.length := by
  have hle := (List.dropWhile_suffix (fun c => c ≠ quote && c ≠ '<') (l := cs)).length_le
  simp only [readValue] at h
  split at h
  · rename_i hdrop
    rw [hdrop] at hle
    split at h
    · obtain ⟨_, _, heq⟩ := Option.map_eq_some_iff.mp h
      cases heq
      exact Nat.le_of_succ_le hle
    · cases h
  · cases h

theorem readAttribute_length_lt {entry : Name × String} {cs rest : List Char}
    (h : readAttribute cs = some (entry, rest)) : rest.length < cs.length := by
  obtain ⟨⟨name, rest₁⟩, hname, h⟩ := Option.bind_eq_some_iff.mp h
  have h₁ := readName_length_le hname
  have h₂ := length_skipTagBlanks_le rest₁
  dsimp only at h
  split at h
  · rename_i rest₂ heq
    rw [heq] at h₂
    have h₃ := length_skipTagBlanks_le rest₂
    split at h
    · rename_i quote rest₃ hquote
      rw [hquote] at h₃
      split at h
      · obtain ⟨⟨value, rest₄⟩, hvalue, hrest⟩ := Option.map_eq_some_iff.mp h
        cases hrest
        have h₄ := readValue_length_le hvalue
        simp only [List.length_cons] at h₂ h₃
        show rest₄.length < cs.length
        omega
      · cases h
    · cases h
  · cases h

/-- Reads the attributes of a tag and its end, and says whether it closes the element.  Each
attribute stands behind a blank. -/
def readAttributes (cs : List Char) : Option ((List (Name × String) × Bool) × List Char) :=
  match skipTagBlanks cs with
  | '>' :: rest => some (([], false), rest)
  | '/' :: '>' :: rest => some (([], true), rest)
  | _ =>
    if cs.head?.any isTagBlank then
      match _hread : readAttribute (skipTagBlanks cs) with
      | none => none
      | some (entry, rest) =>
        (readAttributes rest).map fun ((entries, closed), rest) =>
          ((entry :: entries, closed), rest)
    else none
termination_by cs.length
decreasing_by
  have h := readAttribute_length_lt _hread
  have hle := length_skipTagBlanks_le cs
  omega

/-- Reads a tag that opens an element, behind its bracket. -/
def readOpening (cs : List Char) : Option (Token × List Char) :=
  (readName cs).bind fun (name, rest) =>
    (readAttributes rest).map fun ((attributes, closed), rest) =>
      (.opening name attributes closed, rest)

/-- Reads a tag that closes an element, behind its bracket and slash. -/
def readClosing (cs : List Char) : Option (Token × List Char) :=
  (readName cs).bind fun (name, rest) =>
    match skipTagBlanks rest with
    | '>' :: rest => some (.closing name, rest)
    | _ => none

/-- Reads what follows an opening bracket. -/
def readMarked : List Char → Option (Token × List Char)
  | '!' :: cs =>
    if "--".toList.isPrefixOf cs then readComment (cs.drop 2)
    else if "[CDATA[".toList.isPrefixOf cs then readCharacterData (cs.drop 7)
    else none
  | '?' :: cs => readInstruction cs
  | '/' :: cs => readClosing cs
  | cs => readOpening cs

/-- Reads a token. -/
def readToken : List Char → Option (Token × List Char)
  | [] => none
  | c :: cs => if c = '<' then readMarked cs else readText (c :: cs)

/-! ## Progress -/

theorem readAttributes_length_lt {result : List (Name × String) × Bool} {cs rest : List Char}
    (h : readAttributes cs = some (result, rest)) : rest.length < cs.length := by
  have hle := length_skipTagBlanks_le cs
  rw [readAttributes] at h
  split at h
  · rename_i hskip
    rw [hskip] at hle
    cases h
    exact hle
  · rename_i hskip
    rw [hskip] at hle
    cases h
    exact Nat.lt_of_succ_lt hle
  · split at h
    · split at h
      · cases h
      · rename_i hread
        obtain ⟨⟨⟨entries, closed⟩, rest'⟩, hrec, heq⟩ := Option.map_eq_some_iff.mp h
        cases heq
        have h₁ := readAttribute_length_lt hread
        exact Nat.lt_trans (readAttributes_length_lt hrec) (Nat.lt_of_lt_of_le h₁ hle)
    · cases h
termination_by cs.length
decreasing_by
  have _h₁ := readAttribute_length_lt ‹readAttribute _ = some _›
  have _h₂ := length_skipTagBlanks_le cs
  omega

theorem readText_length_lt {token : Token} {c : Char} {cs rest : List Char} (hc : c ≠ '<')
    (h : readText (c :: cs) = some (token, rest)) : rest.length < (c :: cs).length := by
  simp only [readText] at h
  split at h
  · obtain ⟨_, _, heq⟩ := Option.map_eq_some_iff.mp h
    cases heq
    rw [List.dropWhile_cons_of_pos (by simpa using hc)]
    exact Nat.lt_succ_of_le (List.dropWhile_suffix _).length_le
  · cases h

theorem readCharacterData_length_le {token : Token} {cs rest : List Char}
    (h : readCharacterData cs = some (token, rest)) : rest.length ≤ cs.length := by
  obtain ⟨⟨inside, after⟩, hcut, h⟩ := Option.bind_eq_some_iff.mp h
  have := cutAt?_length_le hcut
  dsimp only at h
  split at h
  · cases h
    exact this
  · cases h

theorem readComment_length_le {token : Token} {cs rest : List Char}
    (h : readComment cs = some (token, rest)) : rest.length ≤ cs.length := by
  obtain ⟨⟨inside, after⟩, hcut, h⟩ := Option.bind_eq_some_iff.mp h
  have := cutAt?_length_le hcut
  dsimp only at h
  split at h
  · cases h
    exact this
  · cases h

theorem readInstruction_length_le {token : Token} {cs rest : List Char}
    (h : readInstruction cs = some (token, rest)) : rest.length ≤ cs.length := by
  rw [readInstruction] at h
  split at h
  · cases h
  · split at h
    · obtain ⟨⟨inside, after⟩, hcut, h⟩ := Option.bind_eq_some_iff.mp h
      have h₁ := cutAt?_length_le hcut
      have h₂ := length_skipTagBlanks_le (cs.dropWhile isNamePart)
      have h₃ := (List.dropWhile_suffix isNamePart (l := cs)).length_le
      dsimp only at h
      split at h
      · cases h
        omega
      · cases h
    · cases h

theorem readOpening_length_lt {token : Token} {cs rest : List Char}
    (h : readOpening cs = some (token, rest)) : rest.length < cs.length := by
  obtain ⟨⟨name, rest₁⟩, hname, h⟩ := Option.bind_eq_some_iff.mp h
  obtain ⟨⟨⟨attributes, closed⟩, rest₂⟩, hattributes, heq⟩ := Option.map_eq_some_iff.mp h
  cases heq
  exact Nat.lt_of_lt_of_le (readAttributes_length_lt hattributes) (readName_length_le hname)

theorem readClosing_length_lt {token : Token} {cs rest : List Char}
    (h : readClosing cs = some (token, rest)) : rest.length < cs.length := by
  obtain ⟨⟨name, rest₁⟩, hname, h⟩ := Option.bind_eq_some_iff.mp h
  have h₁ := readName_length_le hname
  have h₂ := length_skipTagBlanks_le rest₁
  dsimp only at h
  split at h
  · rename_i heq
    rw [heq] at h₂
    cases h
    exact Nat.lt_of_lt_of_le h₂ h₁
  · cases h

theorem readMarked_length_le {token : Token} {cs rest : List Char}
    (h : readMarked cs = some (token, rest)) : rest.length ≤ cs.length := by
  unfold readMarked at h
  split at h
  · rename_i cs'
    split at h
    · exact Nat.le_succ_of_le
        (Nat.le_trans (readComment_length_le h) (List.drop_suffix 2 cs').length_le)
    · split at h
      · exact Nat.le_succ_of_le
          (Nat.le_trans (readCharacterData_length_le h) (List.drop_suffix 7 cs').length_le)
      · cases h
  · exact Nat.le_succ_of_le (readInstruction_length_le h)
  · exact Nat.le_succ_of_le (Nat.le_of_lt (readClosing_length_lt h))
  · exact Nat.le_of_lt (readOpening_length_lt h)

theorem readToken_length_lt {token : Token} {cs rest : List Char}
    (h : readToken cs = some (token, rest)) : rest.length < cs.length := by
  cases cs with
  | nil => cases h
  | cons c cs =>
    rw [readToken] at h
    split at h
    · exact Nat.lt_succ_of_le (readMarked_length_le h)
    · rename_i hc
      exact readText_length_lt hc h

/-! ## Whole texts -/

/-- The tokens of a whole text. -/
def tokens? (cs : List Char) : Option (List Token) :=
  if cs = [] then some []
  else
    match _hread : readToken cs with
    | none => none
    | some (token, rest) => (tokens? rest).map (token :: ·)
termination_by cs.length
decreasing_by exact readToken_length_lt _hread

end ChatMarkup.Html

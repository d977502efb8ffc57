import ChatMarkup.Source.Literal
import ChatMarkup.Source.Trivia
import ChatMarkup.Tree.Basic

/-!
# Attribute lists in source

Readers for attribute values, for attributes and for the bracketed list of them.  Commas may stand
behind the first attribute, as many as one likes, or be left out.
-/

namespace ChatMarkup.Source

/-- What a character can start. -/
inductive Start where
  | string
  | number
  | identifier
  | nothing
deriving DecidableEq, Repr

/-- What starts with a character. -/
def Start.of (c : Char) : Start :=
  if c = '`' || c = '"' then .string
  else if c.isDigit || c = '-' then .number
  else if isIdentifierStart c then .identifier
  else .nothing

/-- A reading with its value changed. -/
def Reading.map {α β : Type} (f : α → β) : Reading α → Reading β
  | .ok (value, rest) => .ok (f value, rest)
  | .error e => .error e

/-- Passes over trivia and the character asked for. -/
def expect (c : Char) (what : Expectation) (cs : List Char) : Except Stop (List Char) :=
  match skipTrivia cs with
  | [] => stop (.expected what none) []
  | d :: rest => if d = c then .ok rest else stop (.expected what (some d)) (d :: rest)

/-- Reads an identifier as a value: one of the two flags, or a name with the call directly behind
it. -/
def readName (cs : List Char) : Reading Node :=
  match readIdentifier cs with
  | .error e => .error e
  | .ok (name, rest) =>
    if name = "true" then .ok (.boolean true, rest)
    else if name = "false" then .ok (.boolean false, rest)
    else if rest.head? = some '(' then
      (readCall rest).map fun call => .identifier (name ++ String.ofList call)
    else .ok (.identifier name, rest)

/-- Reads an attribute value. -/
def readValue : List Char → Reading Node
  | [] => stop (.expected .attributeValue none) []
  | c :: rest =>
    match Start.of c with
    | .string => (readString (c :: rest)).map .string
    | .number => (readNumber (c :: rest)).map .number
    | .identifier => readName (c :: rest)
    | .nothing => stop (.characterInValue c) (c :: rest)

/-- Reads a key, an equals sign and a value. -/
def readAttribute (cs : List Char) : Reading Attribute :=
  match readIdentifier cs with
  | .error e => .error e
  | .ok (key, rest) =>
    match expect '=' (.valueOf key) rest with
    | .error e => .error e
    | .ok rest => (readValue (skipTrivia rest)).map fun value => ⟨key, value⟩

/-! ## Progress -/

theorem Reading.map_eq_ok {α β : Type} {f : α → β} {x : Reading α} {b : β} {rest : List Char}
    (h : x.map f = .ok (b, rest)) : ∃ a, x = .ok (a, rest) ∧ f a = b := by
  match x, h with
  | .ok (a, _), h =>
    cases h
    exact ⟨a, rfl, rfl⟩

theorem length_skipTrivia_le (cs : List Char) : (skipTrivia cs).length ≤ cs.length :=
  (skipTrivia_suffix cs).length_le

theorem expect_length_lt {c : Char} {what : Expectation} {cs rest : List Char}
    (h : expect c what cs = .ok rest) : rest.length < cs.length := by
  have hle := length_skipTrivia_le cs
  rw [expect] at h
  split at h
  · cases h
  · rename_i hskip
    rw [hskip, List.length_cons] at hle
    split at h
    · cases h
      exact hle
    · cases h

theorem readCall_length_lt {value cs rest : List Char} (h : readCall cs = .ok (value, rest)) :
    rest.length < cs.length :=
  readCallTail_length_lt h

theorem readName_length_lt {value : Node} {cs rest : List Char}
    (h : readName cs = .ok (value, rest)) : rest.length < cs.length := by
  rw [readName] at h
  split at h
  · cases h
  · rename_i hread
    have hlt := readIdentifier_length_lt hread
    split at h
    · cases h
      exact hlt
    · split at h
      · cases h
        exact hlt
      · split at h
        · obtain ⟨_, hcall, _⟩ := Reading.map_eq_ok h
          exact Nat.lt_trans (readCall_length_lt hcall) hlt
        · cases h
          exact hlt

theorem readValue_length_lt {value : Node} {cs rest : List Char}
    (h : readValue cs = .ok (value, rest)) : rest.length < cs.length := by
  cases cs with
  | nil => cases h
  | cons c cs =>
    rw [readValue] at h
    split at h
    · obtain ⟨_, hread, _⟩ := Reading.map_eq_ok h
      exact readString_length_lt hread
    · obtain ⟨_, hread, _⟩ := Reading.map_eq_ok h
      exact readNumber_length_lt hread
    · exact readName_length_lt h
    · cases h

theorem readAttribute_length_lt {value : Attribute} {cs rest : List Char}
    (h : readAttribute cs = .ok (value, rest)) : rest.length < cs.length := by
  rw [readAttribute] at h
  split at h
  · cases h
  · rename_i hkey
    have hkey := readIdentifier_length_lt hkey
    split at h
    · cases h
    · rename_i hequals
      have hequals := expect_length_lt hequals
      obtain ⟨_, hvalue, _⟩ := Reading.map_eq_ok h
      have hvalue := readValue_length_lt hvalue
      have := length_skipTrivia_le
      exact Nat.lt_trans (Nat.lt_of_lt_of_le hvalue (this _)) (Nat.lt_trans hequals hkey)

/-! ## Lists -/

/-- Reads the rest of an attribute list behind the attributes `acc`, last first. -/
def readAttributesTail (acc : List Attribute) (cs : List Char) : Reading (List Attribute) :=
  match _hskip : skipTrivia cs with
  | [] => stop (.expected .closeOfAttributes none) []
  | c :: rest =>
    if c = ']' then .ok (acc.reverse, rest)
    else if c = ',' && !acc.isEmpty then readAttributesTail acc rest
    else if isIdentifierStart c then
      match _hread : readAttribute (c :: rest) with
      | .ok (entry, rest) => readAttributesTail (entry :: acc) rest
      | .error e => .error e
    else stop (.characterInAttributes c) (c :: rest)
termination_by cs.length
decreasing_by
  · have := length_skipTrivia_le cs
    simp_all only [List.length_cons]
    omega
  · have := length_skipTrivia_le cs
    have := readAttribute_length_lt _hread
    simp_all only [List.length_cons]
    omega

/-- Reads a bracketed attribute list. -/
def readAttributes (cs : List Char) : Reading (List Attribute) :=
  match expect '[' .attributes cs with
  | .error e => .error e
  | .ok rest => readAttributesTail [] rest

theorem readAttributesTail_length_lt {acc value : List Attribute} {cs rest : List Char}
    (h : readAttributesTail acc cs = .ok (value, rest)) : rest.length < cs.length := by
  fun_induction readAttributesTail acc cs with
  | case1 => cases h
  | case2 acc cs left hskip =>
    cases h
    have := length_skipTrivia_le cs
    rw [hskip] at this
    exact this
  | case3 acc cs c left hskip _ _ ih =>
    have := length_skipTrivia_le cs
    rw [hskip] at this
    exact Nat.lt_trans (ih h) this
  | case4 acc cs c left hskip _ _ _ entry behind hread ih =>
    have h₁ := length_skipTrivia_le cs
    rw [hskip] at h₁
    have h₂ := readAttribute_length_lt hread
    exact Nat.lt_trans (ih h) (Nat.lt_of_lt_of_le h₂ h₁)
  | case5 => cases h
  | case6 => cases h

theorem readAttributes_length_lt {value : List Attribute} {cs rest : List Char}
    (h : readAttributes cs = .ok (value, rest)) : rest.length < cs.length := by
  rw [readAttributes] at h
  split at h
  · cases h
  · rename_i hopen
    exact Nat.lt_trans (readAttributesTail_length_lt h) (expect_length_lt hopen)

end ChatMarkup.Source

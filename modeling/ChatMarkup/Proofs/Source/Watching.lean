import ChatMarkup.Proofs.Source.Tracking
import ChatMarkup.Proofs.Source.WrittenAttributes

/-!
# Readers that are watched

The readers of markup source once more, each leaving a trace of the rounds that it takes: those of
the four loops, over the elements of the document, the items of a body, the attributes of a list and
the characters of a call, and the descents into the bodies of elements, which count as rounds.
Nothing else in the readers repeats or goes deeper but the passing over of single characters.

* `Watched.run`: reading to the end of the source, watched;
* `Watched.result_run`: watching changes nothing.
-/

namespace ChatMarkup.Source

/-- A round of a loop, over the elements of a document, the items of a body, the attributes of a
list or the characters of a call, or a descent into a body. A round of a call starts with some quote
open, or none, and with a number of open parentheses. -/
inductive Round where
  | element
  | item
  | attribute
  | call (quote : Option Char) (depth : Nat)
  | descent
deriving DecidableEq, Repr

/-- A round, and the source from its start on. -/
structure Visit where
  round : Round
  left : List Char
deriving DecidableEq, Repr

/-- Reading that is watched. -/
abbrev Watching (α : Type) := Traced Visit Stop α

namespace Watched

open Traced

variable {α : Type}

/-- What takes no rounds. -/
def quietly (result : Except Stop α) : Watching α :=
  ⟨[], result⟩

/-- What comes behind other rounds. -/
def after (seen : List Visit) (x : Watching α) : Watching α :=
  ⟨seen ++ x.seen, x.result⟩

/-- What starts with a round. -/
def starting (round : Round) (left : List Char) (x : Watching α) : Watching α :=
  after [⟨round, left⟩] x

/-! ## Attributes -/

/-- Reads the rest of a call, a round for each character or escape. -/
def readCallTail (acc : List Char) (quote : Option Char) (depth : Nat) :
    List Char → Watching (List Char × List Char)
  | [] => starting (.call quote depth) [] (quietly (stop .unterminatedCall []))
  | c :: rest =>
    starting (.call quote depth) (c :: rest) <|
      match quote with
      | some q =>
        if c = '\\' then
          match rest with
          | [] => starting (.call (some q) depth) [] (quietly (stop .unterminatedCall []))
          | next :: rest => readCallTail (next :: c :: acc) (some q) depth rest
        else readCallTail (c :: acc) (if c = q then none else some q) depth rest
      | none =>
        if c = '"' ∨ c = '`' ∨ c = '\'' then readCallTail (c :: acc) (some c) depth rest
        else if c = '(' then readCallTail (c :: acc) none (depth + 1) rest
        else if c = ')' then
          match depth with
          | 0 => quietly (stop .unbalancedCall rest)
          | 1 => quietly (.ok ((c :: acc).reverse, rest))
          | depth + 2 => readCallTail (c :: acc) none (depth + 1) rest
        else readCallTail (c :: acc) none depth rest

/-- Reads a call, verbatim. -/
def readCall (cs : List Char) : Watching (List Char × List Char) :=
  readCallTail [] none 0 cs

/-- Reads an identifier as a value. -/
def readName (cs : List Char) : Watching (Node × List Char) :=
  quietly (readIdentifier cs) >>= fun (name, rest) =>
    if name = "true" then pure (.boolean true, rest)
    else if name = "false" then pure (.boolean false, rest)
    else if rest.head? = some '(' then
      readCall rest >>= fun (call, rest) => pure (.identifier (name ++ String.ofList call), rest)
    else pure (.identifier name, rest)

/-- Reads an attribute value. -/
def readValue (cs : List Char) : Watching (Node × List Char) :=
  if cs.head?.map Start.of = some .identifier then readName cs
  else quietly (Source.readValue cs)

/-- Reads a key, an equals sign and a value. -/
def readAttribute (cs : List Char) : Watching (Attribute × List Char) :=
  quietly (readIdentifier cs) >>= fun (key, rest) =>
    quietly (expect '=' (.valueOf key) rest) >>= fun rest =>
      readValue (skipTrivia rest) >>= fun (value, rest) => pure (⟨key, value⟩, rest)

@[simp] theorem result_quietly (result : Except Stop α) : (quietly result).result = result := rfl

@[simp] theorem result_starting (round : Round) (left : List Char) (x : Watching α) :
    (starting round left x).result = x.result := rfl

theorem result_readCallTail (acc : List Char) (quote : Option Char) (depth : Nat)
    (cs : List Char) :
    (readCallTail acc quote depth cs).result = Source.readCallTail acc quote depth cs := by
  fun_induction Source.readCallTail acc quote depth cs with
  | case1 | case2 | case7 | case8 => rfl
  | case3 _ _ _ _ _ ih => exact ih
  | case6 _ _ _ _ ih => exact ih
  | case9 _ _ _ _ _ ih => exact ih
  | case4 _ _ _ _ _ hslash ih =>
    rw [readCallTail.eq_def, result_starting]
    dsimp only
    rw [if_neg hslash]
    exact ih
  | case5 _ _ _ _ hquote ih => simpa [readCallTail, hquote] using ih
  | case10 _ _ _ _ hquote hopen hclose ih => simpa [readCallTail, hquote, hopen, hclose] using ih

theorem result_readCall (cs : List Char) : (readCall cs).result = Source.readCall cs :=
  result_readCallTail [] none 0 cs

theorem result_readName (cs : List Char) : (readName cs).result = Source.readName cs := by
  rw [readName, Source.readName, result_bind, result_quietly]
  cases readIdentifier cs with
  | error e => rfl
  | ok read =>
    obtain ⟨name, rest⟩ := read
    simp only [Except.bind]
    split
    · rfl
    · split
      · rfl
      · split
        · rw [result_bind, result_readCall]
          cases Source.readCall rest <;> rfl
        · rfl

/-- Where an identifier is to start, something stands. -/
theorem exists_cons_of_start {cs : List Char} (h : cs.head?.map Start.of = some .identifier) :
    ∃ c rest, cs = c :: rest ∧ Start.of c = .identifier := by
  obtain ⟨c, hc, hstart⟩ := Option.map_eq_some_iff.mp h
  obtain ⟨rest, rfl⟩ := List.head?_eq_some_iff.mp hc
  exact ⟨c, rest, rfl, hstart⟩

theorem result_readValue (cs : List Char) : (readValue cs).result = Source.readValue cs := by
  rw [readValue]
  split
  · rename_i hstart
    obtain ⟨c, rest, rfl, hc⟩ := exists_cons_of_start hstart
    rw [Source.readValue, hc]
    exact result_readName (c :: rest)
  · rfl

theorem result_readAttribute (cs : List Char) :
    (readAttribute cs).result = Source.readAttribute cs := by
  rw [readAttribute, Source.readAttribute, result_bind, result_quietly]
  cases readIdentifier cs with
  | error e => rfl
  | ok read =>
    obtain ⟨key, rest⟩ := read
    simp only [Except.bind, result_bind, result_quietly]
    cases expect '=' (.valueOf key) rest with
    | error e => rfl
    | ok rest =>
      simp only [result_readValue]
      cases Source.readValue (skipTrivia rest) <;> rfl

/-- Reads the rest of an attribute list, a round for each attribute or comma. -/
def readAttributesTail (acc : List Attribute) (cs : List Char) :
    Watching (List Attribute × List Char) :=
  starting .attribute cs <|
    match _hskip : skipTrivia cs with
    | [] => quietly (stop (.expected .closeOfAttributes none) [])
    | c :: rest =>
      if c = ']' then pure (acc.reverse, rest)
      else if c = ',' && !acc.isEmpty then readAttributesTail acc rest
      else if isIdentifierStart c then
        match _hread : (readAttribute (c :: rest)).result with
        | .ok (entry, behind) =>
          after (readAttribute (c :: rest)).seen (readAttributesTail (entry :: acc) behind)
        | .error e => after (readAttribute (c :: rest)).seen (fail e)
      else quietly (stop (.characterInAttributes c) (c :: rest))
termination_by cs.length
decreasing_by
  · have := length_skipTrivia_le cs
    simp_all only [List.length_cons]
    omega
  · have := length_skipTrivia_le cs
    have := readAttribute_length_lt (result_readAttribute _ ▸ _hread)
    simp_all only [List.length_cons]
    omega

/-- Reads a bracketed attribute list. -/
def readAttributes (cs : List Char) : Watching (List Attribute × List Char) :=
  quietly (expect '[' .attributes cs) >>= readAttributesTail []

theorem result_readAttributesTail (acc : List Attribute) (cs : List Char) :
    (readAttributesTail acc cs).result = Source.readAttributesTail acc cs := by
  fun_induction readAttributesTail acc cs with
  | case1 acc cs hcomma hentry =>
    rw [result_starting]
    split
    · rename_i hskip
      exact (readAttributesTail_of_nil hskip).symm
    · rename_i c rest hskip
      rw [readAttributesTail_of_cons hskip]
      split
      · rfl
      · split
        · exact hcomma c rest hskip
        · split
          · have hread := result_readAttribute (c :: rest)
            split
            · rename_i entry behind hok
              rw [← hread, hok]
              exact hentry c rest hskip entry behind hok
            · rename_i e herror
              rw [← hread, herror]
              rfl
          · rfl

theorem result_readAttributes (cs : List Char) :
    (readAttributes cs).result = Source.readAttributes cs := by
  rw [readAttributes, Source.readAttributes, result_bind, result_quietly]
  cases expect '[' .attributes cs with
  | error e => rfl
  | ok rest => exact result_readAttributesTail [] rest

/-! ## Documents -/

/-- Reads what follows the head of an element, and goes into its body. -/
def readBody (a : Assembly) (frame : Frame) (cs : List Char) : Watching (Assembly × List Char) :=
  if cs.head? = some '{' then starting .descent cs (quietly (a.readBody frame cs))
  else quietly (a.readBody frame cs)

/-- Reads an attribute list, if one stands here. -/
def readAttributes? (cs : List Char) : Watching (Option (List Attribute) × List Char) :=
  if cs.head? = some '[' then
    readAttributes cs >>= fun (attributes, rest) => pure (some attributes, rest)
  else pure (none, cs)

/-- Reads the head of an element and goes into its body, or reads the bare string it has as a
body. -/
def readElement (a : Assembly) (cs : List Char) : Watching (Assembly × List Char) :=
  if maxDepth ≤ a.frames.length then fail .tooDeep
  else
    quietly (readIdentifier cs) >>= fun (name, rest) =>
      readAttributes? (skipTrivia rest) >>= fun (attributes, rest) =>
        readBody { a with nextId := a.nextId + 1 } ⟨Tag.ofName name, a.nextId, attributes, a.items⟩
          (skipTrivia rest)

/-- Reads one item: a literal, or the head of an element. -/
def readItem (a : Assembly) (cs : List Char) : Watching (Assembly × List Char) :=
  if cs.head?.map Start.of = some .identifier then readElement a cs else quietly (a.readItem cs)

/-- Reads up to the end of the next item, or the brace that closes the innermost body, or the end
of the document: a round of the loop over the elements of the document or over the items of a
body. -/
def step (a : Assembly) (cs : List Char) : Watching Step :=
  starting (if a.frames.isEmpty then .element else .item) cs <|
    match skipTrivia cs with
    | [] => quietly (a.step cs)
    | c :: rest =>
      if c = '}' then quietly (a.step cs)
      else readItem a (c :: rest) >>= fun (b, rest) => pure (.next b rest)

theorem result_readBody (a : Assembly) (frame : Frame) (cs : List Char) :
    (readBody a frame cs).result = a.readBody frame cs := by
  rw [readBody]
  split <;> rfl

theorem result_readAttributes? (cs : List Char) :
    (readAttributes? cs).result = Assembly.readAttributes? cs := by
  rw [readAttributes?, Assembly.readAttributes?]
  split
  · rw [result_bind, result_readAttributes]
    cases Source.readAttributes cs <;> rfl
  · rfl

theorem result_readElement (a : Assembly) (cs : List Char) :
    (readElement a cs).result = a.readElement cs := by
  rw [readElement, Assembly.readElement]
  split
  · rfl
  rw [result_bind, result_quietly]
  cases readIdentifier cs with
  | error e => rfl
  | ok read =>
    obtain ⟨name, rest⟩ := read
    simp only [Except.bind, result_bind, result_readAttributes?]
    cases Assembly.readAttributes? (skipTrivia rest) with
    | error e => rfl
    | ok read => exact result_readBody _ _ _

theorem result_readItem (a : Assembly) (cs : List Char) :
    (readItem a cs).result = a.readItem cs := by
  rw [readItem]
  split
  · rename_i hstart
    obtain ⟨c, rest, rfl, hc⟩ := exists_cons_of_start hstart
    rw [Assembly.readItem, hc]
    exact result_readElement a (c :: rest)
  · rfl

theorem result_step (a : Assembly) (cs : List Char) : (step a cs).result = a.step cs := by
  rw [step, result_starting]
  split
  · rfl
  · rename_i c rest hskip
    split
    · rfl
    · rename_i hclose
      rw [result_bind, result_readItem, Assembly.step, hskip]
      dsimp only
      rw [if_neg hclose]
      cases a.readItem (c :: rest) <;> rfl

/-- Reads to the end of the source. -/
def run (a : Assembly) (cs : List Char) : Watching (List Node) :=
  match _hstep : (step a cs).result with
  | .error e => after (step a cs).seen (fail e)
  | .ok (.done items) => after (step a cs).seen (pure items)
  | .ok (.next b rest) => after (step a cs).seen (run b rest)
termination_by cs.length
decreasing_by exact Assembly.step_length_lt (result_step a cs ▸ _hstep)

/-- Watching changes nothing. -/
theorem result_run (a : Assembly) (cs : List Char) : (run a cs).result = a.run cs := by
  fun_induction run a cs with
  | case1 a cs e hstep =>
    rw [result_step] at hstep
    exact (Assembly.run_of_error hstep).symm
  | case2 a cs items hstep =>
    rw [result_step] at hstep
    exact (Assembly.run_of_done hstep).symm
  | case3 a cs b rest hstep ih =>
    rw [result_step] at hstep
    rw [Assembly.run_of_step hstep]
    exact ih

end Watched

end ChatMarkup.Source

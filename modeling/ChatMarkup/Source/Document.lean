import ChatMarkup.Error
import ChatMarkup.Source.Attributes

/-!
# Documents in source

Reading a whole document.  The reader keeps the elements that are still open, innermost first, and
goes on item by item; every step but the last passes over at least one character, which is what
`Assembly.step_length_lt` says, so that reading ends.  Elements are numbered in the order in which
they open.
-/

namespace ChatMarkup.Source

/-- An element whose body is being read, with the items read before it in the body around it, last
first. -/
structure Frame where
  tag : Tag
  id : Nat
  attributes : Option (List Attribute)
  outer : List Node

/-- A document read so far: the items of the innermost open body, last first, the open elements,
innermost first, and the number for the next element. -/
structure Assembly where
  items : List Node
  frames : List Frame
  nextId : Nat

/-- Where a step leads: to the items of the whole document, or on with the rest of the source. -/
inductive Step where
  | done (items : List Node)
  | next (assembly : Assembly) (rest : List Char)

namespace Assembly

/-- Nothing read yet. -/
def empty : Assembly := ⟨[], [], 0⟩

/-- One more item in the innermost body. -/
def push (a : Assembly) (node : Node) : Assembly :=
  { a with items := node :: a.items }

/-- The innermost element is complete. -/
def close (a : Assembly) (frame : Frame) (frames : List Frame) : Assembly where
  items :=
    .element frame.tag frame.id frame.attributes (some (.block a.items.reverse)) :: frame.outer
  frames := frames
  nextId := a.nextId

/-- Reads what follows the head of an element: an opening brace, or the bare string that some tags
take as a body. -/
def readBody (a : Assembly) (frame : Frame) : List Char → Except Stop (Assembly × List Char)
  | [] => stop (.expected (.bodyAfter frame.tag.name) none) []
  | c :: rest =>
    if c = '{' then
      match expect '{' (.blockOf frame.tag.name) (c :: rest) with
      | .error e => .error e
      | .ok rest => .ok (⟨[], frame :: a.frames, a.nextId⟩, rest)
    else if Start.of c = .string && frame.tag.takesBareString then
      match readString (c :: rest) with
      | .error e => .error e
      | .ok (value, rest) =>
        .ok (a.push (.element frame.tag frame.id frame.attributes (some (.string value))), rest)
    else stop (.expected (.bodyAfter frame.tag.name) (some c)) (c :: rest)

/-- Reads an attribute list, if one stands here. -/
def readAttributes? (cs : List Char) : Reading (Option (List Attribute)) :=
  if cs.head? = some '[' then (readAttributes cs).map some else .ok (none, cs)

/-- Reads the head of an element and goes into its body, or reads the bare string it has as a
body. -/
def readElement (a : Assembly) (cs : List Char) : Except Stop (Assembly × List Char) :=
  if maxDepth ≤ a.frames.length then .error .tooDeep
  else
    match readIdentifier cs with
    | .error e => .error e
    | .ok (name, rest) =>
      match readAttributes? (skipTrivia rest) with
      | .error e => .error e
      | .ok (attributes, rest) =>
        readBody { a with nextId := a.nextId + 1 } ⟨Tag.ofName name, a.nextId, attributes, a.items⟩
          (skipTrivia rest)

/-- Reads one item: a literal, or the head of an element. -/
def readItem (a : Assembly) : List Char → Except Stop (Assembly × List Char)
  | [] => stop .endOfInput []
  | c :: rest =>
    match Start.of c with
    | .string => (readString (c :: rest)).map fun value => a.push (.string value)
    | .number => (readNumber (c :: rest)).map fun value => a.push (.number value)
    | .identifier => readElement a (c :: rest)
    | .nothing => stop (.character c) (c :: rest)

/-- Reads up to the end of the next item, or the brace that closes the innermost body, or the end
of the document. -/
def step (a : Assembly) (cs : List Char) : Except Stop Step :=
  match skipTrivia cs with
  | [] =>
    match a.frames with
    | [] => .ok (.done a.items.reverse)
    | frame :: _ => stop (.expected (.closeOf frame.tag.name) none) []
  | c :: rest =>
    if c = '}' then
      match a.frames with
      | [] => stop .closeAtTopLevel (c :: rest)
      | frame :: frames => .ok (.next (a.close frame frames) rest)
    else
      match readItem a (c :: rest) with
      | .error e => .error e
      | .ok (a, rest) => .ok (.next a rest)

/-! ## Progress -/

theorem readBody_length_lt {a b : Assembly} {frame : Frame} {cs rest : List Char}
    (h : readBody a frame cs = .ok (b, rest)) : rest.length < cs.length := by
  cases cs with
  | nil => cases h
  | cons c cs =>
    rw [readBody] at h
    split at h
    · split at h
      · cases h
      · rename_i hopen
        cases h
        exact expect_length_lt hopen
    · split at h
      · split at h
        · cases h
        · rename_i hread
          cases h
          exact readString_length_lt hread
      · cases h

theorem readAttributes?_length_le {value : Option (List Attribute)} {cs rest : List Char}
    (h : readAttributes? cs = .ok (value, rest)) : rest.length ≤ cs.length := by
  rw [readAttributes?] at h
  split at h
  · obtain ⟨_, hread, _⟩ := Reading.map_eq_ok h
    exact Nat.le_of_lt (readAttributes_length_lt hread)
  · cases h
    exact Nat.le_refl _

theorem readElement_length_lt {a b : Assembly} {cs rest : List Char}
    (h : readElement a cs = .ok (b, rest)) : rest.length < cs.length := by
  rw [readElement] at h
  split at h
  · cases h
  · split at h
    · cases h
    · rename_i hname
      split at h
      · cases h
      · rename_i hattributes
        have hbody := Nat.lt_of_lt_of_le (readBody_length_lt h) (length_skipTrivia_le _)
        have hlist := Nat.le_trans (readAttributes?_length_le hattributes) (length_skipTrivia_le _)
        exact Nat.lt_trans (Nat.lt_of_lt_of_le hbody hlist) (readIdentifier_length_lt hname)

theorem readItem_length_lt {a b : Assembly} {cs rest : List Char}
    (h : readItem a cs = .ok (b, rest)) : rest.length < cs.length := by
  cases cs with
  | nil => cases h
  | cons c cs =>
    rw [readItem] at h
    split at h
    · obtain ⟨_, hread, _⟩ := Reading.map_eq_ok h
      exact readString_length_lt hread
    · obtain ⟨_, hread, _⟩ := Reading.map_eq_ok h
      exact readNumber_length_lt hread
    · exact readElement_length_lt h
    · cases h

theorem step_length_lt {a b : Assembly} {cs rest : List Char}
    (h : a.step cs = .ok (.next b rest)) : rest.length < cs.length := by
  have hle := length_skipTrivia_le cs
  rw [step] at h
  split at h
  · split at h <;> cases h
  · rename_i hskip
    rw [hskip] at hle
    split at h
    · split at h
      · cases h
      · cases h
        exact hle
    · split at h
      · cases h
      · rename_i hread
        cases h
        exact Nat.lt_of_lt_of_le (readItem_length_lt hread) hle

/-! ## Whole documents -/

/-- Reads to the end of the source. -/
def run (a : Assembly) (cs : List Char) : Except Stop (List Node) :=
  match _hstep : a.step cs with
  | .error e => .error e
  | .ok (.done items) => .ok items
  | .ok (.next b rest) => b.run rest
termination_by cs.length
decreasing_by exact step_length_lt _hstep

end Assembly

/-- The error shown for a stop in `source`. -/
def Stop.error (source : List Char) : Stop → MarkupError
  | .tooDeep => .tooDeep maxDepth
  | .fault cause rest =>
    let place := Position.locate source rest
    .parse place.line place.column cause.message

/-- Reads a document.  The whole source has to be well formed. -/
def read (source : String) : Except MarkupError Node :=
  match Assembly.empty.run source.toList with
  | .ok items => .ok (.ofItems items)
  | .error e => .error (Stop.error source.toList e)

end ChatMarkup.Source

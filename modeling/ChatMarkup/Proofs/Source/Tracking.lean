import ChatMarkup.Proofs.Source.Cursor

/-!
# Where faults are shown

Attributes, elements and whole documents read with a cursor. The readers agree from the first
character of a source on, so that the line and the column of a fault belong to a place in the
source: to the place that the reader had come to, or to the start of the string or numeral that it
was in.

* `Cursor.agrees_step`, `Cursor.agrees_run`: one step with a cursor, and from it, by induction, the
  whole document;
* `read_eq_cursor`: reading with a cursor is reading;
* `read_places_fault`: where the fault of a source is shown.
-/

namespace ChatMarkup.Source

/-- What is left, and the place where it starts. -/
inductive Leaves (c : Cursor) : List Char → Cursor → Prop
  | intro {d : Cursor} : c.LeadsTo d → Leaves c d.rest d

/-- A reading with its value changed. -/
def Tracking.map {α β : Type} (f : α → β) : Tracking α → Tracking β
  | .ok (value, d) => .ok (f value, d)
  | .error e => .error e

theorem Reads.map {c : Cursor} {α β : Type} {plain : Reading α} {tracked : Tracking α}
    (h : Reads c plain tracked) (f : α → β) : Reads c (plain.map f) (tracked.map f) := by
  cases h with
  | ok hfollows =>
    obtain ⟨hlead⟩ := hfollows
    exact .ok ⟨hlead⟩
  | error hstops => exact .error hstops

namespace Cursor

/-- Behind a character in front. -/
theorem leadsTo_cons {c : Cursor} {first : Char} {rest : List Char} (h : c.rest = first :: rest) :
    c.LeadsTo (c.pass [first] rest) :=
  leadsTo_pass h

/-! ## Attributes -/

/-- Passes over trivia and the character asked for. -/
def expect (char : Char) (what : Expectation) (c : Cursor) : Except Halt Cursor :=
  match c.skipTrivia.rest with
  | [] => halt (.expected what none) c.skipTrivia
  | first :: rest =>
    if first = char then .ok (c.skipTrivia.pass [first] rest)
    else halt (.expected what (some first)) c.skipTrivia

theorem agrees_expect (char : Char) (what : Expectation) (c : Cursor) :
    Agrees c (Leaves c) (Source.expect char what c.rest) (c.expect char what) := by
  have hrest := rest_skipTrivia c
  have hlead := leadsTo_skipTrivia c
  rw [Source.expect, expect, ← hrest]
  cases hskip : c.skipTrivia.rest with
  | nil => exact agrees_halt hlead hskip rfl
  | cons first rest =>
    dsimp only
    split
    · exact .ok ⟨hlead.trans (leadsTo_cons hskip)⟩
    · exact agrees_halt hlead hskip rfl

/-- Reads an identifier as a value: one of the two flags, or a name with the call directly behind
it. -/
def readName (c : Cursor) : Tracking Node :=
  match c.readIdentifier with
  | .error e => .error e
  | .ok (name, d) =>
    if name = "true" then .ok (.boolean true, d)
    else if name = "false" then .ok (.boolean false, d)
    else if d.rest.head? = some '(' then
      d.readCall.map fun call => .identifier (name ++ String.ofList call)
    else .ok (.identifier name, d)

theorem reads_readName (c : Cursor) : Reads c (Source.readName c.rest) c.readName := by
  rw [Source.readName, readName]
  rcases (reads_readIdentifier c).cases with
    ⟨e, e', hplain, htracked, hstops⟩ | ⟨name, d, hplain, htracked, hlead⟩
  · rw [hplain, htracked]
    exact .error hstops
  rw [hplain, htracked]
  dsimp only
  split
  · exact .ok ⟨hlead⟩
  · split
    · exact .ok ⟨hlead⟩
    · split
      · exact ((reads_readCall d).map _).behind hlead
      · exact .ok ⟨hlead⟩

/-- Reads an attribute value. -/
def readValue (c : Cursor) : Tracking Node :=
  match c.rest with
  | [] => halt (.expected .attributeValue none) c
  | first :: _ =>
    match Start.of first with
    | .string => c.readString.map .string
    | .number => c.readNumber.map .number
    | .identifier => c.readName
    | .nothing => halt (.characterInValue first) c

theorem reads_readValue (c : Cursor) : Reads c (Source.readValue c.rest) c.readValue := by
  rw [readValue]
  cases hrest : c.rest with
  | nil => exact agrees_halt (leadsTo_refl c) hrest rfl
  | cons first rest =>
    rw [Source.readValue]
    dsimp only
    cases hstart : Start.of first with
    | string =>
      rw [← hrest]
      exact (reads_readString (mem_literalQuotes hstart) hrest).map _
    | number =>
      rw [← hrest]
      exact (reads_readNumber hstart hrest).map _
    | identifier =>
      rw [← hrest]
      exact reads_readName c
    | nothing => exact agrees_halt (leadsTo_refl c) hrest rfl

/-- Reads a key, an equals sign and a value. -/
def readAttribute (c : Cursor) : Tracking Attribute :=
  match c.readIdentifier with
  | .error e => .error e
  | .ok (key, d) =>
    match d.expect '=' (.valueOf key) with
    | .error e => .error e
    | .ok d => d.skipTrivia.readValue.map fun value => ⟨key, value⟩

theorem reads_readAttribute (c : Cursor) :
    Reads c (Source.readAttribute c.rest) c.readAttribute := by
  rw [Source.readAttribute, readAttribute]
  rcases (reads_readIdentifier c).cases with
    ⟨e, e', hplain, htracked, hstops⟩ | ⟨key, d, hplain, htracked, hkey⟩
  · rw [hplain, htracked]
    exact .error hstops
  rw [hplain, htracked]
  dsimp only
  rcases (agrees_expect '=' (.valueOf key) d).cases with
    ⟨e, e', hplain, htracked, hstops⟩ | ⟨_, d', hplain, htracked, ⟨hequals⟩⟩
  · rw [hplain, htracked]
    exact .error (hstops.behind hkey)
  rw [hplain, htracked]
  dsimp only
  rw [← rest_skipTrivia]
  exact ((reads_readValue d'.skipTrivia).map _).behind
    (hkey.trans (hequals.trans (leadsTo_skipTrivia d')))

theorem length_readAttribute_lt {c d : Cursor} {entry : Attribute}
    (h : c.readAttribute = .ok (entry, d)) : d.rest.length < c.rest.length :=
  Source.readAttribute_length_lt ((reads_readAttribute c).of_ok h).1

/-- Reads the rest of an attribute list behind the attributes `acc`, last first. -/
def readAttributesTail (acc : List Attribute) (c : Cursor) : Tracking (List Attribute) :=
  match _hskip : c.skipTrivia.rest with
  | [] => halt (.expected .closeOfAttributes none) c.skipTrivia
  | first :: rest =>
    if first = ']' then .ok (acc.reverse, c.skipTrivia.pass [first] rest)
    else if first = ',' && !acc.isEmpty then readAttributesTail acc (c.skipTrivia.pass [first] rest)
    else if isIdentifierStart first then
      match _hread : c.skipTrivia.readAttribute with
      | .ok (entry, d) => readAttributesTail (entry :: acc) d
      | .error e => .error e
    else halt (.characterInAttributes first) c.skipTrivia
termination_by c.rest.length
decreasing_by
  · have hle := length_skipTrivia_le c.rest
    rw [← rest_skipTrivia, _hskip, List.length_cons] at hle
    exact hle
  · have hle := length_skipTrivia_le c.rest
    have hlt := length_readAttribute_lt _hread
    rw [rest_skipTrivia] at hlt
    omega

theorem reads_readAttributesTail (acc : List Attribute) (c : Cursor) :
    Reads c (Source.readAttributesTail acc c.rest) (c.readAttributesTail acc) := by
  have hstep {acc : List Attribute} {c : Cursor} {first : Char} {rest : List Char}
      (hskip : c.skipTrivia.rest = first :: rest) :=
    @Source.readAttributesTail_of_cons acc _ _ _ ((rest_skipTrivia c).symm.trans hskip)
  fun_induction readAttributesTail acc c with
  | case1 acc c hskip =>
    rw [Source.readAttributesTail_of_nil ((rest_skipTrivia c).symm.trans hskip)]
    exact agrees_halt (leadsTo_skipTrivia c) hskip rfl
  | case2 acc c rest hskip =>
    rw [hstep hskip, if_pos rfl]
    exact .ok ⟨(leadsTo_skipTrivia c).trans (leadsTo_cons hskip)⟩
  | case3 acc c first rest hskip hclose hcomma ih =>
    rw [hstep hskip, if_neg hclose, if_pos hcomma]
    exact ih.behind ((leadsTo_skipTrivia c).trans (leadsTo_cons hskip))
  | case4 acc c first rest hskip hclose hcomma hname entry d hread ih =>
    obtain ⟨hentry, hlead⟩ := (reads_readAttribute c.skipTrivia).of_ok hread
    rw [hstep hskip, if_neg hclose, if_neg hcomma,
      if_pos hname, ← hskip, hentry]
    exact ih.behind ((leadsTo_skipTrivia c).trans hlead)
  | case5 acc c first rest hskip hclose hcomma hname e hread =>
    obtain ⟨e, hentry, hstops⟩ := (reads_readAttribute c.skipTrivia).of_error hread
    rw [hstep hskip, if_neg hclose, if_neg hcomma,
      if_pos hname, ← hskip, hentry]
    exact .error (hstops.behind (leadsTo_skipTrivia c))
  | case6 acc c first rest hskip hclose hcomma hname =>
    rw [hstep hskip, if_neg hclose, if_neg hcomma,
      if_neg hname]
    exact agrees_halt (leadsTo_skipTrivia c) hskip rfl

/-- Reads a bracketed attribute list. -/
def readAttributes (c : Cursor) : Tracking (List Attribute) :=
  match c.expect '[' .attributes with
  | .error e => .error e
  | .ok d => d.readAttributesTail []

theorem reads_readAttributes (c : Cursor) :
    Reads c (Source.readAttributes c.rest) c.readAttributes := by
  rw [Source.readAttributes, readAttributes]
  rcases (agrees_expect '[' .attributes c).cases with
    ⟨e, e', hplain, htracked, hstops⟩ | ⟨_, d, hplain, htracked, ⟨hlead⟩⟩
  · rw [hplain, htracked]
    exact .error hstops
  · rw [hplain, htracked]
    exact (reads_readAttributesTail [] d).behind hlead

/-! ## Elements -/

/-- Reads what follows the head of an element: an opening brace, or the bare string that some tags
take as a body. -/
def readBody (a : Assembly) (frame : Frame) (c : Cursor) : Tracking Assembly :=
  match c.rest with
  | [] => halt (.expected (.bodyAfter frame.tag.name) none) c
  | first :: _ =>
    if first = '{' then
      match c.expect '{' (.blockOf frame.tag.name) with
      | .error e => .error e
      | .ok d => .ok (⟨[], frame :: a.frames, a.nextId⟩, d)
    else if Start.of first = .string && frame.tag.takesBareString then
      match c.readString with
      | .error e => .error e
      | .ok (value, d) =>
        .ok (a.push (.element frame.tag frame.id frame.attributes (some (.string value))), d)
    else halt (.expected (.bodyAfter frame.tag.name) (some first)) c

theorem reads_readBody (a : Assembly) (frame : Frame) (c : Cursor) :
    Reads c (a.readBody frame c.rest) (readBody a frame c) := by
  rw [readBody]
  cases hrest : c.rest with
  | nil => exact agrees_halt (leadsTo_refl c) hrest rfl
  | cons first rest =>
    rw [Assembly.readBody]
    dsimp only
    split
    · rw [← hrest]
      rcases (agrees_expect '{' (.blockOf frame.tag.name) c).cases with
        ⟨e, e', hplain, htracked, hstops⟩ | ⟨_, d, hplain, htracked, ⟨hlead⟩⟩
      · rw [hplain, htracked]
        exact .error hstops
      · rw [hplain, htracked]
        exact .ok ⟨hlead⟩
    · split
      · rename_i hbare
        rw [Bool.and_eq_true, decide_eq_true_eq] at hbare
        rw [← hrest]
        rcases (reads_readString (mem_literalQuotes hbare.1) hrest).cases with
          ⟨e, e', hplain, htracked, hstops⟩ | ⟨value, d, hplain, htracked, hlead⟩
        · rw [hplain, htracked]
          exact .error hstops
        · rw [hplain, htracked]
          exact .ok ⟨hlead⟩
      · exact agrees_halt (leadsTo_refl c) hrest rfl

/-- Reads an attribute list, if one stands here. -/
def readAttributes? (c : Cursor) : Tracking (Option (List Attribute)) :=
  if c.rest.head? = some '[' then c.readAttributes.map some else .ok (none, c)

theorem reads_readAttributes? (c : Cursor) :
    Reads c (Assembly.readAttributes? c.rest) c.readAttributes? := by
  rw [Assembly.readAttributes?, readAttributes?]
  split
  · exact (reads_readAttributes c).map some
  · exact .ok ⟨leadsTo_refl c⟩

/-- Reads the head of an element and goes into its body, or reads the bare string it has as a
body. -/
def readElement (a : Assembly) (c : Cursor) : Tracking Assembly :=
  if maxDepth ≤ a.frames.length then .error .tooDeep
  else
    match c.readIdentifier with
    | .error e => .error e
    | .ok (name, d) =>
      match d.skipTrivia.readAttributes? with
      | .error e => .error e
      | .ok (attributes, d) =>
        readBody { a with nextId := a.nextId + 1 } ⟨Tag.ofName name, a.nextId, attributes, a.items⟩
          d.skipTrivia

theorem reads_readElement (a : Assembly) (c : Cursor) :
    Reads c (a.readElement c.rest) (readElement a c) := by
  rw [Assembly.readElement, readElement]
  split
  · exact .error .tooDeep
  rcases (reads_readIdentifier c).cases with
    ⟨e, e', hplain, htracked, hstops⟩ | ⟨name, d, hplain, htracked, hname⟩
  · rw [hplain, htracked]
    exact .error hstops
  rw [hplain, htracked]
  dsimp only
  rw [← rest_skipTrivia]
  have hskip := hname.trans (leadsTo_skipTrivia d)
  rcases ((reads_readAttributes? d.skipTrivia).behind hskip).cases with
    ⟨e, e', hplain, htracked, hstops⟩ | ⟨attributes, d, hplain, htracked, hhead⟩
  · rw [hplain, htracked]
    exact .error hstops
  rw [hplain, htracked]
  dsimp only
  rw [← rest_skipTrivia]
  exact (reads_readBody _ _ _).behind (hhead.trans (leadsTo_skipTrivia d))

/-- Reads one item: a literal, or the head of an element. -/
def readItem (a : Assembly) (c : Cursor) : Tracking Assembly :=
  match c.rest with
  | [] => halt .endOfInput c
  | first :: _ =>
    match Start.of first with
    | .string => c.readString.map fun value => a.push (.string value)
    | .number => c.readNumber.map fun value => a.push (.number value)
    | .identifier => readElement a c
    | .nothing => halt (.character first) c

theorem reads_readItem (a : Assembly) (c : Cursor) :
    Reads c (a.readItem c.rest) (readItem a c) := by
  rw [readItem]
  cases hrest : c.rest with
  | nil => exact agrees_halt (leadsTo_refl c) hrest rfl
  | cons first rest =>
    rw [Assembly.readItem]
    dsimp only
    cases hstart : Start.of first with
    | string =>
      rw [← hrest]
      exact (reads_readString (mem_literalQuotes hstart) hrest).map _
    | number =>
      rw [← hrest]
      exact (reads_readNumber hstart hrest).map _
    | identifier =>
      rw [← hrest]
      exact reads_readElement a c
    | nothing => exact agrees_halt (leadsTo_refl c) hrest rfl

end Cursor

/-! ## Documents -/

/-- Where a step with a cursor leads. -/
inductive Stride where
  | done (items : List Node)
  | next (assembly : Assembly) (cursor : Cursor)

/-- A step and a stride that lead to the same place. -/
inductive Advances (c : Cursor) : Step → Stride → Prop
  | done (items : List Node) : Advances c (.done items) (.done items)
  | next (a : Assembly) {d : Cursor} : c.LeadsTo d → Advances c (.next a d.rest) (.next a d)

namespace Cursor

/-- Reads up to the end of the next item, or the brace that closes the innermost body, or the end
of the document. -/
def step (a : Assembly) (c : Cursor) : Except Halt Stride :=
  match c.skipTrivia.rest with
  | [] =>
    match a.frames with
    | [] => .ok (.done a.items.reverse)
    | frame :: _ => halt (.expected (.closeOf frame.tag.name) none) c.skipTrivia
  | first :: rest =>
    if first = '}' then
      match a.frames with
      | [] => halt .closeAtTopLevel c.skipTrivia
      | frame :: frames => .ok (.next (a.close frame frames) (c.skipTrivia.pass [first] rest))
    else
      match readItem a c.skipTrivia with
      | .error e => .error e
      | .ok (a, d) => .ok (.next a d)

/-- One step agrees. -/
theorem agrees_step (a : Assembly) (c : Cursor) :
    Agrees c (Advances c) (a.step c.rest) (step a c) := by
  have hlead := leadsTo_skipTrivia c
  rw [Assembly.step, step, ← rest_skipTrivia]
  cases hskip : c.skipTrivia.rest with
  | nil =>
    dsimp only
    cases a.frames with
    | nil => exact .ok (.done _)
    | cons frame frames => exact agrees_halt hlead hskip rfl
  | cons first rest =>
    dsimp only
    split
    · cases a.frames with
      | nil => exact agrees_halt hlead hskip rfl
      | cons frame frames => exact .ok (.next _ (hlead.trans (leadsTo_cons hskip)))
    · rw [← hskip]
      rcases ((reads_readItem a c.skipTrivia).behind hlead).cases with
        ⟨e, e', hplain, htracked, hstops⟩ | ⟨b, d, hplain, htracked, hitem⟩
      · rw [hplain, htracked]
        exact .error hstops
      · rw [hplain, htracked]
        exact .ok (.next b hitem)

theorem length_step_lt {a b : Assembly} {c d : Cursor} (h : step a c = .ok (.next b d)) :
    d.rest.length < c.rest.length := by
  obtain ⟨_, hplain, hadvances⟩ := (agrees_step a c).of_ok h
  cases hadvances
  exact Assembly.step_length_lt hplain

/-- Reads to the end of the source. -/
def run (a : Assembly) (c : Cursor) : Except Halt (List Node) :=
  match _hstep : step a c with
  | .error e => .error e
  | .ok (.done items) => .ok items
  | .ok (.next b d) => run b d
termination_by c.rest.length
decreasing_by exact length_step_lt _hstep

/-- A whole document agrees, from any place on. -/
theorem agrees_run (a : Assembly) (c : Cursor) : Agrees c Eq (a.run c.rest) (run a c) := by
  fun_induction run a c with
  | case1 a c e' hstep =>
    obtain ⟨e, hplain, hstops⟩ := (agrees_step a c).of_error hstep
    rw [Assembly.run_of_error hplain]
    exact .error hstops
  | case2 a c items hstep =>
    obtain ⟨_, hplain, hadvances⟩ := (agrees_step a c).of_ok hstep
    cases hadvances
    rw [Assembly.run_of_done hplain]
    exact .ok rfl
  | case3 a c b d hstep ih =>
    obtain ⟨_, hplain, hadvances⟩ := (agrees_step a c).of_ok hstep
    cases hadvances with
    | next _ hlead =>
      rw [Assembly.run_of_step hplain]
      exact Agrees.behind hlead ih fun _ _ => id

/-- Reads a document. -/
def read (source : String) : Except Halt (List Node) :=
  run .empty (.start source.toList)

/-- Going over the characters in front counts them, and their lines and columns. -/
theorem mark_of_leadsTo {source : List Char} {d : Cursor} (h : (start source).LeadsTo d) :
    d.mark.offset ≤ source.length ∧ d.rest = source.drop d.mark.offset ∧
      d.mark.place = Position.after (source.take d.mark.offset) ∧
      Position.locate source d.rest = d.mark.place := by
  obtain ⟨passed, hrest, hmark⟩ := h
  have hsource : source = passed ++ d.rest := hrest
  have heq : d.mark = ⟨passed.length, Position.after passed⟩ := by
    rw [hmark, Mark.advance_eq]
    simp [start, Mark.start, Position.after]
  rw [Position.locate, heq]
  subst hsource
  simp

end Cursor

/-- The error shown for a stop with a cursor. -/
def Halt.error : Halt → MarkupError
  | .tooDeep => .tooDeep maxDepth
  | .fault cause shown _ => .parse shown.mark.place.line shown.mark.place.column cause.message

/-- Reading with a cursor is reading: the trees are the same, and so are the errors, with their
lines and columns. -/
theorem read_eq_cursor (source : String) :
    read source =
      match Cursor.read source with
      | .ok items => .ok (.ofItems items)
      | .error e => .error e.error := by
  rw [read, Cursor.read]
  rcases (Cursor.agrees_run .empty (.start source.toList)).cases with
    ⟨e, e', hplain, htracked, hstops⟩ | ⟨items, _, hplain, htracked, rfl⟩
  · rw [htracked, show Assembly.empty.run source.toList = .error e from hplain]
    cases hstops with
    | fault hshown _ _ =>
      obtain ⟨-, -, -, hplace⟩ := Cursor.mark_of_leadsTo hshown
      dsimp only [Stop.error, Halt.error]
      rw [hplace]
    | tooDeep => rfl
  · rw [htracked, show Assembly.empty.run source.toList = .ok items from hplain]

/-- The place where a fault is shown, in a source of which so many characters had been read: the
opening quote of a string that does not end, the first character of a numeral that is none, and for
any other fault the place that was reached. -/
structure IsFaultPlace (source : List Char) (cause : Fault) (reached place : Nat) : Prop where
  le_reached : place ≤ reached
  reached_le : reached ≤ source.length
  string : cause = .unterminatedString →
    reached = source.length ∧ (∃ quote ∈ literalQuotes, source[place]? = some quote) ∧
      ∀ value literal, IsLiteral value literal → ¬literal <+: source.drop place
  number : ∀ text, cause = .invalidNumber text →
    (∃ first, source[place]? = some first ∧ Start.of first = .number) ∧
      text = (splitNumeral (source.drop place)).1 ∧ Number.read? text = none
  other : cause ≠ .unterminatedString → (∀ text, cause ≠ .invalidNumber text) → place = reached

/-- A fault that a cursor shows is shown where it belongs. -/
theorem isFaultPlace_of_isShown {source : List Char} {cause : Fault} {shown reached : Cursor}
    (hshown : (Cursor.start source).LeadsTo shown) (hreached : shown.LeadsTo reached)
    (h : IsShown shown reached cause) :
    IsFaultPlace source cause reached.mark.offset shown.mark.offset := by
  obtain ⟨-, hrest, -, -⟩ := Cursor.mark_of_leadsTo hshown
  obtain ⟨hle, hleft, -, -⟩ := Cursor.mark_of_leadsTo (hshown.trans hreached)
  have hfirst : ∀ {first : Char} {behind : List Char}, shown.rest = first :: behind →
      source[shown.mark.offset]? = some first := by
    intro first behind hcons
    rw [← List.head?_drop, ← hrest, hcons, List.head?_cons]
  refine ⟨hreached.offset_le, hle, ?_, ?_, ?_⟩
  · rintro rfl
    obtain ⟨hend, quote, hquote, behind, hcons, hread⟩ := h
    rw [hend, eq_comm, List.drop_eq_nil_iff] at hleft
    refine ⟨le_antisymm hle hleft, ⟨quote, hquote, hfirst hcons⟩, ?_⟩
    rintro value literal hliteral ⟨rest, happend⟩
    obtain ⟨_, _, hsplit, -, hvalue⟩ := hliteral.readString rest
    rw [hrest, ← happend, hsplit, hvalue] at hread
    cases hread
  · rintro text rfl
    obtain ⟨first, behind, hcons, hstart, htext, hnumber⟩ := h
    exact ⟨⟨first, hfirst hcons, hstart⟩, hrest ▸ htext, hnumber⟩
  · intro hstring hnumber
    cases cause with
    | unterminatedString => exact absurd rfl hstring
    | invalidNumber text => exact absurd rfl (hnumber text)
    | _ => exact congrArg (fun c : Cursor => c.mark.offset) h

/-- The line of an error is one more than the newlines in front of the place where it is shown, its
column one more than the characters behind the last of these. -/
theorem read_places_fault {source : String} {line column : Nat} {message : String}
    (h : read source = .error (.parse line column message)) :
    ∃ cause shown reached, Cursor.read source = .error (.fault cause shown reached) ∧
      message = cause.message ∧
      IsFaultPlace source.toList cause reached.mark.offset shown.mark.offset ∧
      line = 1 + (source.toList.take shown.mark.offset).count '\n' ∧
      column =
        1 + ((source.toList.take shown.mark.offset).reverse.takeWhile (· ≠ '\n')).length := by
  rw [read_eq_cursor, Cursor.read] at h
  rw [Cursor.read]
  rcases (Cursor.agrees_run .empty (.start source.toList)).cases with
    ⟨e, e', -, htracked, hstops⟩ | ⟨items, _, -, htracked, -⟩
  · rw [htracked] at h ⊢
    cases hstops with
    | @fault cause shown reached hshown hreached his =>
      obtain ⟨-, -, hplace, -⟩ := Cursor.mark_of_leadsTo hshown
      rw [Position.after_eq] at hplace
      have herror : Halt.error (.fault cause shown reached) = .parse line column message := by
        cases h
        rfl
      cases herror
      exact ⟨cause, shown, reached, rfl, rfl, isFaultPlace_of_isShown hshown hreached his,
        congrArg Position.line hplace, congrArg Position.column hplace⟩
    | tooDeep => cases h
  · rw [htracked] at h
    cases h

/-- A string on the second line that does not end. -/
def unclosedSource : String :=
  "p \x7b\n  b `x"

theorem read_places_fault_unclosedSource :
    ∃ shown reached, read unclosedSource = .error (.parse 2 5 "unterminated string literal") ∧
      Cursor.read unclosedSource = .error (.fault .unterminatedString shown reached) ∧
      shown.mark.offset = 8 ∧ reached.mark.offset = 10 ∧
      IsFaultPlace unclosedSource.toList .unterminatedString 10 8 := by
  have hread : (match read unclosedSource with
      | .error (.parse line column message) => some (line, column, message)
      | _ => none) = some (2, 5, "unterminated string literal") := by
    decide +kernel
  have hcursor : (match Cursor.read unclosedSource with
      | .error (.fault cause shown reached) =>
        some (cause, shown.mark.offset, reached.mark.offset)
      | _ => none) = some (.unterminatedString, 8, 10) := by
    decide +kernel
  have herror : read unclosedSource = .error (.parse 2 5 "unterminated string literal") := by
    split at hread
    · rename_i heq
      rw [heq]
      cases hread
      rfl
    · cases hread
  obtain ⟨cause, shown, reached, htracked, -, hplace, -, -⟩ := read_places_fault herror
  rw [htracked] at hcursor
  obtain ⟨rfl, hshown, hreached⟩ : cause = .unterminatedString ∧ shown.mark.offset = 8 ∧
      reached.mark.offset = 10 := by
    simpa using hcursor
  rw [hshown, hreached] at hplace
  exact ⟨shown, reached, herror, htracked, hshown, hreached, hplace⟩

end ChatMarkup.Source

import ChatMarkup.Proofs.Source.Lexeme

/-!
# Reading with a cursor

The readers of markup source once more, each with a cursor that passes over one character after the
other and counts offset, line and column on the way. A reader that stops says two things: where the
fault is shown, and how far it had come. A string that does not end is shown where it starts, and a
numeral that is none as well; any other fault is shown where the reader stands.

* `Agrees`, `Reads`: a reader and its counterpart with a cursor come to the same end;
* `Cursor.reads_readString`, `Cursor.reads_readNumber`, `Cursor.reads_readCall`, … : they do so for
  every token.
-/

namespace ChatMarkup.Source

/-- How far a text has been read: the number of characters passed, and line and column behind
them. -/
structure Mark where
  offset : Nat
  place : Position

namespace Mark

def start : Mark := ⟨0, .start⟩

/-- Behind one more character. -/
def next (m : Mark) (c : Char) : Mark := ⟨m.offset + 1, m.place.next c⟩

/-- Behind some more characters. -/
def advance (m : Mark) (passed : List Char) : Mark :=
  passed.foldl next m

theorem advance_append (m : Mark) (xs ys : List Char) :
    m.advance (xs ++ ys) = (m.advance xs).advance ys :=
  List.foldl_append

theorem advance_eq (m : Mark) (passed : List Char) :
    m.advance passed = ⟨m.offset + passed.length, passed.foldl Position.next m.place⟩ := by
  induction passed generalizing m with
  | nil => rfl
  | cons c passed ih =>
    rw [advance, List.foldl_cons, ← advance, ih, List.length_cons, List.foldl_cons, next]
    simp only [Mark.mk.injEq, and_true]
    omega

end Mark

/-- A reader on its way: how far it has come, and what is left. -/
structure Cursor where
  mark : Mark
  rest : List Char

/-- Why a reader on its way stops: for a fault, with the place where it is shown and the place that
the reader has come to, or for a nesting that is too deep. -/
inductive Halt where
  | fault (cause : Fault) (shown reached : Cursor)
  | tooDeep

/-- What a reader on its way answers: a value and where it has come to, or why it stopped. -/
abbrev Tracking (α : Type) := Except Halt (α × Cursor)

/-- Stops at a fault that is shown where the reader stands. -/
def halt {α : Type} (cause : Fault) (c : Cursor) : Except Halt α :=
  .error (.fault cause c c)

namespace Cursor

def start (source : List Char) : Cursor := ⟨.start, source⟩

/-- One place is behind another: what is between them has been passed over. -/
def LeadsTo (c d : Cursor) : Prop :=
  ∃ passed, c.rest = passed ++ d.rest ∧ d.mark = c.mark.advance passed

theorem leadsTo_refl (c : Cursor) : c.LeadsTo c := ⟨[], rfl, rfl⟩

theorem LeadsTo.trans {c d e : Cursor} (h : c.LeadsTo d) (h' : d.LeadsTo e) : c.LeadsTo e := by
  obtain ⟨xs, hrest, hmark⟩ := h
  obtain ⟨ys, hrest', hmark'⟩ := h'
  exact ⟨xs ++ ys, by rw [hrest, hrest', List.append_assoc], by
    rw [hmark', hmark, Mark.advance_append]⟩

theorem leadsTo_next (m : Mark) (c : Char) (rest : List Char) :
    LeadsTo ⟨m, c :: rest⟩ ⟨m.next c, rest⟩ :=
  ⟨[c], rfl, rfl⟩

theorem LeadsTo.offset_le {c d : Cursor} (h : c.LeadsTo d) : c.mark.offset ≤ d.mark.offset := by
  obtain ⟨passed, -, hmark⟩ := h
  rw [hmark, Mark.advance_eq]
  exact Nat.le_add_right _ _

theorem LeadsTo.length_le {c d : Cursor} (h : c.LeadsTo d) : d.rest.length ≤ c.rest.length := by
  obtain ⟨passed, hrest, -⟩ := h
  rw [hrest, List.length_append]
  omega

end Cursor

/-! ## Agreement -/

/-- Where a fault is shown: a string that does not end at its opening quote, with everything behind
it read, a numeral that is none at its first character, and any other fault where the reader has
come to. -/
def IsShown (shown reached : Cursor) : Fault → Prop
  | .unterminatedString =>
    reached.rest = [] ∧ ∃ quote ∈ literalQuotes, ∃ behind, shown.rest = quote :: behind ∧
      readString shown.rest = stop .unterminatedString shown.rest
  | .invalidNumber text =>
    ∃ first behind, shown.rest = first :: behind ∧ Start.of first = .number ∧
      text = (splitNumeral shown.rest).1 ∧ Number.read? text = none
  | _ => shown = reached

/-- A reader and its counterpart that starts at a cursor stop alike: for the same fault, shown at
the same place. -/
inductive Stops (c : Cursor) : Stop → Halt → Prop
  | fault {cause : Fault} {shown reached : Cursor} : c.LeadsTo shown → shown.LeadsTo reached →
      IsShown shown reached cause →
      Stops c (.fault cause shown.rest) (.fault cause shown reached)
  | tooDeep : Stops c .tooDeep .tooDeep

/-- They come to results that belong together, or stop alike. -/
inductive Agrees (c : Cursor) {α β : Type} (R : α → β → Prop) :
    Except Stop α → Except Halt β → Prop
  | ok {a : α} {b : β} : R a b → Agrees c R (.ok a) (.ok b)
  | error {e : Stop} {e' : Halt} : Stops c e e' → Agrees c R (.error e) (.error e')

/-- The same value, and what is left behind it. -/
inductive Follows (c : Cursor) {α : Type} : α × List Char → α × Cursor → Prop
  | intro {a : α} {d : Cursor} : c.LeadsTo d → Follows c (a, d.rest) (a, d)

/-- A reader of a value and its counterpart agree. -/
abbrev Reads (c : Cursor) {α : Type} (plain : Reading α) (tracked : Tracking α) : Prop :=
  Agrees c (Follows c) plain tracked

section Agreement

variable {c d : Cursor} {α β : Type} {R S : α → β → Prop}

theorem Stops.behind (h : c.LeadsTo d) {e : Stop} {e' : Halt} (hstops : Stops d e e') :
    Stops c e e' := by
  cases hstops with
  | fault hshown hreached his => exact .fault (h.trans hshown) hreached his
  | tooDeep => exact .tooDeep

theorem Agrees.behind {plain : Except Stop α} {tracked : Except Halt β} (h : c.LeadsTo d)
    (hagrees : Agrees d R plain tracked) (hRS : ∀ a b, R a b → S a b) :
    Agrees c S plain tracked := by
  cases hagrees with
  | ok hab => exact .ok (hRS _ _ hab)
  | error hstops => exact .error (hstops.behind h)

theorem Reads.behind {plain : Reading α} {tracked : Tracking α} (h : c.LeadsTo d)
    (hreads : Reads d plain tracked) : Reads c plain tracked := by
  refine Agrees.behind h hreads ?_
  rintro _ _ ⟨hlead⟩
  exact ⟨h.trans hlead⟩

theorem Agrees.cases {plain : Except Stop α} {tracked : Except Halt β}
    (h : Agrees c R plain tracked) :
    (∃ e e', plain = .error e ∧ tracked = .error e' ∧ Stops c e e') ∨
      ∃ a b, plain = .ok a ∧ tracked = .ok b ∧ R a b := by
  cases h with
  | ok hab => exact .inr ⟨_, _, rfl, rfl, hab⟩
  | error hstops => exact .inl ⟨_, _, rfl, rfl, hstops⟩

theorem Reads.cases {plain : Reading α} {tracked : Tracking α} (h : Reads c plain tracked) :
    (∃ e e', plain = .error e ∧ tracked = .error e' ∧ Stops c e e') ∨
      ∃ a d, plain = .ok (a, d.rest) ∧ tracked = .ok (a, d) ∧ c.LeadsTo d := by
  rcases Agrees.cases h with hstop | ⟨_, _, hplain, htracked, ⟨hlead⟩⟩
  · exact .inl hstop
  · exact .inr ⟨_, _, hplain, htracked, hlead⟩

/-- Where the reader with a cursor comes to a result, the plain one does. -/
theorem Agrees.of_ok {plain : Except Stop α} {tracked : Except Halt β}
    (h : Agrees c R plain tracked) {b : β} (htracked : tracked = .ok b) :
    ∃ a, plain = .ok a ∧ R a b := by
  subst htracked
  cases h with
  | ok hab => exact ⟨_, rfl, hab⟩

theorem Reads.of_ok {plain : Reading α} {tracked : Tracking α} (h : Reads c plain tracked) {a : α}
    (htracked : tracked = .ok (a, d)) : plain = .ok (a, d.rest) ∧ c.LeadsTo d := by
  obtain ⟨_, hplain, ⟨hlead⟩⟩ := Agrees.of_ok h htracked
  exact ⟨hplain, hlead⟩

theorem Agrees.of_error {plain : Except Stop α} {tracked : Except Halt β}
    (h : Agrees c R plain tracked) {e' : Halt} (htracked : tracked = .error e') :
    ∃ e, plain = .error e ∧ Stops c e e' := by
  subst htracked
  cases h with
  | error hstops => exact ⟨_, rfl, hstops⟩

/-- A fault that is shown where the reader stands. -/
theorem agrees_halt (h : c.LeadsTo d) {rest : List Char} (hrest : d.rest = rest) {cause : Fault}
    (his : IsShown d d cause) : Agrees c R (stop cause rest) (halt cause d) :=
  hrest ▸ .error (.fault h (Cursor.leadsTo_refl d) his)

end Agreement

namespace Cursor

/-! ## Strings -/

/-- Reads `count` hexadecimal digits behind those with value `acc`. -/
def readHex : (count : Nat) → (acc : Nat) → Mark → List Char → Tracking Nat
  | 0, acc, m, cs => .ok (acc, ⟨m, cs⟩)
  | _ + 1, _, m, [] => halt .invalidEscape ⟨m, []⟩
  | count + 1, acc, m, c :: rest =>
    match hexDigit? c with
    | some digit => readHex count (16 * acc + digit) (m.next c) rest
    | none => halt .invalidEscape ⟨m.next c, rest⟩

/-- Reads the digits of a `\u` escape, and a second such escape behind a high surrogate. -/
def readUnicodeEscape (c : Cursor) : Tracking Char :=
  match readHex 4 0 c.mark c.rest with
  | .error e => .error e
  | .ok (code, d) =>
    match isHighSurrogate code, d.rest with
    | true, '\\' :: 'u' :: behind =>
      match readHex 4 0 ((d.mark.next '\\').next 'u') behind with
      | .error e => .error e
      | .ok (low, d) =>
        match scalarOfNat? (joinSurrogates code low) with
        | some c => .ok (c, d)
        | none => halt .invalidSurrogatePair d
    | _, _ => .ok ((scalarOfNat? code).getD '\ufffd', d)

theorem reads_readHex (count acc : Nat) (m : Mark) (cs : List Char) :
    Reads ⟨m, cs⟩ (Source.readHex count acc cs) (readHex count acc m cs) := by
  induction count generalizing acc m cs with
  | zero => exact .ok ⟨leadsTo_refl ⟨m, cs⟩⟩
  | succ count ih =>
    cases cs with
    | nil => exact agrees_halt (leadsTo_refl ⟨m, []⟩) rfl rfl
    | cons c rest =>
      rw [Source.readHex, readHex]
      cases hexDigit? c with
      | none => exact agrees_halt (leadsTo_next m c rest) rfl rfl
      | some digit => exact (ih _ _ _).behind (leadsTo_next m c rest)

theorem reads_readUnicodeEscape (c : Cursor) :
    Reads c (Source.readUnicodeEscape c.rest) c.readUnicodeEscape := by
  rcases (reads_readHex 4 0 c.mark c.rest).cases with
    ⟨e, e', hplain, htracked, hstops⟩ | ⟨code, d, hcode, htracked, hlead⟩
  · rw [Source.readUnicodeEscape, readUnicodeEscape, hplain, htracked]
    exact .error hstops
  rw [readUnicodeEscape, htracked]
  obtain ⟨m, rest⟩ := d
  dsimp only
  split
  · rename_i behind hhigh
    have hbehind : c.LeadsTo ⟨(m.next '\\').next 'u', behind⟩ :=
      hlead.trans ((leadsTo_next m '\\' ('u' :: behind)).trans (leadsTo_next _ 'u' behind))
    rw [readUnicodeEscape_second hcode hhigh]
    rcases ((reads_readHex 4 0 ((m.next '\\').next 'u') behind).behind hbehind).cases with
      ⟨e, e', hplain, htracked, hstops⟩ | ⟨low, d, hplain, htracked, hlead⟩
    · rw [hplain, htracked]
      exact .error hstops
    rw [hplain, htracked]
    dsimp only [Except.bind]
    cases scalarOfNat? (joinSurrogates code low) with
    | none => exact agrees_halt hlead rfl rfl
    | some char => exact .ok ⟨hlead⟩
  · rename_i hsingle
    rw [readUnicodeEscape_single hcode hsingle]
    exact .ok ⟨hlead⟩

theorem length_readUnicodeEscape_le {c d : Cursor} {char : Char}
    (h : c.readUnicodeEscape = .ok (char, d)) : d.rest.length ≤ c.rest.length :=
  ((reads_readUnicodeEscape c).of_ok h).2.length_le

/-- Reads the rest of a string up to its closing quote, behind a part with the characters `acc`,
last first; `opening` is the place of the opening quote. -/
def readStringTail (quote : Char) (opening : Cursor) (acc : List Char) (m : Mark)
    (cs : List Char) : Tracking (List Char) :=
  match cs with
  | [] => .error (.fault .unterminatedString opening ⟨m, []⟩)
  | c :: rest =>
    if c = quote then .ok (acc.reverse, ⟨m.next c, rest⟩)
    else if c = '\\' then
      match rest with
      | [] => .error (.fault .unterminatedString opening ⟨m.next c, []⟩)
      | 'u' :: digits =>
        match _hread : readUnicodeEscape ⟨(m.next c).next 'u', digits⟩ with
        | .ok (c, d) => readStringTail quote opening (c :: acc) d.mark d.rest
        | .error e => .error e
      | e :: rest =>
        readStringTail quote opening ((unescape e).reverse ++ acc) ((m.next c).next e) rest
    else readStringTail quote opening (c :: acc) (m.next c) rest
termination_by cs.length
decreasing_by
  · have hle := length_readUnicodeEscape_le _hread
    simp only [List.length_cons] at hle ⊢
    omega
  · simp only [List.length_cons]
    omega
  · simp only [List.length_cons]
    omega

/-- Reads a string with its quotes; the first character is the opening quote. -/
def readString (c : Cursor) : Tracking String :=
  match c.rest with
  | [] => halt .expectedString c
  | quote :: rest =>
    match readStringTail quote c [] (c.mark.next quote) rest with
    | .ok (value, d) => .ok (String.ofList value, d)
    | .error e => .error e

/-- The rest of a string agrees, behind any part of it that has been read from its opening quote
on. -/
theorem reads_readStringTail {quote : Char} {opening : Cursor} {behind acc cs : List Char}
    {m : Mark} (hquote : quote ∈ literalQuotes) (hopening : opening.rest = quote :: behind) :
    opening.LeadsTo ⟨m, cs⟩ →
    Source.readString opening.rest =
      (Source.readStringTail quote opening.rest acc cs).map String.ofList →
    Reads opening (Source.readStringTail quote opening.rest acc cs)
      (readStringTail quote opening acc m cs) := by
  -- What stands between the opening quote and here is told by the second hypothesis: the whole
  -- string is read as its rest is, so that where the rest does not end, the string does not.
  fun_induction readStringTail quote opening acc m cs with
  | case1 =>
    intro hlead hread
    rw [Source.readStringTail] at hread ⊢
    exact .error (.fault (leadsTo_refl opening) hlead
      ⟨rfl, quote, hquote, behind, hopening, hread⟩)
  | case2 =>
    intro hlead _
    rw [readStringTail_close]
    exact .ok ⟨hlead.trans (leadsTo_next _ _ _)⟩
  | case3 _ _ hslash =>
    intro hlead hread
    rw [readStringTail_slash hslash] at hread ⊢
    exact .error (.fault (leadsTo_refl opening) (hlead.trans (leadsTo_next _ _ _))
      ⟨rfl, quote, hquote, behind, hopening, hread⟩)
  | case4 acc m digits c d hslash hescape ih =>
    intro hlead hread
    have hdigits := hlead.trans ((leadsTo_next m '\\' _).trans (leadsTo_next _ 'u' digits))
    obtain ⟨hplain, hd⟩ := ((reads_readUnicodeEscape _).behind hdigits).of_ok hescape
    rw [readStringTail_unicode hslash hplain] at hread ⊢
    exact ih hd hread
  | case5 acc m digits e' hslash hescape =>
    intro hlead hread
    have hdigits := hlead.trans ((leadsTo_next m '\\' _).trans (leadsTo_next _ 'u' digits))
    obtain ⟨e, hplain, hstops⟩ := ((reads_readUnicodeEscape _).behind hdigits).of_error hescape
    rw [readStringTail_unicode_error hslash hplain]
    exact .error hstops
  | case6 _ _ _ _ hu hslash ih =>
    intro hlead hread
    rw [readStringTail_escape hslash hu] at hread ⊢
    exact ih (hlead.trans ((leadsTo_next _ _ _).trans (leadsTo_next _ _ _))) hread
  | case7 _ _ _ _ hclose hslash ih =>
    intro hlead hread
    rw [readStringTail_plain hclose hslash] at hread ⊢
    exact ih (hlead.trans (leadsTo_next _ _ _)) hread

/-- Reading a string agrees wherever a quote stands. -/
theorem reads_readString {c : Cursor} {quote : Char} {behind : List Char}
    (hquote : quote ∈ literalQuotes) (hc : c.rest = quote :: behind) :
    Reads c (Source.readString c.rest) c.readString := by
  have hlead : c.LeadsTo ⟨c.mark.next quote, behind⟩ := ⟨[quote], hc, rfl⟩
  have hread : Source.readString c.rest =
      (Source.readStringTail quote c.rest [] behind).map String.ofList := by
    rw [hc, Source.readString]
    cases Source.readStringTail quote (quote :: behind) [] behind <;> rfl
  rw [hread, readString, hc]
  dsimp only
  rw [← hc]
  rcases (reads_readStringTail hquote hc hlead hread).cases with
    ⟨e, e', hplain, htracked, hstops⟩ | ⟨value, d, hplain, htracked, hd⟩
  · rw [hplain, htracked]
    exact .error hstops
  · rw [hplain, htracked]
    exact .ok ⟨hd⟩

/-! ## Trivia -/

/-- Passes over blanks and comments; `inComment` tells whether it starts inside a comment. -/
def skipTriviaFrom (inComment : Bool) (m : Mark) : List Char → Cursor
  | [] => ⟨m, []⟩
  | c :: rest =>
    if inComment then skipTriviaFrom (c ≠ '\n') (m.next c) rest
    else if isBlank c then skipTriviaFrom false (m.next c) rest
    else if c = '/' && rest.head? = some '/' then skipTriviaFrom true (m.next c) rest
    else ⟨m, c :: rest⟩

def skipTrivia (c : Cursor) : Cursor :=
  skipTriviaFrom false c.mark c.rest

theorem skipTriviaFrom_spec (inComment : Bool) (m : Mark) (cs : List Char) :
    (skipTriviaFrom inComment m cs).rest = Source.skipTriviaFrom inComment cs ∧
      LeadsTo ⟨m, cs⟩ (skipTriviaFrom inComment m cs) := by
  induction cs generalizing inComment m with
  | nil => exact ⟨rfl, leadsTo_refl _⟩
  | cons c rest ih =>
    rw [skipTriviaFrom, Source.skipTriviaFrom]
    split
    · exact (ih _ _).imp id (leadsTo_next m c rest).trans
    · split
      · exact (ih _ _).imp id (leadsTo_next m c rest).trans
      · split
        · exact (ih _ _).imp id (leadsTo_next m c rest).trans
        · exact ⟨rfl, leadsTo_refl _⟩

@[simp] theorem rest_skipTrivia (c : Cursor) : c.skipTrivia.rest = Source.skipTrivia c.rest :=
  (skipTriviaFrom_spec false c.mark c.rest).1

theorem leadsTo_skipTrivia (c : Cursor) : c.LeadsTo c.skipTrivia :=
  (skipTriviaFrom_spec false c.mark c.rest).2

/-! ## Numerals and identifiers -/

/-- Behind some characters in front. -/
def pass (c : Cursor) (passed rest : List Char) : Cursor :=
  ⟨c.mark.advance passed, rest⟩

theorem leadsTo_pass {c : Cursor} {passed rest : List Char} (h : c.rest = passed ++ rest) :
    c.LeadsTo (c.pass passed rest) :=
  ⟨passed, h, rfl⟩

/-- Reads a numeral with its sign; a fault is shown in front of it. -/
def readNumber (c : Cursor) : Tracking Number :=
  let behind := c.pass (splitNumeral c.rest).1 (splitNumeral c.rest).2
  match Number.read? (splitNumeral c.rest).1 with
  | some x => .ok (x, behind)
  | none => .error (.fault (.invalidNumber (splitNumeral c.rest).1) c behind)

theorem reads_readNumber {c : Cursor} {first : Char} {behind : List Char}
    (hfirst : Start.of first = .number) (hc : c.rest = first :: behind) :
    Reads c (Source.readNumber c.rest) c.readNumber := by
  have hlead : c.LeadsTo (c.pass (splitNumeral c.rest).1 (splitNumeral c.rest).2) :=
    leadsTo_pass (splitNumeral_append c.rest).symm
  rw [Source.readNumber, readNumber]
  cases hnumber : Number.read? (splitNumeral c.rest).1 with
  | some x => exact .ok (.intro hlead)
  | none =>
    exact .error (.fault (leadsTo_refl c) hlead ⟨first, behind, hc, hfirst, rfl, hnumber⟩)

/-- Reads an identifier. -/
def readIdentifier (c : Cursor) : Tracking String :=
  match c.rest with
  | [] => halt .expectedIdentifier c
  | first :: rest =>
    if isIdentifierStart first then
      .ok (String.ofList (first :: rest.takeWhile isIdentifierChar),
        c.pass (first :: rest.takeWhile isIdentifierChar) (rest.dropWhile isIdentifierChar))
    else halt .expectedIdentifier c

theorem reads_readIdentifier (c : Cursor) :
    Reads c (Source.readIdentifier c.rest) c.readIdentifier := by
  obtain ⟨m, cs⟩ := c
  cases cs with
  | nil => exact agrees_halt (leadsTo_refl ⟨m, []⟩) rfl rfl
  | cons first rest =>
    rw [Source.readIdentifier, readIdentifier]
    dsimp only
    split
    · have hpass : Cursor.rest ⟨m, first :: rest⟩ = (first :: rest.takeWhile isIdentifierChar) ++
          rest.dropWhile isIdentifierChar := by
        rw [List.cons_append, List.takeWhile_append_dropWhile]
      exact .ok ⟨leadsTo_pass hpass⟩
    · exact agrees_halt (leadsTo_refl ⟨m, first :: rest⟩) rfl rfl

/-! ## Calls -/

/-- Reads the rest of a call up to the parenthesis that closes it. -/
def readCallTail (acc : List Char) (quote : Option Char) (depth : Nat) (m : Mark) :
    List Char → Tracking (List Char)
  | [] => halt .unterminatedCall ⟨m, []⟩
  | c :: rest =>
    match quote with
    | some q =>
      if c = '\\' then
        match rest with
        | [] => halt .unterminatedCall ⟨m.next c, []⟩
        | next :: rest => readCallTail (next :: c :: acc) (some q) depth ((m.next c).next next) rest
      else readCallTail (c :: acc) (if c = q then none else some q) depth (m.next c) rest
    | none =>
      if c = '"' ∨ c = '`' ∨ c = '\'' then readCallTail (c :: acc) (some c) depth (m.next c) rest
      else if c = '(' then readCallTail (c :: acc) none (depth + 1) (m.next c) rest
      else if c = ')' then
        match depth with
        | 0 => halt .unbalancedCall ⟨m.next c, rest⟩
        | 1 => .ok ((c :: acc).reverse, ⟨m.next c, rest⟩)
        | depth + 2 => readCallTail (c :: acc) none (depth + 1) (m.next c) rest
      else readCallTail (c :: acc) none depth (m.next c) rest

/-- Reads a call, verbatim; the first character is its opening parenthesis. -/
def readCall (c : Cursor) : Tracking (List Char) :=
  readCallTail [] none 0 c.mark c.rest

theorem reads_readCallTail (acc : List Char) (quote : Option Char) (depth : Nat) (m : Mark)
    (cs : List Char) :
    Reads ⟨m, cs⟩ (Source.readCallTail acc quote depth cs) (readCallTail acc quote depth m cs) := by
  fun_induction readCallTail acc quote depth m cs with
  | case1 _ _ _ m => exact agrees_halt (leadsTo_refl ⟨m, []⟩) rfl rfl
  | case2 => exact agrees_halt (leadsTo_next _ _ _) rfl rfl
  | case3 _ _ _ _ _ _ ih =>
    rw [Source.readCallTail.eq_def]
    dsimp only
    rw [if_pos rfl]
    exact ih.behind ((leadsTo_next _ _ _).trans (leadsTo_next _ _ _))
  | case4 _ _ _ _ _ _ hslash ih =>
    rw [Source.readCallTail.eq_def]
    dsimp only
    rw [if_neg hslash]
    exact ih.behind (leadsTo_next _ _ _)
  | case5 _ _ _ _ _ hquote ih =>
    rw [Source.readCallTail.eq_def]
    dsimp only
    rw [if_pos hquote]
    exact ih.behind (leadsTo_next _ _ _)
  | case6 _ _ _ _ hquote ih =>
    rw [Source.readCallTail.eq_def]
    dsimp only
    rw [if_neg hquote, if_pos rfl]
    exact ih.behind (leadsTo_next _ _ _)
  | case7 => exact agrees_halt (leadsTo_next _ _ _) rfl rfl
  | case8 => exact .ok ⟨leadsTo_next _ _ _⟩
  | case9 _ _ _ _ hquote hopen ih =>
    rw [Source.readCallTail, if_neg hquote, if_neg hopen, if_pos rfl]
    exact ih.behind (leadsTo_next _ _ _)
  | case10 _ _ _ _ _ hquote hopen hclose ih =>
    rw [Source.readCallTail.eq_def]
    dsimp only
    rw [if_neg hquote, if_neg hopen, if_neg hclose]
    exact ih.behind (leadsTo_next _ _ _)

theorem reads_readCall (c : Cursor) : Reads c (Source.readCall c.rest) c.readCall :=
  reads_readCallTail [] none 0 c.mark c.rest

end Cursor

end ChatMarkup.Source

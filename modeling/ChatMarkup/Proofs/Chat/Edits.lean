import ChatMarkup.Proofs.Chat.Stored
import ChatMarkup.Proofs.Tree.Place

/-!
# Edits that are kept whole or not at all

An edit of a message first makes the text that is to be kept, from an edited page or from other code
in a block, and that may fail. Then nothing has been asked of the world. Otherwise the message is
edited once, and the chat is refreshed once if that has succeeded; a room gives the text to the first
message with the id, and to no other.

* `PageEdit`, `CodeEdit`: what the text of an edit comes to, or why there is none;
* `Room.edit?_eq_some_iff`: an edit changes the text of one message;
* `Session.edits_whole`: both ways to edit a message, in every world.
-/

namespace ChatMarkup

open Source

/-! ## The text of an edit -/

/-- What the text of an edited page comes to: its source, if that is made and can be read. -/
inductive PageEdit (page : String) : Except ChatError String → Prop
  | notImported {e : MarkupError} : Html.importPage .default page = .error e →
      PageEdit page (.error (.markup e))
  | unreadable {source : String} {e : MarkupError} : Html.importPage .default page = .ok source →
      read source = .error e → PageEdit page (.error (.markup e))
  | ready {source : String} {tree : Node} : Html.importPage .default page = .ok source →
      read source = .ok tree → PageEdit page (.ok source)

/-- A code element with this text. -/
def codeElement (id : Nat) (attributes : Option (List Attribute)) (code : String) : Node :=
  .element .code id attributes (some (.block [.string code]))

/-- What a message with other code in a block comes to: the source of its tree with this code in the
place of the element, if the number is that of a code element and the tree can be written. -/
inductive CodeEdit (message : Message) (id : Nat) (code : String) : Except ChatError String → Prop
  | unreadable {e : MarkupError} : read message.text = .error e →
      CodeEdit message id code (.error (.markup e))
  | noBlock {tree : Node} : read message.text = .ok tree →
      (∀ node, tree.findNode id = some node → node.isCode = false) →
      CodeEdit message id code (.error (.unknownNode id "code"))
  | unwritable {tree : Node} {place : Node.Place} {attributes : Option (List Attribute)}
      {body : Option Node} {e : MarkupError} : read message.text = .ok tree →
      tree.Selects id place (.element .code id attributes body) ⟨id, attributes, body⟩ →
      write (place.fill (codeElement id attributes code)) = .error e →
      CodeEdit message id code (.error (.markup e))
  | ready {tree : Node} {place : Node.Place} {attributes : Option (List Attribute)}
      {body : Option Node} {source : String} : read message.text = .ok tree →
      tree.Selects id place (.element .code id attributes body) ⟨id, attributes, body⟩ →
      write (place.fill (codeElement id attributes code)) = .ok source →
      CodeEdit message id code (.ok source)

/-! ## Rooms -/

/-- The messages before and after the first one with an id got another text. -/
inductive EditsFirst (id text : String) : List Message → List Message → Prop
  | edit (before : List Message) {message : Message} (later : List Message) :
      (∀ other ∈ before, other.id ≠ id) → message.id = id →
      EditsFirst id text (before ++ message :: later)
        (before ++ { message with text := text } :: later)

/-- A world that does what it is asked of its room, or refuses it. -/
def World.Storing (world : World) : Prop :=
  ∀ past call room next, world.host past call room = .ok next → room.perform call = .ok next

namespace Room

theorem edit?_eq_none_iff {id text : String} {messages : List Message} :
    edit? id text messages = none ↔ ∀ message ∈ messages, message.id ≠ id := by
  have hsome := isSome_edit? id text messages
  rw [← Option.isSome_eq_false_iff.trans Option.isNone_iff_eq_none, hsome]
  simp

/-- An edit changes the text of the first message with its id and nothing else. -/
theorem edit?_eq_some_iff {id text : String} {messages edited : List Message} :
    edit? id text messages = some edited ↔ EditsFirst id text messages edited := by
  constructor
  · intro h
    induction messages generalizing edited with
    | nil => cases h
    | cons first messages ih =>
      rw [edit?] at h
      split at h
      · rename_i hfirst
        cases h
        exact .edit [] messages (List.forall_mem_nil _) hfirst
      · rename_i hfirst
        obtain ⟨rest, hrest, rfl⟩ := Option.map_eq_some_iff.mp h
        obtain ⟨before, later, hbefore, hid⟩ := ih hrest
        exact .edit (first :: _) later (List.forall_mem_cons.mpr ⟨hfirst, hbefore⟩) hid
  · rintro ⟨before, later, hbefore, hid⟩
    rename_i message
    induction before with
    | nil => rw [List.nil_append, edit?, if_pos hid, List.nil_append]
    | cons first before ih =>
      rw [List.forall_mem_cons] at hbefore
      rw [List.cons_append, edit?, if_neg hbefore.1, ih hbefore.2]
      rfl

end Room

/-! ## Keeping the text -/

/-- The calls that keep a text, and the answer: nothing is asked after a call that has failed, and
the answer is the text if none has. -/
inductive Keeps (id source : String) : List Exchange → Except ChatError String → Prop
  | refused (e : ChatError) : Keeps id source [.host (.edit id source) (some e)] (.error e)
  | unrefreshed (e : ChatError) :
      Keeps id source [.host (.edit id source) none, .host .refresh (some e)] (.error e)
  | kept : Keeps id source [.host (.edit id source) none, .host .refresh none] (.ok source)

/-- A room before and after a text was kept in it. -/
structure RoomKeeps (id source : String) (xs : List Exchange) (room last : Room) : Prop where
  edited : .host (.edit id source) none ∈ xs →
    EditsFirst id source room.messages last.messages ∧ last.sent = room.sent
  refused : .host (.edit id source) none ∉ xs → last = room
  /-- An id that no message has changes nothing. -/
  unknown : (∀ message ∈ room.messages, message.id ≠ id) → last = room

/-- How a text is kept. -/
structure KeepsText (world : World) (state : ChatState) (id source : String)
    (result : Except ChatError String) (after : ChatState) : Prop where
  tables : after.tables = state.tables
  calls : ∃ xs, Told world state xs after ∧ Keeps id source xs result ∧
    (world.Storing → RoomKeeps id source xs state.room after.room)
  /-- A room that refuses nothing keeps the text of a message that is stored. -/
  known : world.Keeping → ∀ message ∈ state.room.messages, message.id = id → result = .ok source

/-- An edit is kept as its text comes to, or nothing is asked and nothing changes. -/
structure KeepsWhole (world : World) (state : ChatState) (id : String)
    (text result : Except ChatError String) (after : ChatState) : Prop where
  failed : ∀ e, text = .error e → result = .error e ∧ after = state
  kept : ∀ source, text = .ok source → KeepsText world state id source result after

/-- An edit that a storing world has done has changed the first message with the id. -/
theorem World.Storing.edited {world : World} (h : world.Storing) {past : List Event}
    {id text : String} {room next : Room} (hnext : world.host past (.edit id text) room = .ok next) :
    EditsFirst id text room.messages next.messages ∧ next.sent = room.sent := by
  have hperform := h _ _ _ _ hnext
  rw [Room.perform] at hperform
  split at hperform
  · rename_i edited hedited
    cases hperform
    exact ⟨Room.edit?_eq_some_iff.mp hedited, rfl⟩
  · cases hperform

theorem EditsFirst.exists_mem {id text : String} {messages edited : List Message}
    (h : EditsFirst id text messages edited) : ∃ message ∈ messages, message.id = id := by
  obtain ⟨before, later, -, hid⟩ := h
  exact ⟨_, by simp, hid⟩

/-- What is given back is what was to be kept. -/
theorem KeepsWhole.ready {world : World} {state after : ChatState} {id source : String}
    {text : Except ChatError String} (h : KeepsWhole world state id text (.ok source) after) :
    text = .ok source := by
  cases text with
  | error e => nomatch (h.failed e rfl).1
  | ok kept =>
    obtain ⟨xs, -, hkeeps, -⟩ := (h.kept kept rfl).calls
    cases hkeeps
    rfl

namespace Session

variable {world : World} {state : ChatState}

theorem perform_saveText (id source : String) (world : World) (state : ChatState) :
    ∃ result after, (saveText id source).run.perform world state = (result, after) ∧
      KeepsText world state id source result after := by
  cases hedit : world.host state.log (.edit id source) state.room with
  | error e =>
    obtain ⟨hperform, htold⟩ := Act.perform_host_of_error hedit
    refine ⟨_, _, Act.perform_bind_of_error hperform _, rfl, ⟨_, htold, .refused e, fun _ => ?_⟩, ?_⟩
    · exact ⟨by simp, fun _ => rfl, fun _ => rfl⟩
    · -- A room that keeps the message refuses no edit of it.
      intro hkeeping message hmessage hid
      rw [hkeeping, Room.perform] at hedit
      split at hedit
      · cases hedit
      · rename_i hnone
        exact absurd hid (Room.edit?_eq_none_iff.mp hnone message hmessage)
  | ok room =>
    obtain ⟨edited, hperform, htold, hroom, htables⟩ := Act.perform_host_of_ok hedit
    have hstored : ∀ xs, .host (.edit id source) none ∈ xs → ∀ last : Room,
        last.messages = room.messages → last.sent = room.sent → world.Storing →
        RoomKeeps id source xs state.room last := by
      intro xs hmem last hmessages hsent hstoring
      obtain ⟨hfirst, hsame⟩ := hstoring.edited hedit
      refine ⟨fun _ => ⟨hmessages ▸ hfirst, hsent.trans hsame⟩, fun hnot => absurd hmem hnot, ?_⟩
      intro hunknown
      obtain ⟨message, hmessage, hid⟩ := hfirst.exists_mem
      exact absurd hid (hunknown message hmessage)
    cases hrefresh : world.host edited.log .refresh edited.room with
    | error e =>
      obtain ⟨hlast, hasked⟩ := Act.perform_host_of_error hrefresh
      refine ⟨_, _, (Act.perform_bind_of_ok hperform _).trans (Act.perform_bind_of_error hlast _),
        htables, ⟨_, htold.trans hasked, .unrefreshed e, ?_⟩, ?_⟩
      · exact hstored _ (by simp) _ (congrArg Room.messages hroom) (congrArg Room.sent hroom)
      · intro hkeeping
        rw [hkeeping] at hrefresh
        cases hrefresh
    | ok last =>
      obtain ⟨refreshed, hlast, hasked, hroom', htables'⟩ := Act.perform_host_of_ok hrefresh
      refine ⟨_, _, (Act.perform_bind_of_ok hperform _).trans (Act.perform_bind_of_ok hlast _),
        htables'.trans htables, ⟨_, htold.trans hasked, .kept, fun hstoring => ?_⟩,
        fun _ _ _ _ => rfl⟩
      have hdone := hstoring _ _ _ _ hrefresh
      rw [hroom] at hdone
      cases hdone
      exact hstored _ (by simp) _ (by rw [hroom']) (by rw [hroom']) hstoring

/-! ## Both ways to edit a message -/

/-- What is kept once its text is there. -/
theorem keepsWhole_of_ok {id source : String} {result : Except ChatError String} {after : ChatState}
    (h : KeepsText world state id source result after) :
    KeepsWhole world state id (.ok source) result after :=
  ⟨nofun, by rintro _ ⟨⟩; exact h⟩

theorem keepsWhole_of_error (e : ChatError) (id : String) (world : World) (state : ChatState) :
    KeepsWhole world state id (.error e) (.error e) state :=
  ⟨by rintro _ ⟨⟩; exact ⟨rfl, rfl⟩, nofun⟩

theorem perform_saveEdit (id page : String) (world : World) (state : ChatState) :
    ∃ text result after, PageEdit page text ∧
      (saveEdit id page).run.perform world state = (result, after) ∧
      KeepsWhole world state id text result after := by
  cases himport : Html.importPage .default page with
  | error e =>
    exact ⟨_, _, state, .notImported himport,
      Act.perform_bind_of_error (perform_ofMarkup_error himport world state) _,
      keepsWhole_of_error _ id world state⟩
  | ok source =>
    rw [saveEdit, Act.perform_bind_of_ok (perform_ofMarkup himport world state)]
    cases hread : Source.read source with
    | error e =>
      exact ⟨_, _, state, .unreadable himport hread,
        Act.perform_bind_of_error (perform_ofMarkup_error rfl world state) _,
        keepsWhole_of_error _ id world state⟩
    | ok tree =>
      obtain ⟨result, after, hsave, hkeeps⟩ := perform_saveText id source world state
      exact ⟨_, result, after, .ready himport hread,
        (Act.perform_bind_of_ok (perform_ofMarkup rfl world state) _).trans hsave,
        keepsWhole_of_ok hkeeps⟩

/-- Other code comes into the place of the code element that the number leads to. -/
theorem replaceCode?_of_selects {tree : Node} {id : Nat} {place : Node.Place}
    {attributes : Option (List Attribute)} {body : Option Node}
    (h : tree.Selects id place (.element .code id attributes body) ⟨id, attributes, body⟩)
    (code : String) :
    replaceCode? tree id code = some (place.fill (codeElement id attributes code)) := by
  have hcode : (Node.element .code id attributes body).isCode = true := rfl
  rw [replaceCode?, h.findNode_eq, Option.any_some, if_pos hcode, h.updateElement_eq]
  rfl

theorem replaceCode?_eq_none {tree : Node} {id : Nat}
    (h : ∀ node, tree.findNode id = some node → node.isCode = false) (code : String) :
    replaceCode? tree id code = none := by
  rw [replaceCode?, if_neg]
  rw [Option.any_eq_true]
  rintro ⟨node, hnode, hcode⟩
  rw [h node hnode] at hcode
  cases hcode

/-- A number leads to a code element, or to no code. -/
theorem selects_code (tree : Node) (id : Nat) :
    (∃ place attributes body,
      tree.Selects id place (.element .code id attributes body) ⟨id, attributes, body⟩) ∨
      ∀ node, tree.findNode id = some node → node.isCode = false := by
  rcases tree.selects_or_misses id with ⟨place, node, found, hselects, -⟩ | hmisses
  · cases hcode : node.isCode with
    | false =>
      right
      intro other hother
      cases hselects.findNode_eq.symm.trans hother
      exact hcode
    | true =>
      left
      cases node with
      | element tag own attributes body =>
        cases tag <;> try cases hcode
        cases hselects.element?_eq
        obtain rfl : own = id := hselects.id_eq
        exact ⟨place, attributes, body, hselects⟩
      | _ => cases hcode
  · right
    intro node hnode
    cases hmisses.findNode_eq.symm.trans hnode

theorem perform_saveCodeEdit (message : Message) (id : Nat) (code : String) (world : World)
    (state : ChatState) :
    ∃ text result after, CodeEdit message id code text ∧
      (saveCodeEdit message id code).run.perform world state = (result, after) ∧
      KeepsWhole world state message.id text result after := by
  cases hread : Source.read message.text with
  | error e =>
    exact ⟨_, _, state, .unreadable hread,
      Act.perform_bind_of_error (perform_ofMarkup_error hread world state) _,
      keepsWhole_of_error _ message.id world state⟩
  | ok tree =>
    rw [saveCodeEdit, Act.perform_bind_of_ok (perform_ofMarkup hread world state)]
    rcases selects_code tree id with ⟨place, attributes, body, hselects⟩ | hnone
    · rw [replaceCode?_of_selects hselects]
      cases hwrite : Source.write (place.fill (codeElement id attributes code)) with
      | error e =>
        exact ⟨_, _, state, .unwritable hread hselects hwrite,
          Act.perform_bind_of_error (perform_ofMarkup_error hwrite world state) _,
          keepsWhole_of_error _ message.id world state⟩
      | ok source =>
        obtain ⟨result, after, hsave, hkeeps⟩ := perform_saveText message.id source world state
        exact ⟨_, result, after, .ready hread hselects hwrite,
          (Act.perform_bind_of_ok (perform_ofMarkup hwrite world state) _).trans hsave,
          keepsWhole_of_ok hkeeps⟩
    · rw [replaceCode?_eq_none hnone]
      exact ⟨_, _, state, .noBlock hread hnone, rfl, keepsWhole_of_error _ message.id world state⟩

/-- An edited page, and a message with other code in a block, are kept whole or not at all: where
their text fails nothing is asked and nothing changes, and otherwise the message is edited once, with
the text that is answered if nothing fails. -/
theorem edits_whole (world : World) (state : ChatState) :
    (∀ id page, ∃ text result after, PageEdit page text ∧
      (saveEdit id page).run.perform world state = (result, after) ∧
      KeepsWhole world state id text result after) ∧
    ∀ message id code, ∃ text result after, CodeEdit message id code text ∧
      (saveCodeEdit message id code).run.perform world state = (result, after) ∧
      KeepsWhole world state message.id text result after :=
  ⟨fun id page => perform_saveEdit id page world state,
    fun message id code => perform_saveCodeEdit message id code world state⟩

end Session

end ChatMarkup

import ChatMarkup.Proofs.Chat.Reply

/-!
# What a room stores of a reply

A reply is there twice: its stream returns one copy, and the room stores the other, which is pushed
before the stream begins and edited later. An edit changes the text of a message and nothing else,
so that the stored copy has the text of the returned one, or that text as its runs have stamped it,
but goes on streaming.

* `Follows`: a room that does what it is asked, call by call;
* `Follows.message?`: a message that is stored has the text of its last edit;
* `Session.streamReply_stored`: the stored reply, however its stream ends.
-/

namespace ChatMarkup

open Source

/-! ## Rooms that do what they are asked -/

/-- A world whose keeper of messages does what it is asked. -/
def World.Keeping (world : World) : Prop :=
  ∀ past call room, world.host past call room = room.perform call

/-- A room is asked some calls, one after the other: it does what it can, and refuses the rest. -/
inductive Follows : Room → List Exchange → Room → Prop
  | nil (room : Room) : Follows room [] room
  | done {room next last : Room} {call : HostCall} {xs : List Exchange} :
      room.perform call = .ok next → Follows next xs last →
      Follows room (.host call none :: xs) last
  | refused {room last : Room} {call : HostCall} {e : ChatError} {xs : List Exchange} :
      room.perform call = .error e → Follows room xs last →
      Follows room (.host call (some e) :: xs) last
  | exec {room last : Room} {xs : List Exchange} (request : ExecRequest)
      (answer : Except ChatError ExecResult) :
      Follows room xs last → Follows room (.exec request answer :: xs) last
  | action {room last : Room} {xs : List Exchange} (request : ActionRequest)
      (answer : Except ChatError ExecResult) :
      Follows room xs last → Follows room (.action request answer :: xs) last

variable {world : World} {room last : Room} {id : String} {message : Message} {xs : List Exchange}

theorem follows_replay (hkeeps : world.Keeping) (past : List Event) (room : Room)
    (events : List Event) :
    Follows room (world.replay past room events).1 (world.replay past room events).2 := by
  induction events generalizing past room with
  | nil => exact .nil room
  | cons event events ih =>
    rw [World.replay]
    cases event with
    | shown blocks => exact ih _ room
    | exec request => exact .exec request _ (ih _ room)
    | action request => exact .action request _ (ih _ room)
    | host call =>
      rw [World.answer, hkeeps]
      cases hcall : room.perform call with
      | ok next => exact .done hcall (ih _ next)
      | error e => exact .refused hcall (ih _ room)

/-- The room after some exchanges is the one that has done what was asked. -/
theorem Told.follows {state after : ChatState} (h : Told world state xs after)
    (hkeeps : world.Keeping) : Follows state.room xs after.room := by
  obtain ⟨events, -, hreplay⟩ := h
  have hfollows := follows_replay hkeeps state.log state.room events
  rwa [hreplay] at hfollows

/-- The text that an exchange asks to give to a message. -/
def Exchange.editOf? (id : String) : Exchange → Option String
  | host (.edit other text) _ => if other = id then some text else none
  | _ => none

/-- The texts that some exchanges ask to give to a message. -/
def editsOf (id : String) (xs : List Exchange) : List String :=
  xs.filterMap (Exchange.editOf? id)

theorem editsOf_append (id : String) (xs ys : List Exchange) :
    editsOf id (xs ++ ys) = editsOf id xs ++ editsOf id ys :=
  List.filterMap_append

/-! ## One call -/

/-- An edit changes the text of the first message with its id, and no other message. -/
theorem Room.find?_edit {messages edited : List Message} {other text : String}
    (h : edit? other text messages = some edited) (id : String) :
    edited.find? (fun message => message.id = id) =
      (messages.find? fun message => message.id = id).map fun message =>
        if other = id then { message with text := text } else message := by
  induction messages generalizing edited with
  | nil => cases h
  | cons first messages ih =>
    rw [edit?] at h
    split at h
    · rename_i hfirst
      cases h
      subst hfirst
      rw [List.find?_cons, List.find?_cons]
      by_cases hid : first.id = id
      · simp [hid]
      · simp [hid]
    · rename_i hfirst
      obtain ⟨rest, hrest, rfl⟩ := Option.map_eq_some_iff.mp h
      rw [List.find?_cons, List.find?_cons, ih hrest]
      by_cases hid : first.id = id
      · have hother : other ≠ id := fun heq => hfirst (hid.trans heq.symm)
        simp [hid, hother]
      · simp [hid]

/-- A message that is stored can be edited. -/
theorem Room.isSome_edit? (id text : String) (messages : List Message) :
    (edit? id text messages).isSome = (messages.find? fun message => message.id = id).isSome := by
  induction messages with
  | nil => rfl
  | cons first messages ih =>
    rw [edit?, List.find?_cons]
    by_cases hid : first.id = id
    · simp [hid]
    · simpa [hid] using ih

theorem Room.perform_edit (hstored : room.message? id = some message) (text : String) :
    ∃ next, room.perform (.edit id text) = .ok next := by
  have hsome := isSome_edit? id text room.messages
  rw [message?] at hstored
  rw [hstored] at hsome
  obtain ⟨edited, hedited⟩ := Option.isSome_iff_exists.mp hsome
  exact ⟨_, by rw [perform, hedited]⟩

/-- A message with an id of its own is stored as it is pushed. -/
theorem Room.message?_push {pushed : Message} (hfresh : room.message? pushed.id = none) :
    ∃ next, room.perform (.push pushed) = .ok next ∧ next.message? pushed.id = some pushed := by
  refine ⟨_, rfl, ?_⟩
  show (room.messages ++ [pushed]).find? _ = some pushed
  rw [message?] at hfresh
  rw [List.find?_append, hfresh]
  simp

/-- A message that is stored stays, with another text if the call edits it. -/
theorem Room.message?_perform (hstored : room.message? id = some message) {call : HostCall}
    {next : Room} (h : room.perform call = .ok next) :
    next.message? id = some { message with
      text := ((Exchange.host call none).editOf? id).getD message.text } := by
  cases call with
  | push pushed =>
    cases h
    show (room.messages ++ [pushed]).find? _ = some message
    rw [message?] at hstored
    rw [List.find?_append, hstored]
    rfl
  | send sent =>
    cases h
    exact hstored
  | refresh =>
    cases h
    exact hstored
  | edit other text =>
    rw [perform] at h
    split at h
    · rename_i edited hedited
      cases h
      show edited.find? _ =
        some { message with text := (if other = id then some text else none).getD _ }
      rw [message?] at hstored
      rw [find?_edit hedited, hstored, Option.map_some]
      split <;> rfl
    · cases h

/-- A room that stores a message stores it with the text of its last edit, whatever it is asked. -/
theorem Follows.message? (h : Follows room xs last) (hstored : room.message? id = some message) :
    last.message? id = some { message with
      text := (editsOf id xs).getLast?.getD message.text } := by
  induction h generalizing message with
  | nil room => exact hstored
  | @done room next last call xs hcall _ ih =>
    rw [ih (Room.message?_perform hstored hcall), editsOf, editsOf, List.filterMap_cons]
    cases Exchange.editOf? id (.host call none) with
    | none => rfl
    | some text =>
      rw [List.getLast?_cons]
      rfl
  | @refused room last call e xs hcall _ ih =>
    have hnone : Exchange.editOf? id (.host call (some e)) = none := by
      cases call with
      | edit other text =>
        refine if_neg fun hother => ?_
        obtain ⟨next, hnext⟩ := Room.perform_edit hstored text
        rw [← hother, hcall] at hnext
        cases hnext
      | _ => rfl
    rw [ih hstored, editsOf, editsOf, List.filterMap_cons_none hnone]
  | exec request answer _ ih => exact ih hstored
  | action request answer _ ih => exact ih hstored

/-! ## Edits of a message that is saved -/

/-- A source as which a message with this text is kept: its tree with the file names that its runs
have left, if an element lacked one. -/
def StampedAs (text : String) (xs : List Exchange) (source : String) : Prop :=
  ∃ tree names, read text = .ok tree ∧
    names = filenames ((tree.codeSources.filter CodeSource.runs).map CodeSource.node) (answers xs) ∧
    (∃ name ∈ names, tree.LacksName name.1) ∧ write (tree.stampAll names) = .ok source

/-- To what a message is edited when it is saved: not at all, or once, to its stamped source. -/
structure EditsSaved (message : Message) (xs : List Exchange) : Prop where
  once : editsOf message.id xs = [] ∨
    ∃ source, editsOf message.id xs = [source] ∧ StampedAs message.text xs source
  stamped : ∀ source, Passes xs → StampedAs message.text xs source →
    editsOf message.id xs = [source]

theorem editsOf_drains {xs : List Exchange} (h : ∀ x ∈ xs, x.drains = true) (id : String) :
    editsOf id xs = [] := by
  refine List.filterMap_eq_nil_iff.mpr fun x hx => ?_
  have hdrains := h x hx
  cases x with
  | host call failure =>
    cases call with
    | edit other text => cases hdrains
    | _ => rfl
  | _ => rfl

theorem editsOf_saving {id source : String} {saved : List Exchange} (h : IsSaving id source saved) :
    editsOf id saved = [source] := by
  cases h <;> simp [editsOf, Exchange.editOf?]

namespace Session

/-- A message that is saved is edited to its stamped source, if that is kept. -/
theorem render_edits (session : Session) (message : Message) (world : World) (state : ChatState) :
    ∃ result after xs, (session.render message true).run.perform world state = (result, after) ∧
      Told world state xs after ∧ EditsSaved message xs := by
  rcases session.idles_or_read message with ⟨result, hidles⟩ | ⟨hcontent, tree, hread⟩
  · refine ⟨result, state, [], hidles.perform_eq true world state, told_refl world state, .inl rfl,
      ?_⟩
    rintro source - ⟨tree, names, hread, rfl, ⟨name, hname, -⟩, -⟩
    obtain ⟨-, rfl⟩ := hidles.blank tree hread
    cases hname
  · obtain ⟨-, blocks, drained, saved, result, after, -, -, hsources, hperform, htold, hsaves, -⟩ :=
      session.saves_render hcontent hread world state
    have hedits : editsOf message.id (drained ++ saved) = editsOf message.id saved := by
      rw [editsOf_append, editsOf_drains hsaves.drains, List.nil_append]
    have hkeeps : ∀ source, IsSaving message.id source saved ↔
        Passes drained ∧ StampedAs message.text (drained ++ saved) source := by
      intro source
      rw [hsaves.keeps, nodes_of_sources hsources, ← hsaves.answers_eq]
      refine and_congr_right fun _ => ⟨?_, ?_⟩
      · rintro ⟨hlacks, hwrite⟩
        exact ⟨tree, _, hread, rfl, hlacks, hwrite⟩
      · rintro ⟨tree', names, hread', rfl, hlacks, hwrite⟩
        cases hread.symm.trans hread'
        exact ⟨hlacks, hwrite⟩
    refine ⟨result, after, drained ++ saved, hperform, htold, ?_, fun source hpasses hstamped => ?_⟩
    · rw [hedits]
      rcases hsaves.silent with rfl | ⟨source, hsaving⟩
      · exact .inl rfl
      · exact .inr ⟨source, editsOf_saving hsaving, ((hkeeps source).mp hsaving).2⟩
    · have hdrained : Passes drained := fun x hx => hpasses x (List.mem_append_left saved hx)
      rw [hedits]
      exact editsOf_saving ((hkeeps source).mpr ⟨hdrained, hstamped⟩)

/-! ## The stored reply -/

/-- What is stored of a reply that is returned, when its stream has ended so and these calls were
made. -/
structure StoredAs (ending : Except ChatError StreamOutcome) (xs : List Exchange)
    (returned stored : Message) : Prop where
  /-- The stored reply is the returned one with a text of its own, and still streams. -/
  same : stored = { returned with streaming := true, text := stored.text }
  ended : returned.streaming = false
  /-- Its text is the returned one, or that of a complete reply as its runs have stamped it. -/
  text : stored.text = returned.text ∨
    ending = .ok .completed ∧ StampedAs returned.text xs stored.text
  /-- A complete reply is stored as its runs have stamped it, if none of them ends the draining. -/
  stamped : ∀ source, ending = .ok .completed → Passes xs → StampedAs returned.text xs source →
    stored.text = source

theorem perform_host_of_done (hkeeps : world.Keeping) {state : ChatState} {call : HostCall}
    {next : Room} (h : state.room.perform call = .ok next) :
    ∃ after, (Act.host call).run.perform world state = (.ok (), after) ∧
      Told world state [.host call none] after ∧ after.room = next := by
  obtain ⟨after, hperform, htold, hroom, -⟩ :=
    Act.perform_host_of_ok ((hkeeps state.log call state.room).trans h)
  exact ⟨after, hperform, htold, hroom⟩

/-- A streamed reply comes to its end, and is stored by then as it was pushed, with the text that it
returns. -/
theorem perform_streamReply_stored (hkeeps : world.Keeping) (session : Session) (state : ChatState)
    (hfresh : state.room.message? (world.newId state.made) = none) (items : List StreamItem)
    (schedule : List Turn) :
    ∃ message shown edited xs,
      (session.streamReply items schedule).perform world state =
        (session.endReply message (StreamItem.ending items) shown).perform world edited ∧
      Told world state xs edited ∧ answers xs = [] ∧
      edited.room.message? message.id = some { message with streaming := true } ∧
      message.streaming = false := by
  let reply := session.emptyReply world state
  let streamed := session.streamed world state items schedule
  let born : ChatState := { state with made := state.made + 1 }
  have hmessage := session.message_streamed world state items schedule
  have hid : streamed.message.id = reply.id := (congrArg Message.id hmessage :)
  have hreply : { streamed.message with streaming := true } =
      { reply with text := streamed.message.text } := by
    dsimp only [streamed]
    rw [hmessage]
    rfl
  have hmade : Told world state [] born := told_of_eq rfl rfl
  -- the empty reply is pushed
  have hnew : born.room.message? reply.id = none := hfresh
  obtain ⟨room, hdone, hstored⟩ := Room.message?_push hnew
  obtain ⟨pushed, hpush, hpushed, rfl⟩ := perform_host_of_done hkeeps hdone
  -- showing it asks for nothing
  obtain ⟨shown, previewed, _, hpreview, hquiet, rfl⟩ :=
    asks_previewAll streamed.message.id streamed.shown none pushed
  have hprevious : previewed.room.message? streamed.message.id = some reply :=
    (hquiet.follows hkeeps).message? (hid ▸ hstored)
  -- it gets its text
  obtain ⟨next, hnext⟩ := Room.perform_edit hprevious streamed.message.text
  obtain ⟨edited, hedit, hedited, rfl⟩ := perform_host_of_done hkeeps hnext
  refine ⟨streamed.message, shown, edited, _,
    session.perform_streamReply_of_ok hpush hpreview hedit,
    hmade.trans (hpushed.trans (hquiet.trans hedited)), rfl, ?_, congrArg Message.streaming hmessage⟩
  rw [Room.message?_perform hprevious hnext, hreply, Exchange.editOf?, if_pos rfl, Option.getD_some]

/-- However its stream ends, and whatever the service answers, the reply that is stored is the
returned one but for its text, which the runs of a complete reply may have stamped, and it streams
on. -/
theorem streamReply_stored (session : Session) (hkeeps : world.Keeping) (state : ChatState)
    (hfresh : state.room.message? (world.newId state.made) = none) (items : List StreamItem)
    (schedule : List Turn) :
    ∃ reply stored xs after,
      (session.streamReply items schedule).perform world state = (reply, after) ∧
      Told world state xs after ∧
      after.room.message? reply.message.id = some stored ∧
      StoredAs (StreamItem.ending items) xs reply.message stored := by
  obtain ⟨message, shown, edited, before, hstream, hbefore, hanswers, hstored, hended⟩ :=
    perform_streamReply_stored hkeeps session state hfresh items schedule
  by_cases hcomplete : StreamItem.ending items = .ok .completed
  · obtain ⟨result, after, xs, hrender, htold, hedits⟩ := session.render_edits message world edited
    rw [hcomplete, perform_endReply session message shown hrender] at hstream
    let stored : Message := { message with
      streaming := true
      text := (editsOf message.id xs).getLast?.getD message.text }
    have hlast : after.room.message? message.id = some stored :=
      (htold.follows hkeeps).message? hstored
    have hsame : ∀ source, StampedAs message.text (before ++ xs) source ↔
        StampedAs message.text xs source := by
      intro source
      rw [StampedAs, StampedAs, answers_append, hanswers, List.nil_append]
    refine ⟨_, stored, before ++ xs, after, hstream, hbefore.trans htold, ?_, ?_⟩
    · rw [message_replyOf]
      exact hlast
    · rw [message_replyOf]
      refine ⟨rfl, hended, ?_, fun source _ hall hstamped => ?_⟩
      · show (editsOf message.id xs).getLast?.getD _ = _ ∨ _
        rcases hedits.once with hnone | ⟨source, hone, hstamped⟩
        · exact .inl (by rw [hnone]; rfl)
        · refine .inr ⟨hcomplete, ?_⟩
          show StampedAs message.text _ ((editsOf message.id xs).getLast?.getD _)
          rw [hone]
          exact (hsame source).mpr hstamped
      · have hrest : Passes xs := fun x hx => hall x (List.mem_append_right before hx)
        show (editsOf message.id xs).getLast?.getD _ = source
        rw [hedits.stamped source hrest ((hsame source).mp hstamped)]
        rfl
  · rw [session.perform_endReply_incomplete message hcomplete] at hstream
    exact ⟨_, _, before, edited, hstream, hbefore, hstored, rfl, hended, .inl rfl,
      fun source hending => absurd hending hcomplete⟩

/-- A reply whose block is run is stored with the file name that the run has left. -/
theorem streamReply_stored_block :
    (calmWorld "out").Keeping ∧
      (ChatState.start (.ofMessages [])).room.message? ((calmWorld "out").newId 0) = none ∧
      ∃ reply stored xs after,
        (Session.streamReply ⟨"room", ""⟩ codeReply [.consume, .produce]).perform
          (calmWorld "out") (.start (.ofMessages [])) = (reply, after) ∧
        after.room.message? reply.message.id = some stored ∧
        StoredAs (StreamItem.ending codeReply) xs reply.message stored ∧
        stored.text = "code[lang=lugha, run=true, filename=`out`] \x7b `a` \x7d" := by
  have htext : (fun ran : Reply × ChatState =>
      (ran.2.room.message? ran.1.message.id).any fun stored =>
        stored.text = "code[lang=lugha, run=true, filename=`out`] \x7b `a` \x7d")
        ((Session.streamReply ⟨"room", ""⟩ codeReply [.consume, .produce]).perform
          (calmWorld "out") (.start (.ofMessages []))) = true := by
    decide +kernel
  have hkeeps : (calmWorld "out").Keeping := fun _ _ _ => rfl
  obtain ⟨reply, stored, xs, after, hperform, -, hstored, hsame⟩ :=
    Session.streamReply_stored ⟨"room", ""⟩ hkeeps (.start (.ofMessages [])) rfl codeReply
      [.consume, .produce]
  refine ⟨hkeeps, rfl, reply, stored, xs, after, hperform, hstored, hsame, ?_⟩
  rw [hperform] at htext
  simpa [hstored] using htext

/-- A reply with nothing to be run is stored as it was when its stream began, but for its text: it
goes on streaming, though its stream is over. -/
theorem streamReply_stored_streaming :
    (calmWorld "out").Keeping ∧
      (ChatState.start (.ofMessages [])).room.message? ((calmWorld "out").newId 0) = none ∧
      ∃ reply stored after,
        (Session.streamReply ⟨"room", ""⟩ [.chunk (utf8Bytes "p \x7b `hi` \x7d")] []).perform
          (calmWorld "out") (.start (.ofMessages [])) = (reply, after) ∧
        after.room.message? reply.message.id = some stored ∧
        reply.message.streaming = false ∧ stored.streaming = true := by
  have hflags : (fun ran : Reply × ChatState =>
      (ran.2.room.message? ran.1.message.id).any fun stored =>
        !ran.1.message.streaming && stored.streaming)
        ((Session.streamReply ⟨"room", ""⟩ [.chunk (utf8Bytes "p \x7b `hi` \x7d")] []).perform
          (calmWorld "out") (.start (.ofMessages []))) = true := by
    decide +kernel
  obtain ⟨stored, hstored, hflags⟩ := (Option.any_eq_true _ _).mp hflags
  rw [Bool.and_eq_true, Bool.not_eq_true'] at hflags
  exact ⟨fun _ _ _ => rfl, rfl, _, stored, _, rfl, hstored, hflags⟩

end Session

end ChatMarkup

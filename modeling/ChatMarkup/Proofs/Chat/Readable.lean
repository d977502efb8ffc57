import ChatMarkup.Proofs.Chat.Reply
import ChatMarkup.Proofs.Chat.Revision
import ChatMarkup.Proofs.Tree.Update

/-!
# Messages that stay readable

What a chat keeps a message with can be read again, as long as the numbers of the message are
finite: a literal that is too long for any number but an infinite one is written as a name, which
stands for an element.

* `Act.EditsOnly`: an action keeps messages only with texts of a kind;
* `IsRevision`: the texts that a message is kept with;
* `Session.history_readable`: what any run of operations keeps messages with is read.
-/

namespace ChatMarkup

open Source

variable {α β : Type} {world : World}

/-! ## Edits -/

/-- The text with which a call keeps a message. -/
def Exchange.editText? : Exchange → Option String
  | host call _ => call.editText?
  | _ => none

/-- The texts with which messages are kept, in the order of the calls. -/
def editsAsked (exchanges : List Exchange) : List String :=
  exchanges.filterMap Exchange.editText?

theorem editsAsked_append (xs ys : List Exchange) :
    editsAsked (xs ++ ys) = editsAsked xs ++ editsAsked ys :=
  List.filterMap_append

theorem editsAsked_answer (world : World) (past : List Event) (room : Room) (event : Event) :
    editsAsked (world.answer past room event).1 = edits [event] := by
  cases event with
  | host call =>
    rw [World.answer]
    split <;> rfl
  | _ => rfl

/-- The edits of a log are those that were asked for. -/
theorem editsAsked_replay (world : World) (past : List Event) (room : Room) (events : List Event) :
    editsAsked (world.replay past room events).1 = edits events := by
  induction events generalizing past room with
  | nil => rfl
  | cons event events ih =>
    have hsplit : edits (event :: events) = edits [event] ++ edits events :=
      List.filterMap_append (l := [event])
    rw [World.replay, editsAsked_append, editsAsked_answer, ih, hsplit]

theorem Told.edits {state after : ChatState} {xs : List Exchange} (h : Told world state xs after) :
    after.log = state.log ++ after.log.drop state.log.length ∧
      edits (after.log.drop state.log.length) = editsAsked xs := by
  obtain ⟨events, hlog, hreplay⟩ := h
  have hedits := editsAsked_replay world state.log state.room events
  rw [hreplay] at hedits
  rw [hlog, List.drop_left]
  exact ⟨rfl, hedits.symm⟩

namespace Act

/-- Whatever an action keeps messages with is as `kind` says. -/
def EditsOnly (world : World) (kind : String → Prop) (act : Act α) : Prop :=
  Asks world act fun _ xs => ∀ source ∈ editsAsked xs, kind source

variable {kind : String → Prop} {act : Act α}

theorem editsOnly_pure (a : α) : EditsOnly world kind (pure a) :=
  asks_pure nofun

theorem EditsOnly.bind (h : EditsOnly world kind act) {next : α → Act β}
    (hnext : ∀ a, EditsOnly world kind (next a)) : EditsOnly world kind (act >>= next) := by
  refine Asks.bind h fun a xs hxs => (hnext a).mono fun b ys hys => ?_
  rw [editsAsked_append]
  exact List.forall_mem_append.mpr ⟨hxs, hys⟩

/-- An attempt, of which only what comes after a success is asked. -/
theorem EditsOnly.attempt {first : Attempt α} (h : EditsOnly world kind first.run)
    {next : α → Attempt β} (hnext : ∀ a, EditsOnly world kind (next a).run) :
    EditsOnly world kind (first >>= next).run := by
  rw [ExceptT.run_bind]
  refine h.bind fun result => ?_
  cases result with
  | ok a => exact hnext a
  | error e => exact editsOnly_pure _

theorem EditsOnly.map (h : EditsOnly world kind act) (f : α → β) :
    EditsOnly world kind (f <$> act) :=
  Asks.map h

theorem editsOnly_of_quiet (h : Asks world act fun _ xs => xs = []) : EditsOnly world kind act := by
  refine h.mono fun a xs hxs => ?_
  subst hxs
  nofun

theorem editsOnly_host (call : HostCall) (h : ∀ source, call.editText? = some source → kind source) :
    EditsOnly world kind (host call).run := by
  refine (asks_host call).mono fun result xs hxs source hsource => ?_
  obtain ⟨failure, -, rfl⟩ := hxs
  obtain ⟨x, hx, hedit⟩ := List.mem_filterMap.mp hsource
  rw [List.mem_singleton.mp hx] at hedit
  exact h source hedit

theorem editsOnly_exec (request : ExecRequest) : EditsOnly world kind (exec request) := by
  refine (asks_exec request).mono fun answer xs hxs => ?_
  subst hxs
  nofun

theorem editsOnly_action (request : ActionRequest) : EditsOnly world kind (action request) := by
  refine (asks_action request).mono fun answer xs hxs => ?_
  subst hxs
  nofun

theorem editsOnly_toolMessage (chat : String) (result : ExecResult) :
    EditsOnly world kind (toolMessage chat result) :=
  editsOnly_of_quiet ((asks_toolMessage chat result).mono fun _ _ h => h.1)

theorem editsOnly_failureMessage (chat reason : String) :
    EditsOnly world kind (failureMessage chat reason) :=
  editsOnly_of_quiet ((asks_failureMessage chat reason).mono fun _ _ h => h.1)

end Act

/-! ## What messages are kept with -/

/-- The source of a tree that was read from a text and then revised, without new numbers. -/
def IsRevision (text source : String) : Prop :=
  ∃ tree revised, Source.read text = .ok tree ∧ Revised revised ∧
    revised.numbers ⊆ tree.numbers ∧ write revised = .ok source

/-- Whether all numbers of a text that can be read are finite. -/
def HasFiniteNumbers (text : String) : Prop :=
  ∀ tree, Source.read text = .ok tree → ∀ x ∈ tree.numbers, x.isFinite = true

/-- Whether a text can be read. -/
def IsReadable (source : String) : Prop :=
  ∃ tree, Source.read source = .ok tree

theorem IsRevision.isReadable {text source : String} (h : IsRevision text source)
    (hfinite : HasFiniteNumbers text) : IsReadable source := by
  obtain ⟨tree, revised, hread, hrevised, hnumbers, hwrite⟩ := h
  obtain ⟨back, hback, -⟩ := hrevised.isDocument.readsBack
    (fun x hx => hfinite tree hread x (hnumbers hx)) hwrite
  exact ⟨back, hback⟩

theorem revised_stampAll {tree : Node} (h : Revised tree) (names : List (Nat × String)) :
    Revised (tree.stampAll names) ∧ (tree.stampAll names).numbers ⊆ tree.numbers := by
  induction names generalizing tree with
  | nil => exact ⟨h, List.Subset.refl _⟩
  | cons name names ih =>
    rw [Node.stampAll_cons]
    cases hstamp : tree.stamp name.1 name.2 with
    | none => exact ih h
    | some stamped =>
      obtain ⟨hrevised, hnumbers⟩ := ih (.stamp h hstamp)
      exact ⟨hrevised, List.Subset.trans hnumbers (Node.numbers_stamp hstamp)⟩

theorem numbers_replaceCode {tree changed : Node} {node : Nat} {code : String}
    (h : Session.replaceCode? tree node code = some changed) : changed.numbers ⊆ tree.numbers := by
  rw [Session.replaceCode?] at h
  split at h
  · exact Node.numbers_updateElement (Node.bringsNoNumber_code code) tree changed h
  · cases h

/-- Nothing that a draining asks keeps a message. -/
theorem editsAsked_drains {xs : List Exchange} (h : ∀ x ∈ xs, x.drains = true) :
    editsAsked xs = [] := by
  refine List.filterMap_eq_nil_iff.mpr fun x hx => ?_
  have hdrains := h x hx
  cases x with
  | host call failure =>
    cases call with
    | push message | send message => rfl
    | edit id text | refresh => cases hdrains
  | _ => rfl

namespace Session

open Act

variable {kind : String → Prop}

/-- An attempt that goes on with a result of the markup layer, if that is no error. -/
theorem editsOnly_ofMarkup {result : Except MarkupError α} {next : α → Attempt β}
    (h : ∀ a, result = .ok a → EditsOnly world kind (next a).run) :
    EditsOnly world kind (ofMarkup result >>= next).run := by
  cases result with
  | ok a => exact h a rfl
  | error e => exact editsOnly_pure _

/-! ## Looking at messages -/

/-- What saves a message keeps a revision of it. -/
theorem editsOnly_render (session : Session) (message : Message) (save : Bool) :
    EditsOnly world (IsRevision message.text) (session.render message save).run := by
  intro state
  rcases session.idles_or_read message with ⟨result, hidles⟩ | ⟨hcontent, tree, hread⟩
  · exact ⟨result, state, [], hidles.perform_eq save world state, told_refl world state, nofun⟩
  cases save with
  | false =>
    obtain ⟨view, -, hrender⟩ := session.render_display hcontent hread world state
    exact ⟨_, _, [], hrender, told_of_eq rfl rfl, nofun⟩
  | true =>
    obtain ⟨-, blocks, drained, saved, result, after, -, -, -, hperform, htold, hsaves, -⟩ :=
      session.saves_render hcontent hread world state
    refine ⟨result, after, drained ++ saved, hperform, htold, fun source hsource => ?_⟩
    rw [editsAsked_append, editsAsked_drains hsaves.drains, List.nil_append] at hsource
    rcases hsaves.silent with rfl | ⟨kept, hsaving⟩
    · cases hsource
    · obtain ⟨hrevised, hnumbers⟩ := revised_stampAll (.read hread) (filenames
        (blocks.map fun block => block.source.node) (answers drained))
      have hkept : source = kept := by
        cases hsaving <;> exact List.mem_singleton.mp hsource
      rw [hkept]
      exact ⟨tree, _, hread, hrevised, hnumbers, ((hsaves.keeps kept).mp hsaving).2.2⟩

theorem editsOnly_renderOrFailure (session : Session) (message : Message) (save : Bool) :
    EditsOnly world (IsRevision message.text) (session.renderOrFailure message save).run := by
  refine EditsOnly.bind (session.editsOnly_render message save) fun result => ?_
  cases result <;> exact editsOnly_pure _

/-! ## Code blocks and buttons -/

theorem editsOnly_setBusy (id : String) (key : BlockKey) (activity : Activity) (busy : Bool) :
    EditsOnly world kind (setBusy id key activity busy).run := by
  refine editsOnly_of_quiet (asks_of_quiet fun state => ?_)
  rw [perform_setBusy]
  exact told_of_eq rfl rfl

theorem editsOnly_copyCode (id : String) (key : BlockKey) :
    EditsOnly world kind (copyCode id key).run :=
  (editsOnly_setBusy id key .copying true).attempt fun _ => editsOnly_pure _

/-- Posting a message keeps none. -/
theorem editsOnly_push (message : Message) : EditsOnly world kind (Act.host (.push message)).run :=
  editsOnly_host _ nofun

theorem editsOnly_send (message : Message) : EditsOnly world kind (Act.host (.send message)).run :=
  editsOnly_host _ nofun

theorem editsOnly_runBlock (session : Session) (message : Message) (key : BlockKey) :
    EditsOnly world kind (session.runBlock message key).run := by
  refine (editsOnly_setBusy _ _ _ _).attempt fun _ => ?_
  refine EditsOnly.attempt ((editsOnly_exec _).map _) fun result => ?_
  refine EditsOnly.attempt (editsOnly_of_quiet (asks_of_quiet fun _ => told_of_eq rfl rfl))
    fun _ => ?_
  have hpush : ∀ tool, EditsOnly world kind (do
      Act.host (.push tool)
      return tool : Attempt Message).run := fun tool =>
    (editsOnly_push tool).attempt fun _ => editsOnly_pure _
  match result with
  | .ok result => exact EditsOnly.attempt ((editsOnly_toolMessage _ result).map _) hpush
  | .error (.execution reason) =>
    exact EditsOnly.attempt ((editsOnly_failureMessage _ reason).map _) hpush
  | .error (.markup _) | .error (.network _) | .error (.host _) | .error .aborted
  | .error (.config _) | .error (.unknownNode ..) | .error (.unknownBlock _) =>
    exact editsOnly_pure _

theorem editsOnly_runAction (session : Session) (onclick : String) :
    EditsOnly world kind (session.runAction onclick).run := by
  refine EditsOnly.attempt ((editsOnly_action _).map _) fun result => ?_
  match result with
  | .ok result =>
    refine EditsOnly.attempt ((editsOnly_toolMessage _ result).map _) fun tool => ?_
    exact (editsOnly_push tool).attempt fun _ =>
      (editsOnly_send tool).attempt fun _ => editsOnly_pure _
  | .error (.execution reason) =>
    refine EditsOnly.attempt ((editsOnly_failureMessage _ reason).map _) fun report => ?_
    exact (editsOnly_push report).attempt fun _ => editsOnly_pure _
  | .error (.markup _) | .error (.network _) | .error (.host _) | .error .aborted
  | .error (.config _) | .error (.unknownNode ..) | .error (.unknownBlock _) =>
    exact editsOnly_pure _

theorem editsOnly_click (session : Session) (message : Message) (node : Nat) :
    EditsOnly world kind (session.click message node).run := by
  refine editsOnly_ofMarkup fun tree _ => ?_
  split
  · exact editsOnly_pure _
  · split
    · rw [ExceptT.run_map]
      exact (editsOnly_runAction session _).map _
    · exact editsOnly_pure _

/-! ## Edits -/

theorem editsOnly_saveText (id : String) {source : String} (h : kind source) :
    EditsOnly world kind (saveText id source).run := by
  refine (editsOnly_host _ ?_).attempt fun _ =>
    (editsOnly_host _ nofun).attempt fun _ => editsOnly_pure _
  rintro kept ⟨⟩
  exact h

/-- An edited page is kept as a source that was read before. -/
theorem editsOnly_saveEdit (id page : String) :
    EditsOnly world IsReadable (saveEdit id page).run :=
  editsOnly_ofMarkup fun _ _ => editsOnly_ofMarkup fun tree hread =>
    editsOnly_saveText id ⟨tree, hread⟩

/-- A message with other code in a block is kept as a revision of it. -/
theorem editsOnly_saveCodeEdit (message : Message) (node : Nat) (code : String) :
    EditsOnly world (IsRevision message.text) (saveCodeEdit message node code).run := by
  refine editsOnly_ofMarkup fun tree hread => ?_
  split
  · exact editsOnly_pure _
  · rename_i changed hchanged
    refine editsOnly_ofMarkup fun source hwrite => editsOnly_saveText message.id ?_
    exact ⟨tree, changed, hread, .code (.read hread) hchanged, numbers_replaceCode hchanged, hwrite⟩

/-! ## New messages -/

theorem editsOnly_sendPrompt (session : Session) (text : String) :
    EditsOnly world kind (session.sendPrompt text).run := by
  rw [sendPrompt]
  split
  · exact editsOnly_pure _
  · refine EditsOnly.attempt ((editsOnly_of_quiet asks_birth).map _) fun birth => ?_
    exact (editsOnly_send _).attempt fun _ => editsOnly_pure _

theorem editsOnly_endReply (session : Session) (world : World) (message : Message)
    (outcome : Except ChatError StreamOutcome) (view : Option (View CodeBlock)) :
    EditsOnly world (IsRevision message.text) (session.endReply message outcome view) := by
  match outcome with
  | .ok .completed =>
    refine (session.editsOnly_renderOrFailure message true).bind fun shown => ?_
    split <;> exact editsOnly_pure _
  | .ok .aborted | .error e => exact editsOnly_pure _

/-- A streamed reply is kept as it came, and then as a revision of that. -/
theorem asks_streamReply (session : Session) (items : List StreamItem) (schedule : List Turn) :
    Asks world (session.streamReply items schedule) fun _ xs =>
      ∀ source ∈ (editsAsked xs).tail, IsRevision (Streaming.replyText items) source := by
  refine asks_birth.bind fun birth xs hxs => ?_
  subst hxs
  refine (asks_host _).bind fun pushed xs hpushed => ?_
  obtain ⟨failure, rfl, rfl⟩ := hpushed
  cases failure with
  | some e => exact asks_pure nofun
  | none =>
    refine (asks_previewAll _ _ none).bind fun view xs hxs => ?_
    subst hxs
    refine (asks_host _).bind fun edited xs hedited => ?_
    obtain ⟨failure, rfl, rfl⟩ := hedited
    cases failure with
    | some e => exact asks_pure nofun
    | none =>
      have hend := session.editsOnly_endReply world
        ((Streaming.start (.streamingReply birth (some session.chat)) items).play schedule).message
        ((Streaming.start (.streamingReply birth (some session.chat)) items).play schedule).result
        view
      rw [Streaming.text_play_streamingReply] at hend
      exact hend.mono fun reply xs hxs => hxs

end Session

/-! ## Operations -/

/-- What a user can do in a chat. -/
inductive Operation where
  | render (message : Message) (save : Bool)
  | renderOrFailure (message : Message) (save : Bool)
  | renderEditor (message : Message)
  | toggle (id : String) (key : BlockKey)
  | setBusy (id : String) (key : BlockKey) (activity : Activity) (busy : Bool)
  | copyCode (id : String) (key : BlockKey)
  | forget (id : String)
  | runBlock (message : Message) (key : BlockKey)
  | runAction (onclick : String)
  | click (message : Message) (node : Nat)
  | saveEdit (id page : String)
  | saveCodeEdit (message : Message) (node : Nat) (code : String)
  | sendPrompt (text : String)
  | streamReply (items : List StreamItem) (schedule : List Turn)

namespace Operation

/-- An action without its answer. -/
def unanswered (act : Act α) : Act Unit :=
  (fun _ => ()) <$> act

/-- The operation in a chat. -/
def act (session : Session) : Operation → Act Unit
  | render message save => unanswered (session.render message save).run
  | renderOrFailure message save => unanswered (session.renderOrFailure message save).run
  | renderEditor message => unanswered (pure (Session.renderEditor message))
  | toggle id key => unanswered (Session.toggle id key)
  | setBusy id key activity busy => unanswered (Session.setBusy id key activity busy).run
  | copyCode id key => unanswered (Session.copyCode id key).run
  | forget id => Session.forget id
  | runBlock message key => unanswered (session.runBlock message key).run
  | runAction onclick => unanswered (session.runAction onclick).run
  | click message node => unanswered (session.click message node).run
  | saveEdit id page => unanswered (Session.saveEdit id page).run
  | saveCodeEdit message node code => unanswered (Session.saveCodeEdit message node code).run
  | sendPrompt text => unanswered (session.sendPrompt text).run
  | streamReply items schedule => unanswered (session.streamReply items schedule)

/-- The texts among those it keeps messages with that an operation has written itself. A streamed
reply is first kept as it came. -/
def writeBacks (edits : List String) : Operation → List String
  | streamReply .. => edits.tail
  | _ => edits

/-- The text that an operation revises. -/
def text? : Operation → Option String
  | render message _ | renderOrFailure message _ | saveCodeEdit message _ _ => some message.text
  | streamReply items _ => some (Streaming.replyText items)
  | _ => none

/-- What an operation writes: a revision of its text, or without one what can be read. -/
def Writes (op : Operation) (source : String) : Prop :=
  match op.text? with
  | some text => IsRevision text source
  | none => IsReadable source

/-- Whether the text that an operation revises has finite numbers only. -/
def IsFinite (op : Operation) : Prop :=
  ∀ text, op.text? = some text → HasFiniteNumbers text

theorem Writes.isReadable {op : Operation} {source : String} (h : op.Writes source)
    (hfinite : op.IsFinite) : IsReadable source := by
  rw [Writes] at h
  split at h
  · rename_i text htext
    exact h.isReadable (hfinite text htext)
  · exact h

theorem asks_act (session : Session) (world : World) (op : Operation) :
    Act.Asks world (op.act session) fun _ xs =>
      ∀ source ∈ op.writeBacks (editsAsked xs), op.Writes source := by
  cases op with
  | render message save => exact (session.editsOnly_render message save).map _
  | renderOrFailure message save => exact (session.editsOnly_renderOrFailure message save).map _
  | renderEditor message => exact (Act.editsOnly_pure _).map _
  | toggle id key =>
    exact Act.EditsOnly.map
      (Act.editsOnly_of_quiet (Act.asks_of_quiet fun _ => told_of_eq rfl rfl)) _
  | setBusy id key activity busy => exact (Session.editsOnly_setBusy id key activity busy).map _
  | copyCode id key => exact (Session.editsOnly_copyCode id key).map _
  | forget id =>
    exact Act.editsOnly_of_quiet (Act.asks_of_quiet fun _ => told_of_eq rfl rfl)
  | runBlock message key => exact (session.editsOnly_runBlock message key).map _
  | runAction onclick => exact (session.editsOnly_runAction onclick).map _
  | click message node => exact (session.editsOnly_click message node).map _
  | saveEdit id page => exact (Session.editsOnly_saveEdit id page).map _
  | saveCodeEdit message node code =>
    exact (Session.editsOnly_saveCodeEdit message node code).map _
  | sendPrompt text => exact (session.editsOnly_sendPrompt text).map _
  | streamReply items schedule => exact (session.asks_streamReply items schedule).map

end Operation

/-! ## Whole runs -/

namespace Session

/-- Operations, one after the other, each with what it has put into the log. -/
def history (session : Session) (world : World) (state : ChatState) :
    List Operation → List (Operation × List Event)
  | [] => []
  | op :: ops =>
    let after := ((op.act session).perform world state).2
    (op, after.log.drop state.log.length) :: history session world after ops

theorem log_history (session : Session) (world : World) (state : ChatState)
    (ops : List Operation) :
    (Act.perform (ops.forM (Operation.act session)) world state).2.log =
      state.log ++ (session.history world state ops).flatMap Prod.snd := by
  induction ops generalizing state with
  | nil => exact (List.append_nil _).symm
  | cons op ops ih =>
    obtain ⟨_, after, xs, hperform, htold, -⟩ := op.asks_act session world state
    have hrun : Act.perform ((op :: ops).forM (Operation.act session)) world state =
        Act.perform (ops.forM (Operation.act session)) world after :=
      Act.perform_bind_of_eq hperform _
    rw [hrun, ih after, history, hperform, List.flatMap_cons, ← List.append_assoc, ← htold.edits.1]

/-- However operations follow one another, the log is made of what each of them has put there, and
what one of them writes back can be read, if the text that it revises has finite numbers only. -/
theorem history_readable (session : Session) (world : World) (state : ChatState)
    (ops : List Operation) :
    (Act.perform (ops.forM (Operation.act session)) world state).2.log =
        state.log ++ (session.history world state ops).flatMap Prod.snd ∧
      ∀ step ∈ session.history world state ops, step.1.IsFinite →
        ∀ source ∈ step.1.writeBacks (edits step.2), ∃ tree, Source.read source = .ok tree := by
  refine ⟨session.log_history world state ops, ?_⟩
  induction ops generalizing state with
  | nil => exact fun step hstep => absurd hstep List.not_mem_nil
  | cons op ops ih =>
    refine List.forall_mem_cons.mpr ⟨fun hfinite source hsource => ?_, ih _⟩
    obtain ⟨_, after, xs, hperform, htold, hwrites⟩ := op.asks_act session world state
    rw [hperform, htold.edits.2] at hsource
    exact (hwrites source hsource).isReadable hfinite

/-- A message with a block and a literal that is too long for any finite number. -/
def longMessage : Message where
  id := "m"
  sender := .assistant
  text := "code \x7b `a` \x7d\n1" ++ String.ofList (List.replicate 309 '0')
  chat := none
  createdAt := ⟨0, 0⟩
  transient := false
  streaming := false

/-- Other code in the block of that message is kept with a source that cannot be read. -/
theorem history_unreadable :
    (Session.history ⟨"room", ""⟩ (obligingWorld fun _ => .error .aborted)
        (.start (.ofMessages [longMessage])) [.saveCodeEdit longMessage 0 "b"]).flatMap
          (fun step => step.1.writeBacks (edits step.2)) = ["code \x7b `b` \x7d\ninf"] ∧
      (Source.read "code \x7b `b` \x7d\ninf").toOption.isNone = true := by
  -- taking the characters of so long a text would be most of the evaluation
  have hchars : longMessage.text.toList =
      "code \x7b `a` \x7d\n1".toList ++ List.replicate 309 '0' := by
    rw [longMessage, String.toList_append, String.toList_ofList, String.toList_ofList]
  rw [history, Operation.act, saveCodeEdit, Source.read, hchars]
  decide +kernel

end Session

end ChatMarkup

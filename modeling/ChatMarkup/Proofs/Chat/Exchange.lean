import ChatMarkup.Chat.World

/-!
# What was asked and answered

The log of a chat names the calls that were made. The world answers each of them from what was
asked before and from the room, so that the answers can be told from the log: `World.replay` goes
over the events of a log once more and gives each call its answer.

* `Told`: what was asked between two states of a chat, and what was answered;
* `Act.perform_exec`, `Act.perform_host`: one call is one exchange.
-/

namespace ChatMarkup

variable {α β : Type}

/-- A call with its answer; what keeps the messages answers with a failure at most. -/
inductive Exchange where
  | exec (request : ExecRequest) (answer : Except ChatError ExecResult)
  | action (request : ActionRequest) (answer : Except ChatError ExecResult)
  | host (call : HostCall) (failure : Option ChatError)

namespace Exchange

/-- Whether the answer ends a draining: any failure does, but that of the code itself. -/
def stops : Exchange → Bool
  | exec _ (.ok _) | action _ (.ok _) => false
  | exec _ (.error (.execution _)) | action _ (.error (.execution _)) => false
  | exec _ (.error _) | action _ (.error _) => true
  | host _ failure => failure.isSome

/-- What was asked to be run. -/
def request? : Exchange → Option ExecRequest
  | exec request _ => some request
  | _ => none

/-- What running some code was answered with. -/
def answer? : Exchange → Option (Except ChatError ExecResult)
  | exec _ answer => some answer
  | _ => none

end Exchange

/-- The text with which an edit keeps a message. -/
def HostCall.editText? : HostCall → Option String
  | edit _ text => some text
  | _ => none

/-- The text with which a message is kept. -/
def Event.editText? : Event → Option String
  | host call => call.editText?
  | _ => none

/-- The texts with which messages are kept, in the order of the edits. -/
def edits (events : List Event) : List String :=
  events.filterMap Event.editText?

/-! ## Replaying a log -/

/-- The answer to a call after some events, and the room after it. -/
def World.answer (world : World) (past : List Event) (room : Room) : Event → List Exchange × Room
  | .shown _ => ([], room)
  | .exec request => ([.exec request (world.exec past request)], room)
  | .action request => ([.action request (world.action past request)], room)
  | .host call =>
    match world.host past call room with
    | .ok room => ([.host call none], room)
    | .error e => ([.host call (some e)], room)

/-- The answers to the calls among some events, and the room after them. -/
def World.replay (world : World) (past : List Event) (room : Room) :
    List Event → List Exchange × Room
  | [] => ([], room)
  | event :: events =>
    let (first, room) := world.answer past room event
    let (others, room) := world.replay (past ++ [event]) room events
    (first ++ others, room)

theorem World.replay_append (world : World) (past : List Event) (room : Room)
    (xs ys : List Event) :
    world.replay past room (xs ++ ys) =
      ((world.replay past room xs).1 ++
          (world.replay (past ++ xs) (world.replay past room xs).2 ys).1,
        (world.replay (past ++ xs) (world.replay past room xs).2 ys).2) := by
  induction xs generalizing past room with
  | nil => simp [replay]
  | cons event xs ih => simp [replay, ih]

/-- What holds of every answer holds of all that is replayed. -/
theorem World.forall_replay {world : World} {P : Exchange → Prop}
    (h : ∀ past room event, ∀ x ∈ (world.answer past room event).1, P x) (past : List Event)
    (room : Room) (events : List Event) : ∀ x ∈ (world.replay past room events).1, P x := by
  induction events generalizing past room with
  | nil => simp [replay]
  | cons event events ih => exact List.forall_mem_append.mpr ⟨h past room event, ih _ _⟩

/-- What was asked of the world on the way from one state to another, with its answers. -/
def Told (world : World) (state : ChatState) (exchanges : List Exchange) (after : ChatState) :
    Prop :=
  ∃ events, after.log = state.log ++ events ∧
    world.replay state.log state.room events = (exchanges, after.room)

variable {world : World} {state middle after : ChatState}

theorem Told.forall {xs : List Exchange} (h : Told world state xs after) {P : Exchange → Prop}
    (hanswer : ∀ past room event, ∀ x ∈ (world.answer past room event).1, P x) :
    ∀ x ∈ xs, P x := by
  obtain ⟨events, -, hreplay⟩ := h
  have hall := World.forall_replay hanswer state.log state.room events
  rwa [hreplay] at hall

theorem told_of_eq (hlog : after.log = state.log) (hroom : after.room = state.room) :
    Told world state [] after :=
  ⟨[], by rw [hlog, List.append_nil], by rw [hroom]; rfl⟩

theorem told_refl (world : World) (state : ChatState) : Told world state [] state :=
  told_of_eq rfl rfl

theorem Told.trans {xs ys : List Exchange} (h : Told world state xs middle)
    (hnext : Told world middle ys after) : Told world state (xs ++ ys) after := by
  obtain ⟨first, hlog, hfirst⟩ := h
  obtain ⟨second, hlog', hsecond⟩ := hnext
  rw [hlog] at hlog' hsecond
  refine ⟨first ++ second, by rw [hlog', List.append_assoc], ?_⟩
  rw [World.replay_append, hfirst, hsecond]

/-- What is asked after what asks for nothing. -/
theorem Told.after_quiet {xs : List Exchange} (hquiet : Told world state [] middle)
    (h : Told world middle xs after) : Told world state xs after :=
  hquiet.trans h

theorem told_event {xs : List Exchange} (event : Event) (hlog : after.log = state.log ++ [event])
    (h : world.answer state.log state.room event = (xs, after.room)) :
    Told world state xs after := by
  refine ⟨[event], hlog, ?_⟩
  rw [World.replay, h]
  simp [World.replay]

/-! ## What a user does meanwhile -/

theorem told_preview (world : World) (state : ChatState) (id text : String) :
    Told world state [] (state.preview id text).2 := by
  rw [ChatState.preview]
  split
  · exact told_refl world state
  · split
    · exact told_refl world state
    · exact told_of_eq rfl rfl

/-- A user who looks at messages while code is running asks nothing of the world. -/
theorem told_intervene (world : World) (state : ChatState) (intervention : Intervention) :
    Told world state [] (state.intervene intervention) := by
  cases intervention with
  | render message =>
    have hquiet := told_preview world state message.id message.text
    rw [ChatState.intervene]
    split
    · rename_i view state' heq
      rw [heq] at hquiet
      exact hquiet.trans (told_event (.shown view.blocks) rfl rfl)
    · rename_i heq
      rwa [heq] at hquiet
  | toggle id key => exact told_of_eq rfl rfl
  | setCopying id key busy => exact told_of_eq rfl rfl
  | forget id => exact told_of_eq rfl rfl

theorem told_interventions (world : World) (state : ChatState)
    (interventions : List Intervention) :
    Told world state [] (interventions.foldl ChatState.intervene state) := by
  induction interventions generalizing state with
  | nil => exact told_refl world state
  | cons intervention interventions ih =>
    exact (told_intervene world state intervention).trans (ih _)

/-! ## Acting -/

namespace Act

/-- What an action gives in a world, and the state after it. -/
def perform (act : Act α) (world : World) (state : ChatState) : α × ChatState :=
  (act.run world).run state

theorem perform_bind (act : Act α) (next : α → Act β) (world : World) (state : ChatState) :
    perform (act >>= next) world state =
      perform (next (perform act world state).1) world (perform act world state).2 := rfl

theorem perform_bind_of_eq {act : Act α} {a : α} (h : perform act world state = (a, middle))
    (next : α → Act β) :
    perform (act >>= next) world state = perform (next a) world middle := by
  rw [perform_bind, h]

/-- An attempt goes on from where another has come to. -/
theorem perform_bind_of_ok {attempt : Attempt α} {a : α}
    (h : perform attempt.run world state = (.ok a, middle)) (next : α → Attempt β) :
    perform (attempt >>= next).run world state = perform (next a).run world middle := by
  rw [ExceptT.run_bind, perform_bind_of_eq h]

theorem perform_bind_of_error {attempt : Attempt α} {e : ChatError}
    (h : perform attempt.run world state = (.error e, middle)) (next : α → Attempt β) :
    perform (attempt >>= next).run world state = (.error e, middle) := by
  rw [ExceptT.run_bind, perform_bind_of_eq h]
  rfl

/-- An attempt goes on after an action that cannot fail. -/
theorem perform_lift_bind {act : Act α} {a : α} (h : perform act world state = (a, middle))
    (next : α → Attempt β) :
    perform ((liftM act : Attempt α) >>= next).run world state =
      perform (next a).run world middle := by
  have hrun : ((liftM act : Attempt α) >>= next).run = act >>= fun a => (next a).run := rfl
  rw [hrun, perform_bind_of_eq h]

theorem perform_exec (world : World) (state : ChatState) (request : ExecRequest) :
    ∃ answer after, perform (exec request) world state = (answer, after) ∧
      Told world state [.exec request answer] after := by
  refine ⟨_, _, rfl, ?_⟩
  have hasked : Told world state [.exec request (world.exec state.log request)]
      (state.note (.exec request)) := told_event (.exec request) rfl rfl
  exact hasked.trans (told_interventions world _ _)

/-- The answer to a call as the result of an attempt. -/
def outcome : Option ChatError → Except ChatError Unit
  | none => .ok ()
  | some e => .error e

theorem perform_host_eq (world : World) (state : ChatState) (call : HostCall) :
    perform (host call).run world state =
      perform (match world.host state.log call state.room with
        | .ok room => do
          modify fun state => { state with room := room }
          pure (.ok ())
        | .error e => pure (.error e)) world (state.note (.host call)) := rfl

/-- A call that is answered well leaves the room of the answer, and all that is remembered of
blocks. -/
theorem perform_host_of_ok {call : HostCall} {room : Room}
    (h : world.host state.log call state.room = .ok room) :
    ∃ after, perform (host call).run world state = (.ok (), after) ∧
      Told world state [.host call none] after ∧ after.room = room ∧
      after.tables = state.tables := by
  refine ⟨{ state.note (.host call) with room := room }, by rw [perform_host_eq, h]; rfl, ?_, rfl, rfl⟩
  exact told_event (.host call) rfl (by rw [World.answer, h])

/-- A call that is refused leaves everything but the log. -/
theorem perform_host_of_error {call : HostCall} {e : ChatError}
    (h : world.host state.log call state.room = .error e) :
    perform (host call).run world state = (.error e, state.note (.host call)) ∧
      Told world state [.host call (some e)] (state.note (.host call)) := by
  refine ⟨by rw [perform_host_eq, h]; rfl, ?_⟩
  exact told_event (.host call) rfl (by rw [World.answer, h]; rfl)

theorem perform_host (world : World) (state : ChatState) (call : HostCall) :
    ∃ failure after, perform (host call).run world state = (outcome failure, after) ∧
      Told world state [.host call failure] after := by
  cases h : world.host state.log call state.room with
  | ok room =>
    obtain ⟨after, hperform, htold, -⟩ := perform_host_of_ok h
    exact ⟨none, after, hperform, htold⟩
  | error e => exact ⟨some e, _, perform_host_of_error h⟩

end Act

end ChatMarkup

import ChatMarkup.Proofs.Chat.Exchange

/-!
# What an action asks

What an action gives goes with what it asked on the way, whatever state it began in. Such facts are
put together as the action is: what a sequence asks is what its parts ask, one after the other.

* `Act.Asks`: an action gives and asks only what a relation allows;
* `Act.Asks.bind`, `Act.Asks.attempt`: a sequence;
* `Told.unique`: what was asked between two states is settled by them, so that two such facts about
  one action are about the same exchanges.
-/

namespace ChatMarkup

variable {α β : Type} {world : World}

/-- What was asked between two states, and the answers to it, are settled by the log. -/
theorem Told.unique {state after : ChatState} {xs ys : List Exchange}
    (h : Told world state xs after) (hother : Told world state ys after) : xs = ys := by
  obtain ⟨first, hlog, hfirst⟩ := h
  obtain ⟨second, hlog', hsecond⟩ := hother
  have hsame : first = second := List.append_cancel_left (hlog.symm.trans hlog')
  subst hsame
  exact congrArg Prod.fst (hfirst.symm.trans hsecond)

/-- A world whose keeper of messages never fails. -/
def World.Obliging (world : World) : Prop :=
  ∀ past call room, ∃ after, world.host past call room = .ok after

namespace Act

/-- From every state, what an action gives and what it asks on the way are as `post` says. -/
def Asks (world : World) (act : Act α) (post : α → List Exchange → Prop) : Prop :=
  ∀ state, ∃ a after exchanges, perform act world state = (a, after) ∧
    Told world state exchanges after ∧ post a exchanges

variable {act : Act α} {post : α → List Exchange → Prop}

theorem Asks.mono (h : Asks world act post) {weaker : α → List Exchange → Prop}
    (himp : ∀ a xs, post a xs → weaker a xs) : Asks world act weaker := by
  intro state
  obtain ⟨a, after, xs, hperform, htold, hpost⟩ := h state
  exact ⟨a, after, xs, hperform, htold, himp a xs hpost⟩

/-- Where an action has led and what was asked on the way are as its fact says. -/
theorem Asks.of_told (h : Asks world act post) {state after : ChatState} {a : α}
    {xs : List Exchange} (hperform : perform act world state = (a, after))
    (htold : Told world state xs after) : post a xs := by
  obtain ⟨a', after', ys, hperform', htold', hpost⟩ := h state
  cases hperform.symm.trans hperform'
  cases htold.unique htold'
  exact hpost

/-! ## Sequences -/

theorem asks_pure {a : α} (h : post a []) : Asks world (pure a) post :=
  fun state => ⟨a, state, [], rfl, told_refl world state, h⟩

theorem Asks.bind (h : Asks world act post) {next : α → Act β} {last : β → List Exchange → Prop}
    (hnext : ∀ a xs, post a xs → Asks world (next a) fun b ys => last b (xs ++ ys)) :
    Asks world (act >>= next) last := by
  intro state
  obtain ⟨a, middle, xs, hperform, htold, hpost⟩ := h state
  obtain ⟨b, after, ys, hrest, htold', hlast⟩ := hnext a xs hpost middle
  exact ⟨b, after, xs ++ ys, (perform_bind_of_eq hperform next).trans hrest, htold.trans htold',
    hlast⟩

/-- An attempt goes on after a success and ends with a failure. -/
theorem Asks.attempt {first : Attempt α} {next : α → Attempt β}
    {post : Except ChatError α → List Exchange → Prop}
    {last : Except ChatError β → List Exchange → Prop} (h : Asks world first.run post)
    (hok : ∀ a xs, post (.ok a) xs → Asks world (next a).run fun b ys => last b (xs ++ ys))
    (herror : ∀ e xs, post (.error e) xs → last (.error e) xs) :
    Asks world (first >>= next).run last := by
  rw [ExceptT.run_bind]
  refine h.bind fun result xs hpost => ?_
  cases result with
  | ok a => exact hok a xs hpost
  | error e =>
    refine asks_pure ?_
    rw [List.append_nil]
    exact herror e xs hpost

/-- What is done with the result asks nothing more. -/
theorem Asks.map {f : α → β} {mapped : β → List Exchange → Prop}
    (h : Asks world act fun a xs => mapped (f a) xs) : Asks world (f <$> act) mapped := by
  intro state
  obtain ⟨a, after, xs, hperform, htold, hpost⟩ := h state
  refine ⟨f a, after, xs, ?_, htold, hpost⟩
  exact congrArg (Prod.map f id) hperform

/-- An attempt that goes on after an action which cannot fail. -/
theorem Asks.lift {next : α → Attempt β} (h : Asks world act post)
    {last : Except ChatError β → List Exchange → Prop}
    (hnext : ∀ a xs, post a xs → Asks world (next a).run fun b ys => last b (xs ++ ys)) :
    Asks world ((liftM act : Attempt α) >>= next).run last :=
  show Asks world (act >>= fun a => (next a).run) last from h.bind hnext

/-! ## Single actions -/

/-- An action that asks for nothing. -/
theorem asks_of_quiet (h : ∀ state, Told world state [] (perform act world state).2) :
    Asks world act fun _ xs => xs = [] :=
  fun state => ⟨_, _, [], rfl, h state, rfl⟩

theorem asks_exec (request : ExecRequest) :
    Asks world (exec request) fun answer xs => xs = [.exec request answer] := by
  intro state
  obtain ⟨answer, after, hperform, htold⟩ := perform_exec world state request
  exact ⟨answer, after, _, hperform, htold, rfl⟩

theorem asks_action (request : ActionRequest) :
    Asks world (action request) fun answer xs => xs = [.action request answer] :=
  fun state => ⟨world.action state.log request, state.note (.action request), _, rfl,
    told_event (.action request) rfl rfl, rfl⟩

theorem asks_host (call : HostCall) :
    Asks world (host call).run fun result xs =>
      ∃ failure, result = outcome failure ∧ xs = [.host call failure] := by
  intro state
  obtain ⟨failure, after, hperform, htold⟩ := perform_host world state call
  exact ⟨outcome failure, after, _, hperform, htold, failure, rfl, rfl⟩

/-- Where nothing is refused, a call is answered well, and nothing that is remembered of blocks
changes. -/
theorem perform_host_of_obliging (hworld : world.Obliging) (state : ChatState) (call : HostCall) :
    ∃ after, perform (host call).run world state = (.ok (), after) ∧
      Told world state [.host call none] after ∧ after.tables = state.tables := by
  obtain ⟨room, hroom⟩ := hworld state.log call state.room
  obtain ⟨after, hperform, htold, -, htables⟩ := perform_host_of_ok hroom
  exact ⟨after, hperform, htold, htables⟩

theorem asks_host_of_obliging (hworld : world.Obliging) (call : HostCall) :
    Asks world (host call).run fun result xs => result = .ok () ∧ xs = [.host call none] := by
  intro state
  obtain ⟨after, hperform, htold, -⟩ := perform_host_of_obliging hworld state call
  exact ⟨.ok (), after, _, hperform, htold, rfl, rfl⟩

theorem asks_birth : Asks world birth fun _ xs => xs = [] :=
  asks_of_quiet fun _ => told_of_eq rfl rfl

theorem asks_toolMessage (chat : String) (result : ExecResult) :
    Asks world (toolMessage chat result) fun tool xs =>
      xs = [] ∧ ∃ time, tool = ⟨result.id, .tool, result.message, some chat, time, false, false⟩ :=
  fun state => ⟨_, state, [], rfl, told_refl world state, rfl, _, rfl⟩

theorem asks_failureMessage (chat reason : String) :
    Asks world (failureMessage chat reason) fun report xs =>
      xs = [] ∧ ∃ birth : Birth, report =
        ⟨birth.id, .tool, "p \x7b " ++ Source.quote ("Execution failed: " ++ reason) ++ " \x7d",
          some chat, birth.createdAt, false, false⟩ :=
  fun _ => ⟨_, _, [], rfl, told_of_eq rfl rfl, rfl, _, rfl⟩

end Act

end ChatMarkup

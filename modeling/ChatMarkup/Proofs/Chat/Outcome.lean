import ChatMarkup.Proofs.Chat.Asking
import ChatMarkup.Proofs.Chat.Saving
import ChatMarkup.Proofs.Source.Shape

/-!
# How saving ends where nothing is refused

Where the keeper of the messages refuses nothing, a run that fails for another reason than its code
is all that can end a draining, and a rendering that saves then fails with what the run was answered
with. Otherwise only a tree that cannot be written makes it fail.

* `breaks`: the failures that end a draining, of which there is one at most;
* `Queue.asks_runEntries`: a draining fails with that one;
* `Session.render_saves`: what a rendering that saves asks, and how it ends.
-/

namespace ChatMarkup

variable {world : World}

/-! ## Failures -/

/-- The failure of a run that ends a draining: any but that of the code itself. -/
def break? : Except ChatError ExecResult → Option ChatError
  | .ok _ => none
  | .error (.execution _) => none
  | .error e => some e

/-- The failures among the answers that end a draining. -/
def breaks (exchanges : List Exchange) : List ChatError :=
  (answers exchanges).filterMap break?

/-- The failure with which something has ended, if it has failed. -/
def failures {α : Type} : Except ChatError α → List ChatError
  | .ok _ => []
  | .error e => [e]

theorem failures_map {α β : Type} (f : α → β) (result : Except ChatError α) :
    failures (result.map f) = failures result := by
  cases result <;> rfl

theorem breaks_append (xs ys : List Exchange) : breaks (xs ++ ys) = breaks xs ++ breaks ys := by
  rw [breaks, answers_append, List.filterMap_append]
  rfl

/-- Keeping a message ends no draining. -/
theorem Saves.breaks_eq {chat id : String} {tree : Node} {blocks : List CodeBlock}
    {drained saved : List Exchange} (h : Saves chat id tree blocks drained saved) :
    breaks (drained ++ saved) = breaks drained :=
  congrArg (List.filterMap break?) h.answers_eq

theorem mem_breaks {exchanges : List Exchange} {e : ChatError} :
    e ∈ breaks exchanges ↔ .error e ∈ answers exchanges ∧ ∀ reason, e ≠ .execution reason := by
  rw [breaks, List.mem_filterMap]
  constructor
  · rintro ⟨answer, hanswer, hbreak⟩
    cases answer with
    | ok result => cases hbreak
    | error failure => cases failure <;> cases hbreak <;> exact ⟨hanswer, nofun⟩
  · rintro ⟨hanswer, hreason⟩
    refine ⟨_, hanswer, ?_⟩
    cases e with
    | execution reason => exact absurd rfl (hreason reason)
    | _ => rfl

/-! ## Refusals -/

/-- Whether the keeper of the messages has refused a call. -/
def Exchange.refused : Exchange → Bool
  | host _ failure => failure.isSome
  | _ => false

theorem World.Obliging.answer (h : world.Obliging) (past : List Event) (room : Room)
    (event : Event) : ∀ x ∈ (world.answer past room event).1, x.refused = false := by
  intro x hx
  cases event with
  | shown blocks => cases hx
  | exec request | action request =>
    rw [List.mem_singleton.mp hx]
    rfl
  | host call =>
    obtain ⟨after, hafter⟩ := h past call room
    rw [World.answer, hafter] at hx
    rw [List.mem_singleton.mp hx]
    rfl

/-- A world where code is run so, nothing is refused, and nobody does anything meanwhile. What a room
cannot do leaves it as it is. -/
def obligingWorld (exec : ExecRequest → Except ChatError ExecResult) : World where
  exec _ request := exec request
  action _ request := .ok ⟨"run", request.code, none⟩
  host _ call room := .ok ((room.perform call).toOption.getD room)
  meanwhile _ _ _ := []
  newId := toString
  now _ := ⟨0, 0⟩

theorem obliging_obligingWorld (exec : ExecRequest → Except ChatError ExecResult) :
    (obligingWorld exec).Obliging :=
  fun _ _ _ => ⟨_, rfl⟩

theorem Told.not_refused {state after : ChatState} {exchanges : List Exchange}
    (h : Told world state exchanges after) (hworld : world.Obliging) :
    ∀ x ∈ exchanges, x.refused = false :=
  h.forall hworld.answer

/-- Where no call is refused, a draining goes on unless a run ends it. -/
theorem passes_iff {exchanges : List Exchange} (hdrains : ∀ x ∈ exchanges, x.drains = true)
    (hrefused : ∀ x ∈ exchanges, x.refused = false) :
    Passes exchanges ↔ breaks exchanges = [] := by
  induction exchanges with
  | nil => exact iff_of_true passes_nil rfl
  | cons x exchanges ih =>
    rw [List.forall_mem_cons] at hdrains hrefused
    have hsplit : breaks (x :: exchanges) = breaks [x] ++ breaks exchanges :=
      breaks_append [x] exchanges
    rw [passes_cons, ih hdrains.2 hrefused.2, hsplit, List.append_eq_nil_iff]
    refine and_congr_left fun _ => ?_
    cases x with
    | exec request answer =>
      cases answer with
      | ok result => exact iff_of_true rfl rfl
      | error e =>
        cases e with
        | execution reason => exact iff_of_true rfl rfl
        | _ => exact iff_of_false nofun nofun
    | action request answer =>
      exact absurd hdrains.1 (by simp [Exchange.drains, Exchange.request?, Exchange.posts])
    | host call failure => exact iff_of_true hrefused.1 rfl

/-! ## Draining -/

namespace Queue

/-- An entry fails with the failure of its run, unless that is one of the code itself. -/
theorem asks_runEntry (hworld : world.Obliging) (chat messageId : String) (entry : QueuedCode)
    (tree : Node) :
    Act.Asks world (runEntry chat messageId entry tree) fun ending xs =>
      breaks xs = failures ending.2 := by
  refine (Act.asks_exec _).bind fun answer xs hxs => ?_
  subst hxs
  have hhost := fun call => Act.asks_host_of_obliging hworld call
  match answer with
  | .ok result =>
    refine (Act.asks_toolMessage chat result).bind fun tool ys hys => ?_
    obtain ⟨rfl, -⟩ := hys
    refine (hhost (.push tool)).bind fun pushed ys hpushed => ?_
    obtain ⟨rfl, rfl⟩ := hpushed
    refine (hhost (.send tool)).bind fun sent ys hsent => ?_
    obtain ⟨rfl, rfl⟩ := hsent
    exact Act.asks_pure rfl
  | .error (.execution reason) =>
    refine (Act.asks_failureMessage chat reason).bind fun report ys hys => ?_
    obtain ⟨rfl, -⟩ := hys
    refine (hhost (.push report)).bind fun pushed ys hpushed => ?_
    obtain ⟨rfl, rfl⟩ := hpushed
    exact Act.asks_pure rfl
  | .error (.markup _) | .error (.network _) | .error (.host _) | .error .aborted
  | .error (.config _) | .error (.unknownNode ..) | .error (.unknownBlock _) =>
    exact Act.asks_pure rfl

theorem asks_runEntries (hworld : world.Obliging) (chat messageId : String)
    (entries : List QueuedCode) (tree : Node) :
    Act.Asks world (runEntries chat messageId entries tree) fun ending xs =>
      breaks xs = failures ending.2 := by
  induction entries generalizing tree with
  | nil => exact Act.asks_pure rfl
  | cons entry entries ih =>
    rw [runEntries]
    refine (asks_runEntry hworld chat messageId entry tree).bind fun ending xs hxs => ?_
    obtain ⟨left, outcome⟩ := ending
    cases outcome with
    | error e =>
      refine Act.asks_pure ?_
      rwa [List.append_nil]
    | ok stamped =>
      refine (ih left).bind fun rest ys hys => Act.asks_pure ?_
      rw [breaks_append, breaks_append, hxs, hys, failures_map]
      exact List.append_nil _

theorem asks_drain (hworld : world.Obliging) (chat messageId : String)
    (queue : List QueuedCode) (tree : Node) :
    Act.Asks world (drain chat messageId queue tree) fun drained xs =>
      breaks xs = failures drained.outcome := by
  refine (asks_runEntries hworld chat messageId queue tree).bind fun ending xs hxs =>
    Act.asks_pure ?_
  rwa [List.append_nil]

end Queue

/-! ## Saving -/

namespace Session

/-- What comes of a rendering that saves once the view is made and all code was run: the view,
unless the tree cannot be written. -/
def Comes (view : View CodeBlock) (result : Except ChatError (Option (View CodeBlock))) : Prop :=
  result = .ok (some view) ∨ ∃ found, result = .error (.markup (.shape found))

/-- Where nothing is refused, a message is kept if its tree can be written. -/
theorem asks_keep_written (hworld : world.Obliging) (id : String) (view : View CodeBlock)
    (tree : Node) :
    Act.Asks world (keep id view tree).run fun result xs =>
      requests xs = [] ∧ answers xs = [] ∧
      ((∃ source, Source.write tree = .ok source ∧ result = .ok (some view)) ∨
        ∃ e, Source.write tree = .error e ∧ result = .error (.markup e) ∧ xs = []) := by
  intro state
  obtain ⟨saved, result, after, hperform, htold, hasks⟩ := keep_asks id view tree world state
  have hrefused := htold.not_refused hworld
  refine ⟨result, after, saved, hperform, htold, ?_⟩
  cases hasks with
  | unwritten e hwrite => exact ⟨rfl, rfl, .inr ⟨e, hwrite, rfl, rfl⟩⟩
  | kept source hwrite => exact ⟨rfl, rfl, .inl ⟨source, hwrite, rfl⟩⟩
  | refused source e => simp [Exchange.refused] at hrefused
  | unrefreshed source e => simp [Exchange.refused] at hrefused

theorem asks_keep (hworld : world.Obliging) (id : String) (view : View CodeBlock) (tree : Node) :
    Act.Asks world (keep id view tree).run fun result xs => breaks xs = [] ∧ Comes view result := by
  refine (asks_keep_written hworld id view tree).mono fun result xs hxs => ?_
  obtain ⟨-, hanswers, hends⟩ := hxs
  refine ⟨by rw [breaks, hanswers]; rfl, ?_⟩
  rcases hends with ⟨source, -, hresult⟩ | ⟨e, hwrite, hresult, -⟩
  · exact .inl hresult
  · obtain ⟨found, rfl⟩ := Source.error_write hwrite
    exact .inr ⟨found, hresult⟩

/-- A rendering that saves fails with the failure that has ended the draining; if none has, the view
comes of it, unless the tree cannot be written. -/
theorem asks_afterView (hworld : world.Obliging) (session : Session) (message : Message)
    (tree : Node) (queued : List QueuedCode) (view : View CodeBlock) :
    Act.Asks world (session.afterView message tree queued view).run fun result xs =>
      (∃ e, breaks xs = [e] ∧ result = .error e) ∨ (breaks xs = [] ∧ Comes view result) := by
  rw [afterView]
  refine (Queue.asks_drain hworld _ _ queued tree).lift fun drained xs hxs => ?_
  cases houtcome : drained.outcome with
  | error e =>
    rw [houtcome] at hxs
    exact Act.asks_pure (.inl ⟨e, by rw [List.append_nil]; exact hxs, rfl⟩)
  | ok stamped =>
    rw [houtcome] at hxs
    cases stamped with
    | false => exact Act.asks_pure (.inr ⟨by rw [List.append_nil]; exact hxs, .inl rfl⟩)
    | true =>
      refine (asks_keep hworld message.id view drained.tree).mono fun result ys hys => .inr ?_
      rw [breaks_append, hxs, hys.1]
      exact ⟨rfl, hys.2⟩

/-- A message with something to show, saved where nothing is refused: what is queued is what its
blocks are, what is asked is what saving them asks, and the rendering ends as the draining does. -/
theorem render_saves (hworld : world.Obliging) (session : Session) {message : Message} {tree : Node}
    (hcontent : message.hasContent = true) (hread : Source.read message.text = .ok tree)
    (state : ChatState) :
    ∃ view blocks drained saved result after,
      (state.render (.display true) message.id tree).1.view = .ok view ∧
      blocks = view.blocks.filter (CodeBlock.runsIn tree) ∧
      blocks.map CodeBlock.source = tree.codeSources.filter CodeSource.runs ∧
      (session.render message true).run.perform world state = (result, after) ∧
      Told world state (drained ++ saved) after ∧
      Saves (message.chat.getD session.chat) message.id tree blocks drained saved ∧
      ((∃ e, breaks drained = [e] ∧ result = .error e) ∨
        (breaks drained = [] ∧ Comes view result)) := by
  obtain ⟨view, blocks, hview, hblocks, hsources, hrender⟩ :=
    session.render_of_read_saving hcontent hread world state
  obtain ⟨drained, saved, result, after, hperform, htold, hsaves, -⟩ :=
    session.saves_afterView message tree blocks view world
      (state.render (.display true) message.id tree).2
  have hends := (asks_afterView hworld session message tree _ view).of_told hperform htold
  rw [hsaves.breaks_eq] at hends
  exact ⟨view, blocks, drained, saved, result, after, hview, hblocks, hsources,
    hrender.trans hperform, (told_of_eq rfl rfl).after_quiet htold, hsaves, hends⟩

end Session

end ChatMarkup

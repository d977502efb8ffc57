import ChatMarkup.Proofs.Chat.Readable
import ChatMarkup.Proofs.Chat.Stamping
import ChatMarkup.Proofs.Source.Refusal

/-!
# Code that is run before the write-back is refused

A message that is shown can have code elements that cannot be written. Saving it runs its code
first. If that has stamped the tree, and an element cannot be written, the rendering fails with the
refusal, and the code was run for nothing.

* `Node.refusals_stampAll`: the stamps of a rendering leave the refusals of its tree as they are;
* `Session.render_writes_back`: where all code runs and nothing is refused, a message that is shown
  is saved unless it is stamped and has a refusal;
* `Session.render_refused`: a message that is shown, and is not saved although its code has run.
-/

namespace ChatMarkup

open Source

variable {world : World}

/-! ## Stamped trees -/

theorem Node.refusals_stampAll (tree : Node) (names : List (Nat × String)) :
    (tree.stampAll names).refusals = tree.refusals := by
  induction names generalizing tree with
  | nil => rfl
  | cons name names ih => rw [stampAll_cons, ih, refusals_stamp]

/-- What is written for a tree that was read and then stamped is refused for the first refusal of
the tree that was read. -/
theorem refusal?_write_stampAll {source : String} {tree : Node} (hread : read source = .ok tree)
    (names : List (Nat × String)) :
    refusal? (write (tree.stampAll names)) = tree.refusals.head? := by
  have hrevised := (revised_stampAll (.read hread) names).1
  rw [refusal?_write hrevised.isDocument, Node.refusals_stampAll]

/-! ## Draining where all code runs -/

/-- A world where all code runs. -/
def World.Running (world : World) : Prop :=
  ∀ past request, ∃ result, world.exec past request = .ok result

theorem World.Running.answer (hruns : world.Running) (hworld : world.Obliging) (past : List Event)
    (room : Room) (event : Event) :
    ∀ x ∈ (world.answer past room event).1, x.drains = true → x.stops = false := by
  intro x hx hdrains
  cases event with
  | shown blocks => cases hx
  | exec request =>
    obtain ⟨result, hresult⟩ := hruns past request
    rw [World.answer, hresult] at hx
    rw [List.mem_singleton.mp hx]
    rfl
  | action request =>
    rw [List.mem_singleton.mp hx] at hdrains
    cases hdrains
  | host call =>
    obtain ⟨after, hafter⟩ := hworld past call room
    rw [World.answer, hafter] at hx
    rw [List.mem_singleton.mp hx]
    rfl

/-- Where all code runs and nothing is refused, nothing ends a draining. -/
theorem Told.passes {state after : ChatState} {exchanges : List Exchange}
    (h : Told world state exchanges after) (hruns : world.Running) (hworld : world.Obliging)
    (hdrains : ∀ x ∈ exchanges, x.drains = true) : Passes exchanges :=
  fun x hx => h.forall (hruns.answer hworld) x hx (hdrains x hx)

/-- The file names that the runs of some blocks have left. -/
def namesLeft (sources : List CodeSource) (asked : List Exchange) : List (Nat × String) :=
  filenames (sources.map CodeSource.node) (answers asked)

namespace Queue

/-- Where all code runs and nothing is refused, draining runs all blocks, and stamps the tree with
the file names that they leave. -/
theorem asks_drain_running (hruns : world.Running) (hworld : world.Obliging)
    (chat messageId : String) (sources : List CodeSource) (tree : Node) :
    Act.Asks world (drain chat messageId (sources.map waiting) tree) fun drained xs =>
      requests xs = sources.map (request chat messageId) ∧ (∀ x ∈ xs, x.drains = true) ∧
      drained.tree = tree.stampAll (namesLeft sources xs) ∧
      drained.outcome = .ok (tree.lacksAny (namesLeft sources xs)) := by
  intro state
  obtain ⟨asked, ending, after, hrun, htold, hdrains, hends⟩ :=
    drainsTo_runEntries chat messageId sources tree world state
  have hpasses := htold.passes hruns hworld hdrains
  refine ⟨⟨ending.1, [], ending.2⟩, after, asked, Act.perform_bind_of_eq hrun _, htold, ?_⟩
  cases hends with
  | complete _ hrequests => exact ⟨hrequests, hdrains, rfl, rfl⟩
  | halted hhalts => exact absurd hpasses hhalts.not_passes

end Queue

namespace Session

/-- What comes of saving a tree that was shown, once its code was run with what was asked: a view,
unless the tree was stamped and has a refusal. -/
inductive WritesBack (tree : Node) (asked : List Exchange) :
    Except ChatError (Option (View CodeBlock)) → Prop
  | unstamped (view : View CodeBlock) :
      tree.lacksAny (namesLeft (tree.codeSources.filter CodeSource.runs) asked) = false →
      WritesBack tree asked (.ok (some view))
  | written (view : View CodeBlock) : tree.refusals = [] → WritesBack tree asked (.ok (some view))
  | refused (e : MarkupError) :
      tree.lacksAny (namesLeft (tree.codeSources.filter CodeSource.runs) asked) = true →
      tree.refusals.head? = some e → (∀ x ∈ asked, x.drains = true) →
      WritesBack tree asked (.error (.markup e))

theorem asks_afterView_running (hruns : world.Running) (hworld : world.Obliging)
    (session : Session) (message : Message) {tree : Node}
    (hread : Source.read message.text = .ok tree) (view : View CodeBlock) :
    Act.Asks world (session.afterView message tree
        ((tree.codeSources.filter CodeSource.runs).map Queue.waiting) view).run fun result asked =>
      requests asked = (tree.codeSources.filter CodeSource.runs).map
        (Queue.request (message.chat.getD session.chat) message.id) ∧
      WritesBack tree asked result := by
  rw [afterView]
  refine (Queue.asks_drain_running hruns hworld (message.chat.getD session.chat) _ _ tree).lift
    fun drained xs hxs => ?_
  obtain ⟨hrequests, hdrains, htree, houtcome⟩ := hxs
  rw [houtcome, htree]
  cases hlacks : tree.lacksAny (namesLeft (tree.codeSources.filter CodeSource.runs) xs) with
  | false =>
    refine Act.asks_pure ?_
    rw [List.append_nil]
    exact ⟨hrequests, .unstamped view hlacks⟩
  | true =>
    refine (asks_keep_written hworld message.id view _).mono fun result ys hys => ?_
    obtain ⟨hnone, hsilent, hends⟩ := hys
    have hrefusal := refusal?_write_stampAll hread
      (namesLeft (tree.codeSources.filter CodeSource.runs) xs)
    refine ⟨by rw [requests_append, hrequests, hnone, List.append_nil], ?_⟩
    rcases hends with ⟨source, hwrite, rfl⟩ | ⟨e, hwrite, rfl, rfl⟩
    · rw [hwrite] at hrefusal
      exact .written view (List.head?_eq_none_iff.mp hrefusal.symm)
    · rw [hwrite] at hrefusal
      rw [List.append_nil]
      exact .refused e hlacks hrefusal.symm hdrains

/-- A message that is shown, saved where all code runs and nothing is refused: all its runnable
blocks are run, and the saving fails exactly if a run has stamped the tree and the tree has a
refusal. -/
theorem render_writes_back (session : Session) (message : Message) {world : World}
    (hworld : world.Obliging) (hruns : world.Running) (state : ChatState) {view : View CodeBlock}
    (hshown : ((session.render message false).run.perform world state).1 = .ok (some view)) :
    ∃ tree asked result after,
      Source.read message.text = .ok tree ∧
      (session.render message true).run.perform world state = (result, after) ∧
      Told world state asked after ∧
      requests asked = (tree.codeSources.filter CodeSource.runs).map
        (Queue.request (message.chat.getD session.chat) message.id) ∧
      WritesBack tree asked result := by
  rcases session.idles_or_read message with ⟨result, hidles⟩ | ⟨hcontent, tree, hread⟩
  · rw [hidles.perform_eq false world state] at hshown
    exact absurd hshown (hidles.hidden view)
  · obtain ⟨view, -, -, hrender⟩ := session.render_of_read hcontent hread true world state
    obtain ⟨result, after, asked, hperform, htold, hrequests, hwrites⟩ :=
      asks_afterView_running hruns hworld session message hread view
        (state.render (.display true) message.id tree).2
    exact ⟨tree, asked, result, after, hread, hrender.trans hperform,
      (told_of_eq rfl rfl).after_quiet htold, hrequests, hwrites⟩

/-- A message with a block to be run, and a code element whose body is two strings. -/
def unwritableMessage : Message where
  id := "m"
  sender := .assistant
  text := "code[lang=lugha, run=true] \x7b `a` \x7d\ncode \x7b `x` `y` \x7d"
  chat := none
  createdAt := ⟨0, 0⟩
  transient := false
  streaming := false

/-- Every run leaves a file of the same name. -/
def runNamed (filename : String) (request : ExecRequest) : Except ChatError ExecResult :=
  .ok ⟨"run", request.code, some filename⟩

theorem running_runNamed (filename : String) : (obligingWorld (runNamed filename)).Running :=
  fun _ _ => ⟨_, rfl⟩

theorem render_writes_back_unwritable :
    let world := obligingWorld (runNamed "a.lg")
    let start := ChatState.start (.ofMessages [unwritableMessage])
    (∃ view, ((Session.render ⟨"room", ""⟩ unwritableMessage false).run.perform world start).1 =
      .ok (some view)) ∧
    ∃ tree asked result after,
      Source.read unwritableMessage.text = .ok tree ∧
      (Session.render ⟨"room", ""⟩ unwritableMessage true).run.perform world start =
        (result, after) ∧
      Told world start asked after ∧ WritesBack tree asked result := by
  intro world start
  have hok : ((Session.render ⟨"room", ""⟩ unwritableMessage false).run.perform world
      start).1.toOption.any Option.isSome = true := by
    decide +kernel
  obtain ⟨shown, hshown, hsome⟩ := (Option.any_eq_true _ _).mp hok
  obtain ⟨view, rfl⟩ := Option.isSome_iff_exists.mp hsome
  replace hshown := eq_ok_of_toOption hshown
  obtain ⟨tree, asked, result, after, hread, hperform, htold, -, hwrites⟩ :=
    Session.render_writes_back ⟨"room", ""⟩ unwritableMessage
      (obliging_obligingWorld (runNamed "a.lg")) (running_runNamed "a.lg") start hshown
  exact ⟨⟨view, hshown⟩, tree, asked, result, after, hread, hperform, htold, hwrites⟩

/-- The message is shown, and its code runs and leaves a file. Saving it fails all the same, and the
message is not kept. -/
theorem render_refused :
    let world := obligingWorld (runNamed "a.lg")
    let start := ChatState.start (.ofMessages [unwritableMessage])
    let saved := (Session.render ⟨"room", ""⟩ unwritableMessage true).run.perform world start
    ((Session.render ⟨"room", ""⟩ unwritableMessage false).run.perform world
      start).1.toOption.any Option.isSome = true ∧
    failures saved.1 = [.markup (.shape "Block with 2 children")] ∧
    answers (world.replay start.log start.room saved.2.log).1 =
      [.ok ⟨"run", "a", some "a.lg"⟩] ∧
    edits saved.2.log = [] := by
  decide +kernel

end Session

end ChatMarkup

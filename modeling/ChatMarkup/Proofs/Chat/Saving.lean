import ChatMarkup.Chat.Session
import ChatMarkup.Proofs.Chat.Drain
import ChatMarkup.Proofs.Source.RoundTrip
import ChatMarkup.Proofs.View.Rendering

/-!
# Saving runs what is shown

Rendering a message for saving runs blocks that the view shows, and no other code, and keeps the
message if that has stamped it.

* `Saves`: what a rendering that saves asks of the world;
* `KeepAsks`: what it asks to keep the message, which can go in four ways;
* `Session.idles_or_read`: a rendering does nothing, or it shows a document that was read;
* `Session.render_asks`: every message that is read is saved so, in every world, and a rendering
  that does not save asks nothing.
-/

namespace ChatMarkup

open Source

/-- Whether a block that is shown of a tree is in the language that can be run, and its element asks
for that. -/
def CodeBlock.runsIn (tree : Node) (block : CodeBlock) : Bool :=
  block.source.lang = "lugha" &&
    ((tree.findElement block.source.node).bind fun element => element.scalar? "run").any
      fun scalar => scalar ∈ [.string "true", .boolean true, .identifier "true"]

/-- The calls that keep a message with a source: the edit, and the refresh if the edit succeeds. -/
inductive IsSaving (id source : String) : List Exchange → Prop
  | failed (e : ChatError) : IsSaving id source [.host (.edit id source) (some e)]
  | kept (failure : Option ChatError) :
      IsSaving id source [.host (.edit id source) none, .host .refresh failure]

/-- What saving a message asks of the world when these blocks are to be run: first to drain them,
and then to keep the message. -/
structure Saves (chat id : String) (tree : Node) (blocks : List CodeBlock)
    (drained saved : List Exchange) : Prop where
  /-- Draining runs code and posts messages. -/
  drains : ∀ x ∈ drained, x.drains = true
  /-- What is run is what is to be run, from the first block on. -/
  inOrder : requests drained <+: blocks.map fun block => ⟨chat, id, block.source.code⟩
  /-- Without a failure that ends the draining all blocks are run. -/
  complete : Passes drained →
    requests drained = blocks.map fun block => ⟨chat, id, block.source.code⟩
  /-- Nothing is asked after a failure. -/
  halts : ∀ before x after, drained ++ saved = before ++ x :: after → x.stops = true → after = []
  /-- The message is kept once all blocks are run, if the runs have left a file name for an element
  that lacks one and the stamped tree can be written. -/
  keeps : ∀ source, IsSaving id source saved ↔
    Passes drained ∧
      (∃ name ∈ filenames (blocks.map fun block => block.source.node) (answers drained),
        tree.LacksName name.1) ∧
      write (tree.stampAll
        (filenames (blocks.map fun block => block.source.node) (answers drained))) = .ok source
  /-- The stamped tree has the names on their elements, and is else what was read. -/
  stamped : tree.Stamped (filenames (blocks.map fun block => block.source.node) (answers drained))
    (tree.stampAll (filenames (blocks.map fun block => block.source.node) (answers drained)))
  /-- Nothing else is asked after the draining. -/
  silent : saved = [] ∨ ∃ source, IsSaving id source saved

/-! ## Failures come last -/

/-- No exchange comes after one that ends a draining. -/
def StopsLast (exchanges : List Exchange) : Prop :=
  ∀ before x after, exchanges = before ++ x :: after → x.stops = true → after = []

theorem Passes.stopsLast {exchanges : List Exchange} (h : Passes exchanges) :
    StopsLast exchanges := by
  rintro before x after rfl hstops
  have := h x (List.mem_append_right before List.mem_cons_self)
  rw [this] at hstops
  cases hstops

theorem Halts.stopsLast {exchanges : List Exchange} (h : Halts exchanges) :
    StopsLast exchanges := by
  obtain ⟨first, last, rfl, hfirst, -⟩ := h
  intro before x after heq hstops
  rcases List.append_eq_append_iff.mp heq with ⟨more, rfl, hlast⟩ | ⟨more, rfl, hlast⟩
  · cases more with
    | nil =>
      cases hlast
      rfl
    | cons y more => simp at hlast
  · cases more with
    | nil =>
      cases hlast
      rfl
    | cons y more =>
      cases hlast
      have := hfirst x (List.mem_append_right before List.mem_cons_self)
      rw [this] at hstops
      cases hstops

theorem passes_or_halts_saving {id source : String} {saved : List Exchange}
    (h : IsSaving id source saved) : Passes saved ∨ Halts saved := by
  cases h with
  | failed e => exact .inr (halts_singleton rfl)
  | kept failure =>
    cases failure with
    | none => exact .inl (by simp [Passes, Exchange.stops])
    | some e => exact .inr (.cons (halts_singleton rfl) rfl)

theorem IsSaving.source_eq {id source other : String} {saved : List Exchange}
    (h : IsSaving id source saved) (hother : IsSaving id other saved) : other = source := by
  cases h <;> cases hother <;> rfl

/-! ## Nothing is run to keep a message -/

theorem requests_saving {id source : String} {saved : List Exchange} (h : IsSaving id source saved) :
    requests saved = [] := by
  cases h <;> rfl

theorem answers_saving {id source : String} {saved : List Exchange} (h : IsSaving id source saved) :
    answers saved = [] := by
  cases h <;> rfl

section

variable {chat id : String} {tree : Node} {blocks : List CodeBlock} {drained saved : List Exchange}

theorem Saves.requests_eq (h : Saves chat id tree blocks drained saved) :
    requests (drained ++ saved) = requests drained := by
  rw [requests_append]
  rcases h.silent with rfl | ⟨source, hsaving⟩
  · exact List.append_nil _
  · rw [requests_saving hsaving, List.append_nil]

theorem Saves.answers_eq (h : Saves chat id tree blocks drained saved) :
    answers (drained ++ saved) = answers drained := by
  rw [answers_append]
  rcases h.silent with rfl | ⟨source, hsaving⟩
  · exact List.append_nil _
  · rw [answers_saving hsaving, List.append_nil]

end

/-! ## The blocks that are shown -/

/-- Blocks are numbered as their sources are. -/
theorem nodes_of_sources {blocks : List CodeBlock} {sources : List CodeSource}
    (h : blocks.map CodeBlock.source = sources) :
    blocks.map (fun block => block.source.node) = sources.map CodeSource.node := by
  rw [← h, List.map_map]
  rfl

/-- A message of nothing but blanks is an empty document. -/
theorem read_of_isBlankText {text : String} (h : isBlankText text = true) :
    read text = .ok (.ofItems []) := by
  have hskip : skipTrivia text.toList = [] := by
    have hblanks : ∀ c ∈ text.toList, isBlank c = true := by simpa [isBlankText] using h
    have := Assembly.skipTrivia_blanks hblanks []
    rwa [List.append_nil] at this
  have hrun : Assembly.empty.run text.toList = .ok [] := by
    apply Assembly.run_of_done
    rw [Assembly.step, hskip]
    rfl
  rw [Source.read, hrun]

/-- The blocks that are shown and that saving runs are those that were queued. -/
theorem source_filter_runsIn {source : String} {tree : Node} (hread : read source = .ok tree)
    {blocks : List CodeBlock} (hblocks : blocks.map CodeBlock.source = tree.codeSources) :
    (blocks.filter (CodeBlock.runsIn tree)).map CodeBlock.source =
      tree.codeSources.filter CodeSource.runs := by
  have hruns : ∀ block ∈ blocks, block.runsIn tree = block.source.runs := by
    intro block hblock
    have hmem : block.source ∈ tree.codeSources := hblocks ▸ List.mem_map_of_mem hblock
    obtain ⟨element, hfind, hasks⟩ := findElement_of_codeSource (isDocument_of_read hread)
      (nodup_ids_of_read hread) hmem
    rw [funext Scalar.isTrue_eq] at hasks
    rw [CodeBlock.runsIn, hfind, CodeSource.runs, CodeSource.canRun, hasks]
    rfl
  rw [List.filter_congr hruns, ← hblocks, List.filter_map]
  rfl

namespace Session

/-! ## Rendering without saving -/

/-- Keeps a message that is shown so with the source of a tree. -/
def keep (id : String) (view : View CodeBlock) (tree : Node) :
    Attempt (Option (View CodeBlock)) := do
  let source ← ofMarkup (Source.write tree)
  Act.host (.edit id source)
  Act.host .refresh
  return some view

/-- What is left to do once the view of a message is made: its code is run, and if that has stamped
the tree, the message is kept. -/
def afterView (session : Session) (message : Message) (tree : Node) (queued : List QueuedCode)
    (view : View CodeBlock) : Attempt (Option (View CodeBlock)) := do
  let drained ← Queue.drain (session.chatOf message) message.id queued tree
  let stamped ← ExceptT.mk (pure drained.outcome)
  if stamped then keep message.id view drained.tree else return some view

theorem perform_ofMarkup {α : Type} {result : Except MarkupError α} {a : α} (h : result = .ok a)
    (world : World) (state : ChatState) :
    (ofMarkup result).run.perform world state = (.ok a, state) := by
  rw [h]
  rfl

theorem perform_ofMarkup_error {α : Type} {result : Except MarkupError α} {e : MarkupError}
    (h : result = .error e) (world : World) (state : ChatState) :
    (ofMarkup result).run.perform world state = (.error (.markup e), state) := by
  rw [h]
  rfl

/-- A message that is read is shown, and then its code is run. -/
theorem render_of_read (session : Session) {message : Message} {tree : Node}
    (hcontent : message.hasContent = true) (hread : read message.text = .ok tree) (save : Bool)
    (world : World) (state : ChatState) :
    ∃ view, (state.render (.display save) message.id tree).1.view = .ok view ∧
      view.blocks.map CodeBlock.source = tree.codeSources ∧
      Act.perform (session.render message save).run world state =
        Act.perform (session.afterView message tree
          (Rendering.queue (.display save) tree.codeSources) view).run world
            (state.render (.display save) message.id tree).2 := by
  obtain ⟨view, hview, hblocks, hqueued⟩ := Rendering.render_of_document
    (isDocument_of_read hread) (.display save) (state.table message.id)
  refine ⟨view, hview, hblocks, ?_⟩
  rw [← hqueued]
  have hstart : (session.render message save).run.perform world state =
      (ofMarkup (Source.read message.text) >>= fun tree => (do
        let state ← getThe ChatState
        let rendered := state.render (.display save) message.id tree
        set rendered.2
        let view ← ofMarkup rendered.1.view
        session.afterView message tree rendered.1.queued view : Attempt _)).run.perform world
          state := by
    rw [render, hcontent]
    rfl
  rw [hstart, Act.perform_bind_of_ok (perform_ofMarkup hread world state)]
  exact Act.perform_bind_of_ok (perform_ofMarkup hview world _) _

/-- Saving a message that is read runs the blocks of its view that are to be run. -/
theorem render_of_read_saving (session : Session) {message : Message} {tree : Node}
    (hcontent : message.hasContent = true) (hread : read message.text = .ok tree) (world : World)
    (state : ChatState) :
    ∃ view blocks, (state.render (.display true) message.id tree).1.view = .ok view ∧
      blocks = view.blocks.filter (CodeBlock.runsIn tree) ∧
      blocks.map CodeBlock.source = tree.codeSources.filter CodeSource.runs ∧
      Act.perform (session.render message true).run world state =
        Act.perform (session.afterView message tree
          ((blocks.map CodeBlock.source).map Queue.waiting) view).run world
            (state.render (.display true) message.id tree).2 := by
  obtain ⟨view, hview, hblocks, hrender⟩ := session.render_of_read hcontent hread true world state
  have hsources := source_filter_runsIn hread hblocks
  refine ⟨view, _, hview, rfl, hsources, ?_⟩
  rw [hsources]
  exact hrender

theorem render_blank (session : Session) {message : Message} (h : message.hasContent = false)
    (save : Bool) (world : World) (state : ChatState) :
    (session.render message save).run.perform world state = (.ok none, state) := by
  rw [render, h]
  rfl

theorem render_unread (session : Session) {message : Message} {e : MarkupError}
    (hcontent : message.hasContent = true) (h : Source.read message.text = .error e) (save : Bool)
    (world : World) (state : ChatState) :
    (session.render message save).run.perform world state = (.error (.markup e), state) := by
  rw [render, hcontent]
  exact Act.perform_bind_of_error (perform_ofMarkup_error h world state) _

/-- A message that is not shown: it is blank, or it cannot be read. -/
structure Idles (session : Session) (message : Message)
    (result : Except ChatError (Option (View CodeBlock))) : Prop where
  /-- Nothing is asked and nothing is remembered. -/
  perform_eq : ∀ save world state,
    (session.render message save).run.perform world state = (result, state)
  hidden : ∀ view, result ≠ .ok (some view)
  /-- If it can be read, there is nothing in it. -/
  blank : ∀ tree, Source.read message.text = .ok tree →
    message.hasContent = false ∧ tree = .ofItems []

theorem idles_or_read (session : Session) (message : Message) :
    (∃ result, session.Idles message result) ∨
      message.hasContent = true ∧ ∃ tree, Source.read message.text = .ok tree := by
  cases hcontent : message.hasContent with
  | false =>
    have hblank : isBlankText message.text = true := by simpa [Message.hasContent] using hcontent
    refine .inl ⟨.ok none, session.render_blank hcontent, by simp, fun tree hread => ⟨hcontent, ?_⟩⟩
    rw [read_of_isBlankText hblank] at hread
    exact (Except.ok.inj hread).symm
  | true =>
    cases hread : Source.read message.text with
    | error e =>
      refine .inl ⟨.error (.markup e), session.render_unread hcontent hread, by simp,
        fun tree h => ?_⟩
      cases hread.symm.trans h
    | ok tree => exact .inr ⟨rfl, tree, rfl⟩

/-- A message that is read and not saved is only shown. -/
theorem render_display (session : Session) {message : Message} {tree : Node}
    (hcontent : message.hasContent = true) (hread : Source.read message.text = .ok tree)
    (world : World) (state : ChatState) :
    ∃ view, (state.render (.display false) message.id tree).1.view = .ok view ∧
      (session.render message false).run.perform world state =
        (.ok (some view), (state.render (.display false) message.id tree).2) := by
  obtain ⟨view, hview, -, hrender⟩ := session.render_of_read hcontent hread false world state
  refine ⟨view, hview, ?_⟩
  rw [hrender]
  rfl

/-! ## Rendering for saving -/

/-- What is asked to keep a message as a tree, and what comes of it. -/
inductive KeepAsks (id : String) (view : View CodeBlock) (tree : Node) :
    List Exchange → Except ChatError (Option (View CodeBlock)) → Prop
  /-- The tree cannot be written. -/
  | unwritten (e : MarkupError) : write tree = .error e →
      KeepAsks id view tree [] (.error (.markup e))
  /-- The message is not edited. -/
  | refused (source : String) (e : ChatError) : write tree = .ok source →
      KeepAsks id view tree [.host (.edit id source) (some e)] (.error e)
  /-- The message is edited, and the refresh fails. -/
  | unrefreshed (source : String) (e : ChatError) : write tree = .ok source →
      KeepAsks id view tree [.host (.edit id source) none, .host .refresh (some e)] (.error e)
  /-- The message is kept. -/
  | kept (source : String) : write tree = .ok source →
      KeepAsks id view tree [.host (.edit id source) none, .host .refresh none] (.ok (some view))

theorem keep_asks (id : String) (view : View CodeBlock) (tree : Node) (world : World)
    (state : ChatState) :
    ∃ saved result after, (keep id view tree).run.perform world state = (result, after) ∧
      Told world state saved after ∧ KeepAsks id view tree saved result := by
  cases hwrite : Source.write tree with
  | error e =>
    exact ⟨[], .error (.markup e), state,
      Act.perform_bind_of_error (perform_ofMarkup_error hwrite world state) _,
      told_refl world state, .unwritten e hwrite⟩
  | ok source =>
    have hstart := Act.perform_bind_of_ok (perform_ofMarkup hwrite world state) fun source =>
      (do Act.host (.edit id source); Act.host .refresh; return some view : Attempt _)
    obtain ⟨failure, edited, hedit, htold⟩ := Act.perform_host world state (.edit id source)
    cases failure with
    | some e =>
      exact ⟨_, .error e, edited, hstart.trans (Act.perform_bind_of_error hedit _), htold,
        .refused source e hwrite⟩
    | none =>
      obtain ⟨failure, refreshed, hrefresh, htold'⟩ := Act.perform_host world edited .refresh
      have hlast := hstart.trans (Act.perform_bind_of_ok hedit _)
      cases failure with
      | some e =>
        exact ⟨_, .error e, refreshed, hlast.trans (Act.perform_bind_of_error hrefresh _),
          htold.trans htold', .unrefreshed source e hwrite⟩
      | none =>
        exact ⟨_, .ok (some view), refreshed, hlast.trans (Act.perform_bind_of_ok hrefresh _),
          htold.trans htold', .kept source hwrite⟩

section

variable {id : String} {view : View CodeBlock} {tree : Node} {saved : List Exchange}
  {result : Except ChatError (Option (View CodeBlock))}

theorem KeepAsks.unwritten_or_saving (h : KeepAsks id view tree saved result) :
    (saved = [] ∧ ∃ e, write tree = .error e) ∨
      ∃ source, write tree = .ok source ∧ IsSaving id source saved := by
  cases h with
  | unwritten e hwrite => exact .inl ⟨rfl, e, hwrite⟩
  | refused source e hwrite => exact .inr ⟨source, hwrite, .failed e⟩
  | unrefreshed source e hwrite => exact .inr ⟨source, hwrite, .kept (some e)⟩
  | kept source hwrite => exact .inr ⟨source, hwrite, .kept none⟩

theorem KeepAsks.isSaving_iff (h : KeepAsks id view tree saved result) (source : String) :
    IsSaving id source saved ↔ write tree = .ok source := by
  rcases h.unwritten_or_saving with ⟨rfl, e, hwrite⟩ | ⟨kept, hwrite, hsaving⟩
  · rw [hwrite]
    exact ⟨nofun, nofun⟩
  · rw [hwrite]
    constructor
    · intro hother
      rw [hsaving.source_eq hother]
    · rintro ⟨⟩
      exact hsaving

theorem KeepAsks.silent (h : KeepAsks id view tree saved result) :
    saved = [] ∨ ∃ source, IsSaving id source saved := by
  rcases h.unwritten_or_saving with ⟨hnone, -⟩ | ⟨source, -, hsaving⟩
  · exact .inl hnone
  · exact .inr ⟨source, hsaving⟩

theorem KeepAsks.shown (h : KeepAsks id view tree saved result)
    {shown : Option (View CodeBlock)} (hshown : result = .ok shown) : shown = some view := by
  cases h <;> cases hshown
  rfl

end

theorem saves_halted {chat id : String} {tree : Node} {blocks : List CodeBlock}
    {drained : List Exchange} (hdrains : ∀ x ∈ drained, x.drains = true) (hhalts : Halts drained)
    (hrequests : requests drained <+: blocks.map fun block => ⟨chat, id, block.source.code⟩) :
    Saves chat id tree blocks drained [] where
  drains := hdrains
  inOrder := hrequests
  complete := fun hpasses => absurd hpasses hhalts.not_passes
  halts := by
    rw [List.append_nil]
    exact hhalts.stopsLast
  keeps := fun source => ⟨nofun, fun h => absurd h.1 hhalts.not_passes⟩
  stamped := tree.stamped_stampAll _
  silent := .inl rfl

theorem saves_complete {chat id : String} {tree : Node} {blocks : List CodeBlock}
    {drained saved : List Exchange} (hdrains : ∀ x ∈ drained, x.drains = true)
    (hpasses : Passes drained)
    (hrequests : requests drained = blocks.map fun block => ⟨chat, id, block.source.code⟩)
    (hkeeps : ∀ source, IsSaving id source saved ↔
      (∃ name ∈ filenames (blocks.map fun block => block.source.node) (answers drained),
        tree.LacksName name.1) ∧
      write (tree.stampAll
        (filenames (blocks.map fun block => block.source.node) (answers drained))) = .ok source)
    (hsilent : saved = [] ∨ ∃ source, IsSaving id source saved) :
    Saves chat id tree blocks drained saved where
  drains := hdrains
  inOrder := hrequests ▸ List.prefix_rfl
  complete := fun _ => hrequests
  halts := by
    rcases hsilent with rfl | ⟨source, hsaving⟩
    · rw [List.append_nil]
      exact hpasses.stopsLast
    · rcases passes_or_halts_saving hsaving with h | h
      · exact (hpasses.append h).stopsLast
      · exact (h.prepend hpasses).stopsLast
  keeps := fun source => by rw [hkeeps source, and_iff_right hpasses]
  stamped := tree.stamped_stampAll _
  silent := hsilent

theorem saves_afterView (session : Session) (message : Message) (tree : Node)
    (blocks : List CodeBlock) (view : View CodeBlock) (world : World) (state : ChatState) :
    ∃ drained saved result after,
      (session.afterView message tree
        ((blocks.map CodeBlock.source).map Queue.waiting) view).run.perform world state =
          (result, after) ∧
      Told world state (drained ++ saved) after ∧
      Saves (message.chat.getD session.chat) message.id tree blocks drained saved ∧
      ∀ shown, result = .ok shown → shown = some view := by
  obtain ⟨drained, ending, left, hrun, htold, hdrains, hends⟩ := Queue.drainsTo_runEntries
    (session.chatOf message) message.id (blocks.map CodeBlock.source) tree world state
  have hdrain : (Queue.drain (session.chatOf message) message.id
      ((blocks.map CodeBlock.source).map Queue.waiting) tree).perform world state =
        (⟨ending.1, [], ending.2⟩, left) := Act.perform_bind_of_eq hrun _
  have hstart := Act.perform_lift_bind hdrain fun drained => (do
    let stamped ← ExceptT.mk (pure drained.outcome)
    if stamped then keep message.id view drained.tree else return some view : Attempt _)
  cases hends with
  | halted hhalts hrequests =>
    rw [List.map_map] at hrequests
    refine ⟨drained, [], _, left, hstart, by rwa [List.append_nil],
      saves_halted hdrains hhalts hrequests, nofun⟩
  | complete hpasses hrequests =>
    rw [List.map_map] at hrequests
    have hnodes : blocks.map (fun block => block.source.node) = _ := nodes_of_sources rfl
    simp only [← hnodes] at hstart
    cases hlacks : tree.lacksAny
        (filenames (blocks.map fun block => block.source.node) (answers drained)) with
    | false =>
      rw [hlacks] at hstart
      refine ⟨drained, [], _, left, hstart, by rwa [List.append_nil],
        saves_complete hdrains hpasses hrequests (fun source => ⟨nofun, fun h => ?_⟩) (.inl rfl), ?_⟩
      · exact absurd (hlacks.symm.trans ((tree.lacksAny_iff_lacksName _).mpr h.1)) (by decide)
      · rintro shown ⟨⟩
        rfl
    | true =>
      rw [hlacks] at hstart
      obtain ⟨saved, result, after, hkeep, hkept, hasks⟩ :=
        keep_asks message.id view (tree.stampAll
          (filenames (blocks.map fun block => block.source.node) (answers drained))) world left
      refine ⟨drained, saved, result, after, hstart.trans hkeep, htold.trans hkept,
        saves_complete hdrains hpasses hrequests (fun source => ?_) hasks.silent,
        fun shown => hasks.shown⟩
      rw [hasks.isSaving_iff source]
      exact (and_iff_right ((tree.lacksAny_iff_lacksName _).mp hlacks)).symm

/-- Saving a message that is read asks to run the blocks of its view that are to be run, and to keep
the message as they have stamped it. -/
theorem saves_render (session : Session) {message : Message} {tree : Node}
    (hcontent : message.hasContent = true) (hread : Source.read message.text = .ok tree)
    (world : World) (state : ChatState) :
    ∃ view blocks drained saved result after,
      (state.render (.display true) message.id tree).1.view = .ok view ∧
      blocks = view.blocks.filter (CodeBlock.runsIn tree) ∧
      blocks.map CodeBlock.source = tree.codeSources.filter CodeSource.runs ∧
      (session.render message true).run.perform world state = (result, after) ∧
      Told world state (drained ++ saved) after ∧
      Saves (message.chat.getD session.chat) message.id tree blocks drained saved ∧
      ∀ shown, result = .ok shown → shown = some view := by
  obtain ⟨view, blocks, hview, hblocks, hsources, hrender⟩ :=
    session.render_of_read_saving hcontent hread world state
  obtain ⟨drained, saved, result, after, hperform, htold, hsaves, hshown⟩ :=
    session.saves_afterView message tree blocks view world
      (state.render (.display true) message.id tree).2
  exact ⟨view, blocks, drained, saved, result, after, hview, hblocks, hsources,
    hrender.trans hperform, (told_of_eq rfl rfl).after_quiet htold, hsaves, hshown⟩

/-- Every message that is read is shown, and saving it runs the blocks that are shown to be run and
keeps the message as they have stamped it; a message that is not saved asks nothing of the world. -/
theorem render_asks (session : Session) (message : Message) (world : World) (state : ChatState) :
    (∀ tree, Source.read message.text = .ok tree →
      ∃ view drained saved result after,
        (state.render (.display true) message.id tree).1.view = .ok view ∧
        (session.render message true).run.perform world state = (result, after) ∧
        (∀ shown, result = .ok (some shown) → shown = view) ∧
        Told world state (drained ++ saved) after ∧
        Saves (message.chat.getD session.chat) message.id tree
          (view.blocks.filter (CodeBlock.runsIn tree)) drained saved) ∧
    ((session.render message false).run.perform world state).2.log = state.log ∧
    ((session.render message false).run.perform world state).2.room = state.room := by
  rcases session.idles_or_read message with ⟨result, hidles⟩ | ⟨hcontent, tree, hread⟩
  · refine ⟨fun tree hread => ?_, ?_⟩
    · obtain ⟨-, rfl⟩ := hidles.blank tree hread
      obtain ⟨view, hview, hblocks, -⟩ := Rendering.render_of_document (isDocument_of_read hread)
        (.display true) (state.table message.id)
      have hnone : view.blocks = [] := List.map_eq_nil_iff.mp hblocks
      refine ⟨view, [], [], result, state, hview, hidles.perform_eq true world state,
        fun shown h => absurd h (hidles.hidden shown), told_refl world state, ?_⟩
      rw [hnone]
      exact saves_complete (by simp) passes_nil rfl (fun source => ⟨nofun, nofun⟩) (.inl rfl)
    · rw [hidles.perform_eq false world state]
      exact ⟨rfl, rfl⟩
  · refine ⟨fun tree' hread' => ?_, ?_⟩
    · cases hread.symm.trans hread'
      obtain ⟨view, _, drained, saved, result, after, hview, rfl, -, hperform, htold, hsaves,
        hshown⟩ := session.saves_render hcontent hread world state
      refine ⟨view, drained, saved, result, after, hview, hperform, fun shown hresult => ?_, htold,
        hsaves⟩
      exact Option.some.inj (hshown _ hresult)
    · obtain ⟨view, -, hrender⟩ := session.render_display hcontent hread world state
      rw [hrender]
      exact ⟨rfl, rfl⟩

/-- A world where every run leaves a file of the same name, every call succeeds, and nobody does
anything meanwhile. -/
def calmWorld (filename : String) : World where
  exec _ request := .ok ⟨"run", request.code, some filename⟩
  action _ request := .ok ⟨"run", request.code, some filename⟩
  host _ call room := room.perform call
  meanwhile _ _ _ := []
  newId := toString
  now _ := ⟨0, 0⟩

/-- A message with one block to be run, among two. -/
def runnableMessage : Message where
  id := "m"
  sender := .assistant
  text := "code[lang=lugha] \x7b `x` \x7d code[lang=lugha, run=true] \x7b `y` \x7d"
  chat := none
  createdAt := ⟨0, 0⟩
  transient := false
  streaming := false

theorem render_asks_runnable :
    ∃ tree, ∃ view : View CodeBlock, ∃ drained saved result after,
      Source.read runnableMessage.text = .ok tree ∧
      Act.perform (Session.render ⟨"room", ""⟩ runnableMessage true).run (calmWorld "out")
        (.start (.ofMessages [runnableMessage])) = (result, after) ∧
      Told (calmWorld "out") (.start (.ofMessages [runnableMessage])) (drained ++ saved) after ∧
      (view.blocks.filter (CodeBlock.runsIn tree)).map (·.source.code) = ["y"] ∧
      Saves "room" "m" tree (view.blocks.filter (CodeBlock.runsIn tree)) drained saved := by
  have hsources : (Source.read runnableMessage.text).toOption.any (fun tree =>
      (tree.codeSources.filter CodeSource.runs).map CodeSource.code = ["y"]) = true := by
    decide +kernel
  obtain ⟨tree, hread, hcodes⟩ := (Option.any_eq_true _ _).mp hsources
  replace hread := eq_ok_of_toOption hread
  obtain ⟨view, drained, saved, result, after, hview, hperform, -, htold, hsaves⟩ :=
    (Session.render_asks ⟨"room", ""⟩ runnableMessage (calmWorld "out")
      (.start (.ofMessages [runnableMessage]))).1 tree hread
  obtain ⟨view', hview', hblocks, -⟩ := Rendering.render_of_document (isDocument_of_read hread)
    (.display true) .empty
  cases Except.ok.inj (hview.symm.trans hview')
  have hsource := source_filter_runsIn hread hblocks
  refine ⟨tree, view, drained, saved, result, after, hread, hperform, htold, ?_, hsaves⟩
  rw [← of_decide_eq_true hcodes, ← hsource, List.map_map]
  rfl

end Session

end ChatMarkup

import ChatMarkup.Proofs.Chat.Outcome
import ChatMarkup.Proofs.Chat.Reference
import ChatMarkup.Proofs.Chat.Streaming

/-!
# Replies that are shown as they come

A reply is shown whenever its reader gets a turn, and once more when it is complete. What was shown
before leaves no trace in what is shown at last: a block that was met before has the controls of a
new one. Only a complete reply is saved, and so only its own code is run.

* `BlockTable.IsPlain`: what showing a reply leaves of its blocks;
* `Session.perform_previewAll`: however often a reply was shown, it is shown at last as if for the
  first time;
* `Session.streamReply_shows`: what comes of a streamed reply.
-/

namespace ChatMarkup

variable {world : World}

/-! ## Tables that nobody has touched -/

/-- The blocks of a table have the controls of new ones. -/
structure BlockTable.IsPlain (table : BlockTable) : Prop where
  sound : table.IsSound
  flags : ∀ key, Rows.flags table.get? key = Rows.flags BlockTable.empty.get? key

theorem BlockTable.isPlain_empty : BlockTable.empty.IsPlain where
  sound := BlockTable.isSound_empty
  flags := fun _ => rfl

/-- With a plain table a document is shown as with an empty one, and the table stays plain. -/
theorem BlockTable.IsPlain.render {table : BlockTable} (h : table.IsPlain) {tree : Node}
    (htree : Source.IsDocument tree) (save : Bool) :
    (Rendering.render (.display save) table tree).view =
        (Rendering.render (.display false) .empty tree).view ∧
      (Rendering.render (.display save) table tree).table.IsPlain := by
  obtain ⟨outline, houtline, hview, hsound, hrows⟩ :=
    Rendering.rendered_display htree save h.sound
  obtain ⟨outline', houtline', hfirst, -⟩ :=
    Rendering.rendered_display htree false BlockTable.isSound_empty
  cases Except.ok.inj (houtline.symm.trans houtline')
  have hflags : Rows.flags table.get? = Rows.flags BlockTable.empty.get? := funext h.flags
  refine ⟨?_, hsound, fun key => ?_⟩
  · rw [hview, hfirst, hflags]
  · rw [hrows, ← h.flags, Rows.flags, ofBlocks_withKeys]
    split
    · rfl
    · exact (h.flags key).symm

namespace ChatState

/-- What is shown of a message of which nothing is remembered. -/
def firstView (tree : Node) : Except MarkupError (View CodeBlock) :=
  (Rendering.render (.display false) .empty tree).view

variable {state : ChatState} {id : String}

theorem render_plain (h : (state.table id).IsPlain) {tree : Node}
    (htree : Source.IsDocument tree) (save : Bool) :
    (state.render (.display save) id tree).1.view = firstView tree ∧
      ((state.render (.display save) id tree).2.table id).IsPlain := by
  obtain ⟨hview, hplain⟩ := h.render htree save
  refine ⟨hview, ?_⟩
  show ((state.setTable id _).table id).IsPlain
  rw [table_setTable, if_pos rfl]
  exact hplain

theorem preview_plain (h : (state.table id).IsPlain) (text : String) :
    ((state.preview id text).2.table id).IsPlain := by
  rw [preview]
  split
  · exact h
  · split
    · exact h
    · rename_i hread
      exact (render_plain h (Source.isDocument_of_read hread) false).2

theorem preview_eq (h : (state.table id).IsPlain) {text : String} {tree : Node}
    (hcontent : isBlankText text = false) (hread : Source.read text = .ok tree) :
    (state.preview id text).1 = (firstView tree).map some := by
  rw [preview, hcontent, hread, ← (render_plain h (Source.isDocument_of_read hread) false).1]
  rfl

end ChatState

namespace Session

open Act

/-! ## Previews -/

theorem asks_previewAll (id : String) (texts : List String) (view : Option (View CodeBlock)) :
    Asks world (previewAll id texts view) fun _ xs => xs = [] := by
  induction texts generalizing view with
  | nil => exact asks_pure rfl
  | cons text texts ih =>
    refine Asks.bind (asks_of_quiet fun state => told_preview world state id text)
      fun result xs hxs => ?_
    subst hxs
    match result with
    | .ok (some shown) => exact ih (some shown)
    | .ok none | .error _ => exact ih view

/-- The first of some texts is shown, unless it cannot be, and then the others. -/
theorem perform_previewAll_cons (id text : String) (texts : List String)
    (view : Option (View CodeBlock)) (world : World) (state : ChatState) :
    (previewAll id (text :: texts) view).perform world state =
      (previewAll id texts ((state.preview id text).1.toOption.join.or view)).perform world
        (state.preview id text).2 := by
  rcases hpreview : state.preview id text with ⟨result, after⟩
  have hshown : Act.perform (modifyGetThe ChatState fun state => state.preview id text) world
      state = (result, after) := hpreview
  refine (perform_bind_of_eq hshown _).trans ?_
  cases result with
  | error e => rfl
  | ok shown => cases shown <;> rfl

/-- A text, shown after any others, is shown as if it were the first. -/
theorem perform_previewAll (id : String) (texts : List String) (view : Option (View CodeBlock))
    {state : ChatState} (h : (state.table id).IsPlain) :
    ∃ shown after, (previewAll id texts view).perform world state = (shown, after) ∧
      (after.table id).IsPlain ∧
      ∀ text tree last, texts.getLast? = some text → isBlankText text = false →
        Source.read text = .ok tree → ChatState.firstView tree = .ok last → shown = some last := by
  induction texts generalizing view state with
  | nil => exact ⟨view, state, rfl, h, nofun⟩
  | cons text texts ih =>
    obtain ⟨shown, after, hrest, hafter, hlast⟩ :=
      ih ((state.preview id text).1.toOption.join.or view) (ChatState.preview_plain h text)
    refine ⟨shown, after, (perform_previewAll_cons id text texts view world state).trans hrest,
      hafter, fun other tree last hother => ?_⟩
    cases texts with
    | nil =>
      obtain rfl : text = other := by simpa using hother
      intro hcontent hread hview
      cases hrest
      rw [ChatState.preview_eq h hcontent hread, hview]
      rfl
    | cons second texts => exact hlast other tree last hother

/-! ## The end of a reply -/

/-- What is left to do with a reply once its text is kept: a complete one is saved. -/
def endReply (session : Session) (message : Message) (outcome : Except ChatError StreamOutcome)
    (view : Option (View CodeBlock)) : Act Reply := do
  match outcome with
  | .ok .completed =>
    match ← (session.renderOrFailure message true).run with
    | .ok (some shown) => pure ⟨message, .ok .completed, some shown⟩
    | .ok none => pure ⟨message, .ok .completed, view⟩
    | .error e => pure ⟨message, .error e, view⟩
  | outcome => pure ⟨message, outcome, view⟩

/-- A rendering or its failure, as the reply has it that was shown before. -/
def replyOf (message : Message) (view : Option (View CodeBlock)) :
    Except ChatError (Option (View CodeBlock)) → Reply
  | .ok shown => ⟨message, .ok .completed, shown.or view⟩
  | .error e => if e.isParse then ⟨message, .ok .completed, some (.failure e.message)⟩
    else ⟨message, .error e, view⟩

theorem message_replyOf (message : Message) (view : Option (View CodeBlock))
    (result : Except ChatError (Option (View CodeBlock))) :
    (replyOf message view result).message = message := by
  cases result with
  | ok shown => rfl
  | error e =>
    rw [replyOf]
    split <;> rfl

/-- A complete reply is as its rendering leaves it. -/
theorem perform_endReply (session : Session) (message : Message) (view : Option (View CodeBlock))
    {state after : ChatState} {result : Except ChatError (Option (View CodeBlock))}
    (h : (session.render message true).run.perform world state = (result, after)) :
    (session.endReply message (.ok .completed) view).perform world state =
      (replyOf message view result, after) := by
  have hend : ∀ {shown}, (session.renderOrFailure message true).run.perform world state =
      (shown, after) → (session.endReply message (.ok .completed) view).perform world state =
        (match shown with
          | .ok (some shown) => pure ⟨message, .ok .completed, some shown⟩
          | .ok none => pure ⟨message, .ok .completed, view⟩
          | .error e => pure ⟨message, .error e, view⟩ : Act Reply).perform world after :=
    fun hshown => perform_bind_of_eq hshown _
  cases result with
  | ok shown =>
    rw [hend (perform_bind_of_eq h _)]
    cases shown <;> rfl
  | error e =>
    rw [hend (perform_bind_of_eq h _), replyOf]
    cases e.isParse <;> rfl

/-- Nothing is left to do with a reply that is not complete. -/
theorem perform_endReply_incomplete (session : Session) (message : Message)
    {outcome : Except ChatError StreamOutcome} (h : outcome ≠ .ok .completed)
    (view : Option (View CodeBlock)) (state : ChatState) :
    (session.endReply message outcome view).perform world state =
      (⟨message, outcome, view⟩, state) := by
  cases outcome with
  | error e => rfl
  | ok outcome =>
    cases outcome with
    | completed => exact absurd rfl h
    | aborted => rfl

/-- Saving a reply of which only previews were shown runs no other code than its own, and ends as
its draining does. -/
theorem render_reply (hworld : world.Obliging) (session : Session) (message : Message)
    {state : ChatState} (h : (state.table message.id).IsPlain) :
    ∃ result after xs, (session.render message true).run.perform world state = (result, after) ∧
      Told world state xs after ∧
      (∀ request ∈ requests xs, ∃ tree, Source.read message.text = .ok tree ∧
        ∃ source ∈ tree.codeSources, source.runs = true ∧ source.code = request.code) ∧
      ∀ tree last, message.hasContent = true → Source.read message.text = .ok tree →
        ChatState.firstView tree = .ok last →
        (∃ e, breaks xs = [e] ∧ result = .error e) ∨ (breaks xs = [] ∧ Comes last result) := by
  rcases session.idles_or_read message with ⟨result, hidles⟩ | ⟨hcontent, tree, hread⟩
  · refine ⟨result, state, [], hidles.perform_eq true world state, told_refl world state, nofun,
      fun tree _ hcontent hread => ?_⟩
    rw [(hidles.blank tree hread).1] at hcontent
    cases hcontent
  · obtain ⟨view, blocks, drained, saved, result, after, hview, -, hblocks, hperform, htold,
      hsaves, hends⟩ := session.render_saves hworld hcontent hread state
    refine ⟨result, after, drained ++ saved, hperform, htold, fun request hrequest => ?_, ?_⟩
    · rw [hsaves.requests_eq] at hrequest
      obtain ⟨block, hblock, rfl⟩ := List.mem_map.mp (hsaves.inOrder.subset hrequest)
      have hsource : block.source ∈ tree.codeSources.filter CodeSource.runs :=
        hblocks ▸ List.mem_map_of_mem hblock
      exact ⟨tree, hread, block.source, (List.mem_filter.mp hsource).1,
        (List.mem_filter.mp hsource).2, rfl⟩
    · rintro tree' last - hread' hlast
      cases hread.symm.trans hread'
      rw [(ChatState.render_plain h (Source.isDocument_of_read hread) true).1, hlast] at hview
      cases hview
      rwa [hsaves.breaks_eq]

/-- What a reply is shown as at last, if its text was shown as `last`: as that, or if the service
has answered a run with a parse error, as that error. -/
def ShownAs (last : View CodeBlock) (answers : List (Except ChatError ExecResult))
    (shown : Option (View CodeBlock)) : Prop :=
  ((∀ e, .error e ∈ answers → e.isParse = false) → shown = some last) ∧
    ∀ e, .error e ∈ answers → e.isParse = true → shown = some (.failure e.message)

theorem shownAs_replyOf {xs : List Exchange} {last : View CodeBlock}
    {result : Except ChatError (Option (View CodeBlock))} (message : Message)
    (h : (∃ e, breaks xs = [e] ∧ result = .error e) ∨ (breaks xs = [] ∧ Comes last result)) :
    ShownAs last (answers xs) (replyOf message (some last) result).view := by
  have hbreaks : ∀ e, .error e ∈ answers xs → e.isParse = true → e ∈ breaks xs := by
    intro e hanswer hparse
    refine mem_breaks.mpr ⟨hanswer, fun reason hreason => ?_⟩
    rw [hreason] at hparse
    cases hparse
  rcases h with ⟨e, hbreak, rfl⟩ | ⟨hnone, hcomes⟩
  · refine ⟨fun hparse => ?_, fun other hanswer hparse => ?_⟩
    · have hanswer := (mem_breaks.mp (hbreak ▸ List.mem_singleton_self e)).1
      rw [replyOf, hparse e hanswer]
      rfl
    · have hsame := hbreaks other hanswer hparse
      rw [hbreak, List.mem_singleton] at hsame
      rw [replyOf, ← hsame, hparse]
      rfl
  · refine ⟨fun _ => ?_, fun other hanswer hparse => ?_⟩
    · rcases hcomes with rfl | ⟨found, rfl⟩ <;> rfl
    · have hmem := hbreaks other hanswer hparse
      rw [hnone] at hmem
      cases hmem

theorem table_of_tables {state after : ChatState} (h : after.tables = state.tables) (id : String) :
    after.table id = state.table id := by
  rw [ChatState.table, h]
  rfl

/-! ## Streaming -/

/-- The reply that is pushed before its stream begins. -/
def emptyReply (session : Session) (world : World) (state : ChatState) : Message :=
  .streamingReply ⟨world.newId state.made, world.now state.log⟩ (some session.chat)

/-- The stream of a reply, taken to its end. -/
def streamed (session : Session) (world : World) (state : ChatState) (items : List StreamItem)
    (schedule : List Turn) : Streaming :=
  (Streaming.start (session.emptyReply world state) items).play schedule

theorem message_streamed (session : Session) (world : World) (state : ChatState)
    (items : List StreamItem) (schedule : List Turn) :
    (session.streamed world state items schedule).message =
      { session.emptyReply world state with
        text := Streaming.replyText items
        streaming := false } := by
  have hempty : (session.emptyReply world state).text = "" := rfl
  rw [streamed, (Streaming.assembled_play _ items schedule).final, hempty, String.empty_append]
  rfl

theorem result_streamed (session : Session) (world : World) (state : ChatState)
    (items : List StreamItem) (schedule : List Turn) :
    (session.streamed world state items schedule).result = StreamItem.ending items := by
  rw [streamed, Streaming.result, (Streaming.assembled_play _ items schedule).outcome]
  rfl

/-- A reply that is pushed and gets its text comes to its end. -/
theorem perform_streamReply_of_ok (session : Session) {state pushed previewed edited : ChatState}
    {items : List StreamItem} {schedule : List Turn} {shown : Option (View CodeBlock)}
    (hpush : (Act.host (.push (session.emptyReply world state))).run.perform world
      { state with made := state.made + 1 } = (.ok (), pushed))
    (hpreview : (previewAll (session.streamed world state items schedule).message.id
      (session.streamed world state items schedule).shown none).perform world pushed =
        (shown, previewed))
    (hedit : (Act.host (.edit (session.streamed world state items schedule).message.id
      (session.streamed world state items schedule).message.text)).run.perform world previewed =
        (.ok (), edited)) :
    (session.streamReply items schedule).perform world state =
      (session.endReply (session.streamed world state items schedule).message
        (StreamItem.ending items) shown).perform world edited := by
  have hborn : Act.birth.perform world state = (_, { state with made := state.made + 1 }) := rfl
  rw [← session.result_streamed world state items schedule]
  exact (perform_bind_of_eq hborn _).trans ((perform_bind_of_eq hpush _).trans
    ((perform_bind_of_eq hpreview _).trans (perform_bind_of_eq hedit _)))

/-- Where nothing is refused, a streamed reply comes to its end, and was last shown as its whole text
is. -/
theorem perform_streamReply (hworld : world.Obliging) (session : Session) (state : ChatState)
    (hfresh : state.table (world.newId state.made) = .empty) (items : List StreamItem)
    (schedule : List Turn) :
    ∃ message shown edited exchanges,
      (session.streamReply items schedule).perform world state =
        (session.endReply message (StreamItem.ending items) shown).perform world edited ∧
      Told world state exchanges edited ∧ requests exchanges = [] ∧ answers exchanges = [] ∧
      message.text = Streaming.replyText items ∧ (edited.table message.id).IsPlain ∧
      ∀ tree last, isBlankText message.text = false → Source.read message.text = .ok tree →
        ChatState.firstView tree = .ok last → shown = some last := by
  obtain ⟨pushed, hpush, hpushed, htables⟩ := perform_host_of_obliging hworld
    { state with made := state.made + 1 } (.push (session.emptyReply world state))
  have hmessage := session.message_streamed world state items schedule
  let streamed := session.streamed world state items schedule
  have hplain : (pushed.table streamed.message.id).IsPlain := by
    rw [show streamed.message.id = world.newId state.made from congrArg Message.id hmessage,
      table_of_tables htables]
    exact hfresh ▸ BlockTable.isPlain_empty
  obtain ⟨shown, previewed, hpreview, hpreviewed, hlast⟩ :=
    perform_previewAll streamed.message.id streamed.shown none hplain
  obtain ⟨_, _, _, hsame, hquiet, rfl⟩ :=
    asks_previewAll streamed.message.id streamed.shown none pushed
  cases hpreview.symm.trans hsame
  obtain ⟨edited, hedit, hedited, htables'⟩ := perform_host_of_obliging hworld previewed
    (.edit streamed.message.id streamed.message.text)
  refine ⟨streamed.message, shown, edited, _,
    session.perform_streamReply_of_ok hpush hpreview hedit,
    (told_of_eq rfl rfl).trans (hpushed.trans (hquiet.trans hedited)), rfl, rfl,
    congrArg Message.text hmessage, ?_, fun tree last => ?_⟩
  · rw [table_of_tables htables']
    exact hpreviewed
  · exact hlast _ tree last (Streaming.assembled_play _ items schedule).last

/-- However its stream and its previews take turns, a reply of which nothing is remembered is shown
at last as its text is shown for the first time; only where the service has answered a run with a
parse error it is shown as that. Code is run once the stream is complete, and only that of the
blocks of the whole text that are to be run. -/
theorem streamReply_shows (session : Session) (hworld : world.Obliging) (state : ChatState)
    (hfresh : state.table (world.newId state.made) = .empty) (items : List StreamItem)
    (schedule : List Turn) :
    ∃ reply exchanges after,
      (session.streamReply items schedule).perform world state = (reply, after) ∧
      Told world state exchanges after ∧
      reply.message.text = Streaming.replyText items ∧
      (∀ tree, isBlankText (Streaming.replyText items) = false →
        Source.read (Streaming.replyText items) = .ok tree →
        ∃ last, (Rendering.render (.display false) .empty tree).view = .ok last ∧
          ShownAs last (answers exchanges) reply.view) ∧
      ∀ request ∈ requests exchanges, StreamItem.ending items = .ok .completed ∧
        ∃ tree, Source.read (Streaming.replyText items) = .ok tree ∧
          ∃ source ∈ tree.codeSources, source.runs = true ∧ source.code = request.code := by
  obtain ⟨message, shown, edited, before, hstream, hbefore, hrequests, hanswers, htext, hplain,
    hshown⟩ := perform_streamReply hworld session state hfresh items schedule
  have hfirst : ∀ tree, isBlankText (Streaming.replyText items) = false →
      Source.read (Streaming.replyText items) = .ok tree →
      ∃ last, ChatState.firstView tree = .ok last ∧ shown = some last := by
    intro tree hcontent hread
    obtain ⟨last, hlast, -⟩ := Rendering.render_of_document (Source.isDocument_of_read hread)
      (.display false) .empty
    rw [← htext] at hcontent hread
    exact ⟨last, hlast, hshown tree last hcontent hread hlast⟩
  by_cases hcomplete : StreamItem.ending items = .ok .completed
  · obtain ⟨result, after, xs, hrender, hrendered, hruns, hends⟩ :=
      render_reply hworld session message hplain
    rw [hcomplete, perform_endReply session message shown hrender] at hstream
    refine ⟨_, before ++ xs, after, hstream, hbefore.trans hrendered, ?_,
      fun tree hcontent hread => ?_, fun request hrequest => ?_⟩
    · rw [message_replyOf]
      exact htext
    · obtain ⟨last, hlast, rfl⟩ := hfirst tree hcontent hread
      refine ⟨last, hlast, ?_⟩
      rw [answers_append, hanswers, List.nil_append]
      refine shownAs_replyOf message (hends tree last ?_ ?_ hlast)
      · rw [Message.hasContent, htext, hcontent]
        rfl
      · rw [htext]
        exact hread
    · rw [requests_append, hrequests, List.nil_append] at hrequest
      rw [← htext]
      exact ⟨hcomplete, hruns request hrequest⟩
  · rw [session.perform_endReply_incomplete message hcomplete] at hstream
    refine ⟨_, before, edited, hstream, hbefore, htext, fun tree hcontent hread => ?_,
      fun request hrequest => ?_⟩
    · obtain ⟨last, hlast, rfl⟩ := hfirst tree hcontent hread
      refine ⟨last, hlast, fun _ => rfl, fun e he => ?_⟩
      rw [hanswers] at he
      cases he
    · rw [hrequests] at hrequest
      cases hrequest

/-- A reply with one block to be run, in two chunks. -/
def codeReply : List StreamItem :=
  [.chunk (utf8Bytes "code[lang=lugha, "), .chunk (utf8Bytes "run=true] \x7b `a` \x7d")]

/-- The reply as it is shown for the first time has one block. -/
theorem codeReply_view :
    ∃ tree, Source.read (Streaming.replyText codeReply) = .ok tree ∧
      ∃ last, (Rendering.render (.display false) .empty tree).view = .ok last ∧
        last.blocks.length = 1 := by
  have hview : (Source.read (Streaming.replyText codeReply)).toOption.any (fun tree =>
      (Rendering.render (.display false) .empty tree).view.toOption.any fun last =>
        last.blocks.length = 1) = true := by
    decide +kernel
  obtain ⟨tree, hread, hview⟩ := (Option.any_eq_true _ _).mp hview
  obtain ⟨last, hlast, hlength⟩ := (Option.any_eq_true _ _).mp hview
  exact ⟨tree, Source.eq_ok_of_toOption hread, last, Source.eq_ok_of_toOption hlast,
    of_decide_eq_true hlength⟩

theorem streamReply_shows_block :
    ∃ tree last reply after, Source.read (Streaming.replyText codeReply) = .ok tree ∧
      (Rendering.render (.display false) .empty tree).view = .ok last ∧ last.blocks.length = 1 ∧
      (Session.streamReply ⟨"room", ""⟩ codeReply [.consume, .produce, .consume]).perform
        (obligingWorld fun request => .ok ⟨"run", request.code, none⟩) (.start (.ofMessages [])) =
          (reply, after) ∧
      reply.view = some last := by
  obtain ⟨tree, hread, last, hlast, hlength⟩ := codeReply_view
  obtain ⟨reply, exchanges, after, hperform, -, -, hshown, -⟩ :=
    Session.streamReply_shows ⟨"room", ""⟩
      (obliging_obligingWorld fun request => .ok ⟨"run", request.code, none⟩)
      (.start (.ofMessages [])) rfl codeReply [.consume, .produce, .consume]
  obtain ⟨last', hlast', hview, hfailure⟩ := hshown tree (by decide +kernel) hread
  cases Except.ok.inj (hlast.symm.trans hlast')
  refine ⟨tree, last, reply, after, hread, hlast, hlength, hperform, hview fun e he => ?_⟩
  -- the view has a block, and so it is not that of a failure
  have hblocks : (Act.perform (Session.streamReply ⟨"room", ""⟩ codeReply
      [.consume, .produce, .consume]) (obligingWorld fun request => .ok ⟨"run", request.code, none⟩)
        (.start (.ofMessages []))).1.view.any (fun view => view.blocks.length = 1) = true := by
    decide +kernel
  rw [hperform] at hblocks
  cases hparse : e.isParse with
  | false => rfl
  | true =>
    have hnone : (View.failure e.message : View CodeBlock).blocks.length = 0 := rfl
    rw [hfailure e he hparse, Option.any_some, hnone] at hblocks
    cases hblocks

/-- The service answers the one run of a complete reply with a parse error: the reply is shown as
that error, though its text can be read. -/
theorem streamReply_shows_failure :
    ∃ tree last, Source.read (Streaming.replyText codeReply) = .ok tree ∧
      isBlankText (Streaming.replyText codeReply) = false ∧
      StreamItem.ending codeReply = .ok .completed ∧
      (Rendering.render (.display false) .empty tree).view = .ok last ∧
      (obligingWorld fun _ => .error (.markup (.parse 1 1 "boom"))).Obliging ∧
      (Act.perform (Session.streamReply ⟨"room", ""⟩ codeReply [])
        (obligingWorld fun _ => .error (.markup (.parse 1 1 "boom")))
        (.start (.ofMessages []))).1.view ≠ some last := by
  obtain ⟨tree, hread, last, hlast, hlength⟩ := codeReply_view
  have hfailure : (Act.perform (Session.streamReply ⟨"room", ""⟩ codeReply [])
      (obligingWorld fun _ => .error (.markup (.parse 1 1 "boom")))
      (.start (.ofMessages []))).1.view.any (fun view => view.blocks.length = 0) = true := by
    decide +kernel
  refine ⟨tree, last, hread, by decide +kernel, rfl, hlast, obliging_obligingWorld _, fun hsame => ?_⟩
  rw [hsame, Option.any_some, hlength] at hfailure
  exact absurd hfailure (by decide)

end Session

end ChatMarkup

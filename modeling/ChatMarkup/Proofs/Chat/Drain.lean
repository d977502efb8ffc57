import ChatMarkup.Chat.Queue
import ChatMarkup.Proofs.Chat.Exchange
import ChatMarkup.Proofs.Tree.Openings

/-!
# Draining, as seen from outside

A drained queue has asked for its entries in their order. Either every call was answered well
enough and all entries were run, or the last call is the only one whose failure ends a draining.
The tree afterwards has the file names that the runs have left, on the elements of their blocks.

* `DrainsTo`: how a draining can end;
* `drainsTo_runEntries`: every draining ends so, by induction over the queue.
-/

namespace ChatMarkup

/-! ## Failures -/

namespace Exchange

/-- Whether a call posts a message. -/
def posts : Exchange → Bool
  | host (.push _) _ | host (.send _) _ => true
  | _ => false

/-- Whether a call is one that draining makes: it runs code or posts a message. -/
def drains (x : Exchange) : Bool :=
  x.request?.isSome || x.posts

end Exchange

/-- No answer ends a draining. -/
def Passes (exchanges : List Exchange) : Prop :=
  ∀ x ∈ exchanges, x.stops = false

/-- The last answer ends a draining, and no answer before it does. -/
def Halts (exchanges : List Exchange) : Prop :=
  ∃ before last, exchanges = before ++ [last] ∧ Passes before ∧ last.stops = true

theorem passes_nil : Passes [] := by
  simp [Passes]

theorem Passes.append {xs ys : List Exchange} (hx : Passes xs) (hy : Passes ys) :
    Passes (xs ++ ys) := by
  intro x hmem
  rcases List.mem_append.mp hmem with h | h
  · exact hx x h
  · exact hy x h

theorem passes_cons {x : Exchange} {xs : List Exchange} :
    Passes (x :: xs) ↔ x.stops = false ∧ Passes xs :=
  List.forall_mem_cons

theorem passes_singleton {x : Exchange} (h : x.stops = false) : Passes [x] :=
  passes_cons.mpr ⟨h, passes_nil⟩

theorem halts_singleton {x : Exchange} (h : x.stops = true) : Halts [x] :=
  ⟨[], x, rfl, passes_nil, h⟩

theorem Halts.prepend {xs ys : List Exchange} (hy : Halts ys) (hx : Passes xs) :
    Halts (xs ++ ys) := by
  obtain ⟨before, last, rfl, hbefore, hlast⟩ := hy
  exact ⟨xs ++ before, last, by rw [List.append_assoc], hx.append hbefore, hlast⟩

theorem Halts.cons {x : Exchange} {xs : List Exchange} (h : Halts xs) (hx : x.stops = false) :
    Halts (x :: xs) :=
  h.prepend (passes_singleton hx)

theorem Halts.not_passes {xs : List Exchange} (h : Halts xs) : ¬ Passes xs := by
  obtain ⟨before, last, rfl, -, hlast⟩ := h
  intro hpasses
  have := hpasses last (List.mem_append_right before (List.mem_singleton_self last))
  rw [this] at hlast
  cases hlast

/-! ## What was run -/

/-- The code that was asked to be run, in the order of the calls. -/
def requests (exchanges : List Exchange) : List ExecRequest :=
  exchanges.filterMap Exchange.request?

/-- The answers to the calls that ran code. -/
def answers (exchanges : List Exchange) : List (Except ChatError ExecResult) :=
  exchanges.filterMap Exchange.answer?

/-- The file that a run has left. -/
def filename? (answer : Except ChatError ExecResult) : Option String :=
  answer.toOption.bind ExecResult.filename

/-- The files that the runs of some elements have left, each with the number of its element. -/
def filenames (nodes : List Nat) (answers : List (Except ChatError ExecResult)) :
    List (Nat × String) :=
  (nodes.zip answers).filterMap fun run => (filename? run.2).map fun filename => (run.1, filename)

theorem requests_posts {xs : List Exchange} (h : ∀ x ∈ xs, x.posts = true) : requests xs = [] := by
  refine List.filterMap_eq_nil_iff.mpr fun x hx => ?_
  have hposts := h x hx
  cases x with
  | host _ _ => rfl
  | _ => cases hposts

theorem answers_posts {xs : List Exchange} (h : ∀ x ∈ xs, x.posts = true) : answers xs = [] := by
  refine List.filterMap_eq_nil_iff.mpr fun x hx => ?_
  have hposts := h x hx
  cases x with
  | host _ _ => rfl
  | _ => cases hposts

theorem requests_append (xs ys : List Exchange) :
    requests (xs ++ ys) = requests xs ++ requests ys :=
  List.filterMap_append

theorem answers_append (xs ys : List Exchange) : answers (xs ++ ys) = answers xs ++ answers ys :=
  List.filterMap_append

namespace Queue

/-- A block of a tree, waiting to be run. -/
def waiting (source : CodeSource) : QueuedCode :=
  ⟨source.code, some source.node⟩

/-- The request that running a block makes. -/
def request (chat messageId : String) (source : CodeSource) : ExecRequest :=
  ⟨chat, messageId, source.code⟩

/-- The tree with the file name that a run has left, if its element lacks one. -/
def stampRun (tree : Node) (node : Nat) (answer : Except ChatError ExecResult) : Option Node :=
  (filename? answer).bind fun filename => tree.stamp node filename

/-! ## One entry -/

/-- The name that an entry leaves for its element, if it has one and its run has left a file. -/
def leaves (entry : QueuedCode) (result : ExecResult) : List (Nat × String) :=
  (entry.node.bind fun node => result.filename.map fun filename => (node, filename)).toList

/-- What is asked when an entry is run, the names that it leaves for elements, and the failure that
ends the draining, if one does. -/
inductive EntryAsks (chat messageId : String) (entry : QueuedCode) :
    List Exchange → List (Nat × String) → Option ChatError → Prop
  /-- The message about the run is pushed, then the name is set, then the same message is sent. -/
  | sent (result : ExecResult) (time : Instant) (failure : Option ChatError) :
      EntryAsks chat messageId entry
        [.exec ⟨chat, messageId, entry.code⟩ (.ok result),
          .host (.push ⟨result.id, .tool, result.message, some chat, time, false, false⟩) none,
          .host (.send ⟨result.id, .tool, result.message, some chat, time, false, false⟩) failure]
        (leaves entry result) failure
  /-- The message about the run could not be pushed. -/
  | unpushed (result : ExecResult) (time : Instant) (e : ChatError) :
      EntryAsks chat messageId entry
        [.exec ⟨chat, messageId, entry.code⟩ (.ok result),
          .host (.push ⟨result.id, .tool, result.message, some chat, time, false, false⟩) (some e)]
        [] (some e)
  /-- The run has failed, which is reported. -/
  | reported (reason : String) (birth : Birth) (failure : Option ChatError) :
      EntryAsks chat messageId entry
        [.exec ⟨chat, messageId, entry.code⟩ (.error (.execution reason)),
          .host (.push ⟨birth.id, .tool,
            "p \x7b " ++ Source.quote ("Execution failed: " ++ reason) ++ " \x7d", some chat,
            birth.createdAt, false, false⟩) failure]
        [] failure
  /-- There was no run. -/
  | refused (e : ChatError) : (∀ reason, e ≠ .execution reason) →
      EntryAsks chat messageId entry
        [.exec ⟨chat, messageId, entry.code⟩ (.error e)] [] (some e)

/-- How an entry ends: with a failure, or with whether its name was set. -/
def ended (tree : Node) (names : List (Nat × String)) (failure : Option ChatError) :
    Except ChatError Bool :=
  failure.elim (.ok (tree.lacksAny names)) .error

theorem stampAll_leaves (tree : Node) (entry : QueuedCode) (result : ExecResult) :
    (entry.node.bind fun node => result.filename.bind fun filename =>
        tree.stamp node filename).getD tree = tree.stampAll (leaves entry result) := by
  rw [leaves]
  cases entry.node <;> cases result.filename <;> rfl

theorem lacksAny_leaves (tree : Node) (entry : QueuedCode) (result : ExecResult) :
    (entry.node.bind fun node => result.filename.bind fun filename =>
        tree.stamp node filename).isSome = tree.lacksAny (leaves entry result) := by
  rw [leaves]
  cases entry.node with
  | none => rfl
  | some node =>
    cases result.filename with
    | none => rfl
    | some filename => exact (tree.isSome_stamp node filename).trans (Bool.or_false _).symm

/-- What running an entry asks for, whatever the entry, the tree and the answers. -/
theorem asks_entry (chat messageId : String) (entry : QueuedCode) (tree : Node) (world : World)
    (state : ChatState) :
    ∃ exchanges names failure after,
      (runEntry chat messageId entry tree).perform world state =
        ((tree.stampAll names, ended tree names failure), after) ∧
      Told world state exchanges after ∧
      EntryAsks chat messageId entry exchanges names failure := by
  obtain ⟨answer, asked, hexec, hasked⟩ :=
    Act.perform_exec world state ⟨chat, messageId, entry.code⟩
  have hrun : ∀ next : _ → Act (Node × Except ChatError Bool),
      (Act.exec ⟨chat, messageId, entry.code⟩ >>= next).perform world state =
        (next answer).perform world asked := fun next => Act.perform_bind_of_eq hexec next
  cases answer with
  | ok result =>
    let tool := Message.ofSender ⟨result.id, world.now asked.log⟩ .tool chat result.message
    have htool : (Act.toolMessage chat result).perform world asked = (tool, asked) := rfl
    obtain ⟨failure, pushed, hpush, hpushed⟩ := Act.perform_host world asked (.push tool)
    cases failure with
    | some e =>
      refine ⟨_, [], some e, pushed, ?_, hasked.trans hpushed, .unpushed result _ e⟩
      rw [runEntry, hrun, Act.perform_bind_of_eq htool, Act.perform_bind_of_eq hpush]
      rfl
    | none =>
      obtain ⟨failure, sent, hsend, hsent⟩ := Act.perform_host world pushed (.send tool)
      refine ⟨_, leaves entry result, failure, sent, ?_, hasked.trans (hpushed.trans hsent),
        .sent result _ failure⟩
      rw [runEntry, hrun, Act.perform_bind_of_eq htool, Act.perform_bind_of_eq hpush]
      refine (Act.perform_bind_of_eq hsend _).trans ?_
      rw [stampAll_leaves, lacksAny_leaves]
      cases failure <;> rfl
  | error e =>
    by_cases hexecution : ∃ reason, e = .execution reason
    · obtain ⟨reason, rfl⟩ := hexecution
      let birth : Birth := ⟨world.newId asked.made, world.now asked.log⟩
      let report := Message.ofSender birth .tool chat (Message.failureReport reason)
      let made : ChatState := { asked with made := asked.made + 1 }
      have hreport : (Act.failureMessage chat reason).perform world asked = (report, made) := rfl
      have hmade : Told world asked [] made := told_of_eq rfl rfl
      obtain ⟨failure, pushed, hpush, hpushed⟩ := Act.perform_host world made (.push report)
      refine ⟨_, [], failure, pushed, ?_, hasked.trans (hmade.trans hpushed),
        .reported reason birth failure⟩
      rw [runEntry, hrun, Act.perform_bind_of_eq hreport]
      refine (Act.perform_bind_of_eq hpush _).trans ?_
      cases failure <;> rfl
    · refine ⟨_, [], some e, asked, ?_, hasked, .refused e fun reason he => hexecution ⟨reason, he⟩⟩
      rw [runEntry, hrun]
      cases e with
      | execution reason => exact absurd ⟨reason, rfl⟩ hexecution
      | _ => rfl

/-- How running one entry ends: all calls were answered well enough, or the last one was not. -/
inductive RunsTo (tree : Node) (node : Nat) (answer : Except ChatError ExecResult)
    (exchanges : List Exchange) : Node × Except ChatError Bool → Prop
  | complete : Passes exchanges → RunsTo tree node answer exchanges
      ((stampRun tree node answer).getD tree, .ok (stampRun tree node answer).isSome)
  | halted {left : Node} {e : ChatError} : Halts exchanges →
      RunsTo tree node answer exchanges (left, .error e)

theorem runsTo_runEntry (chat messageId : String) (source : CodeSource) (tree : Node)
    (world : World) (state : ChatState) :
    ∃ answer posts ending after,
      (runEntry chat messageId (waiting source) tree).perform world state = (ending, after) ∧
      Told world state (.exec (request chat messageId source) answer :: posts) after ∧
      (∀ x ∈ posts, x.posts = true) ∧
      RunsTo tree source.node answer (.exec (request chat messageId source) answer :: posts)
        ending := by
  obtain ⟨exchanges, names, failure, after, hrun, htold, hasks⟩ :=
    asks_entry chat messageId (waiting source) tree world state
  cases hasks with
  | sent result time failure =>
    refine ⟨.ok result, _, _, after, hrun, htold, by simp [Exchange.posts], ?_⟩
    have htree : (stampRun tree source.node (.ok result)).getD tree = _ :=
      stampAll_leaves tree (waiting source) result
    have hstamped : (stampRun tree source.node (.ok result)).isSome = _ :=
      lacksAny_leaves tree (waiting source) result
    cases failure with
    | none =>
      rw [ended, Option.elim_none, ← htree, ← hstamped]
      exact .complete (by simp [Passes, Exchange.stops])
    | some e => exact .halted (.cons (.cons (halts_singleton rfl) rfl) rfl)
  | unpushed result time e =>
    exact ⟨.ok result, _, _, after, hrun, htold, by simp [Exchange.posts],
      .halted (.cons (halts_singleton rfl) rfl)⟩
  | reported reason birth failure =>
    refine ⟨.error (.execution reason), _, _, after, hrun, htold, by simp [Exchange.posts], ?_⟩
    cases failure with
    | none => exact .complete (by simp [Passes, Exchange.stops])
    | some e => exact .halted (.cons (halts_singleton rfl) rfl)
  | refused e hexecution =>
    refine ⟨.error e, [], _, after, hrun, htold, by simp, .halted (halts_singleton ?_)⟩
    cases e with
    | execution reason => exact absurd rfl (hexecution reason)
    | _ => rfl

/-! ## The whole queue -/

/-- How draining the queue of some blocks ends: all of them were run, or the last call ended it. -/
inductive DrainsTo (chat messageId : String) (sources : List CodeSource) (tree : Node)
    (exchanges : List Exchange) : Node × Except ChatError Bool → Prop
  | complete : Passes exchanges → requests exchanges = sources.map (request chat messageId) →
      DrainsTo chat messageId sources tree exchanges
        (tree.stampAll (filenames (sources.map CodeSource.node) (answers exchanges)),
          .ok (tree.lacksAny (filenames (sources.map CodeSource.node) (answers exchanges))))
  | halted {left : Node} {e : ChatError} : Halts exchanges →
      requests exchanges <+: sources.map (request chat messageId) →
      DrainsTo chat messageId sources tree exchanges (left, .error e)

/-- A run and the names of the runs after it. -/
theorem filenames_cons (node : Nat) (nodes : List Nat) (answer : Except ChatError ExecResult)
    (answers : List (Except ChatError ExecResult)) :
    filenames (node :: nodes) (answer :: answers) =
      ((filename? answer).map fun filename => (node, filename)).toList ++
        filenames nodes answers := by
  rw [filenames, List.zip_cons_cons, List.filterMap_cons]
  cases filename? answer <;> rfl

/-- Stamping the names of a run and of those after it. -/
theorem stampAll_cons (tree : Node) (node : Nat) (nodes : List Nat)
    (answer : Except ChatError ExecResult) (answers : List (Except ChatError ExecResult)) :
    tree.stampAll (filenames (node :: nodes) (answer :: answers)) =
      ((stampRun tree node answer).getD tree).stampAll (filenames nodes answers) := by
  rw [filenames_cons, Node.stampAll, List.foldl_append, stampRun]
  cases filename? answer <;> rfl

/-- Whether a run finds an element that lacks a file name, or one of those after it does. -/
theorem lacksAny_cons (tree : Node) (node : Nat) (nodes : List Nat)
    (answer : Except ChatError ExecResult) (answers : List (Except ChatError ExecResult)) :
    tree.lacksAny (filenames (node :: nodes) (answer :: answers)) =
      ((stampRun tree node answer).isSome ||
        ((stampRun tree node answer).getD tree).lacksAny (filenames nodes answers)) := by
  rw [filenames_cons, stampRun]
  cases filename? answer with
  | none => rfl
  | some filename => exact tree.lacksAny_cons (filenames nodes answers) (node, filename)

/-! The calls of one run and the calls after them. -/

section

variable {chat messageId : String} {source : CodeSource} {sources : List CodeSource}
  {answer : Except ChatError ExecResult} {posts : List Exchange} {tree : Node}

theorem drains_run (hposts : ∀ x ∈ posts, x.posts = true) :
    ∀ x ∈ Exchange.exec (request chat messageId source) answer :: posts, x.drains = true := by
  refine List.forall_mem_cons.mpr ⟨rfl, fun x hx => ?_⟩
  rw [Exchange.drains, hposts x hx, Bool.or_true]

theorem requests_run (hposts : ∀ x ∈ posts, x.posts = true) :
    requests (.exec (request chat messageId source) answer :: posts) =
      [request chat messageId source] :=
  congrArg (request chat messageId source :: ·) (requests_posts hposts)

theorem answers_run (hposts : ∀ x ∈ posts, x.posts = true) :
    answers (.exec (request chat messageId source) answer :: posts) = [answer] :=
  congrArg (answer :: ·) (answers_posts hposts)

/-- A draining that ends with its first run. -/
theorem DrainsTo.first (hposts : ∀ x ∈ posts, x.posts = true)
    (hhalts : Halts (.exec (request chat messageId source) answer :: posts)) (left : Node)
    (e : ChatError) :
    DrainsTo chat messageId (source :: sources) tree
      (.exec (request chat messageId source) answer :: posts) (left, .error e) := by
  refine .halted hhalts ?_
  rw [requests_run hposts, List.map_cons]
  exact List.prefix_append [_] _

/-- A draining that goes on behind its first run. -/
theorem DrainsTo.cons {exchanges : List Exchange} {ending : Node × Except ChatError Bool}
    (h : DrainsTo chat messageId sources ((stampRun tree source.node answer).getD tree) exchanges
      ending)
    (hposts : ∀ x ∈ posts, x.posts = true)
    (hpasses : Passes (.exec (request chat messageId source) answer :: posts)) :
    DrainsTo chat messageId (source :: sources) tree
      (.exec (request chat messageId source) answer :: posts ++ exchanges)
      (ending.1, ending.2.map fun more => (stampRun tree source.node answer).isSome || more) := by
  cases h with
  | halted hhalts hprefix =>
    refine .halted (hhalts.prepend hpasses) ?_
    rw [requests_append, requests_run hposts, List.map_cons]
    exact List.cons_prefix_cons.mpr ⟨rfl, hprefix⟩
  | complete hrest hall =>
    have hrequested : requests (.exec (request chat messageId source) answer :: posts ++ exchanges) =
        (source :: sources).map (request chat messageId) := by
      rw [requests_append, requests_run hposts, hall]
      rfl
    have hdone : DrainsTo chat messageId (source :: sources) tree _ _ :=
      .complete (hpasses.append hrest) hrequested
    rwa [answers_append, answers_run hposts, List.map_cons, List.singleton_append, stampAll_cons,
      lacksAny_cons] at hdone

end

theorem drainsTo_runEntries (chat messageId : String) (sources : List CodeSource) (tree : Node)
    (world : World) (state : ChatState) :
    ∃ exchanges ending after,
      (runEntries chat messageId (sources.map waiting) tree).perform world state =
        (ending, after) ∧
      Told world state exchanges after ∧ (∀ x ∈ exchanges, x.drains = true) ∧
      DrainsTo chat messageId sources tree exchanges ending := by
  induction sources generalizing tree state with
  | nil =>
    exact ⟨[], (tree, .ok false), state, rfl, told_refl world state, by simp,
      .complete passes_nil rfl⟩
  | cons source sources ih =>
    obtain ⟨answer, posts, ending, ran, hrun, htold, hposts, hruns⟩ :=
      runsTo_runEntry chat messageId source tree world state
    rw [List.map_cons, runEntries]
    cases hruns with
    | halted hhalts =>
      exact ⟨_, (_, .error _), ran, Act.perform_bind_of_eq hrun _, htold, drains_run hposts,
        .first hposts hhalts _ _⟩
    | complete hpasses =>
      obtain ⟨exchanges, ending, after, hrest, htolds, hdrain, hends⟩ :=
        ih ((stampRun tree source.node answer).getD tree) ran
      refine ⟨_, _, after, ?_, htold.trans htolds,
        List.forall_mem_append.mpr ⟨drains_run hposts, hdrain⟩, hends.cons hposts hpasses⟩
      rw [Act.perform_bind_of_eq hrun]
      exact Act.perform_bind_of_eq hrest _

end Queue

end ChatMarkup

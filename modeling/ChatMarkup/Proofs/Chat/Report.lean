import ChatMarkup.Chat.Session
import ChatMarkup.Proofs.Chat.Asking

/-!
# What is posted about a run

The answer of the service to a run is told in a message. Posts are made one after the other until
one is refused, and the message comes of them if none is.

* `Posted`: posts that are made one after the other, and what comes of them;
* `Reports`: the posts about an answer of the service.
-/

namespace ChatMarkup

variable {world : World}

/-- What comes of calls that are made one after the other until one is refused; if none is, it is
`a`. -/
inductive Posted {α : Type} (a : α) :
    List HostCall → Except ChatError α → List Exchange → Prop where
  | done : Posted a [] (.ok a) []
  | refused {call : HostCall} {calls : List HostCall} (e : ChatError) :
    Posted a (call :: calls) (.error e) [.host call (some e)]
  | next {call : HostCall} {calls : List HostCall} {result : Except ChatError α}
    {xs : List Exchange} (h : Posted a calls result xs) :
    Posted a (call :: calls) result (.host call none :: xs)

namespace Posted

variable {α : Type} {a : α} {call : HostCall} {calls : List HostCall}

theorem host {result : Except ChatError α} {xs : List Exchange} (h : Posted a calls result xs) :
    ∀ x ∈ xs, ∃ call failure, x = .host call failure := by
  induction h with
  | done => exact List.forall_mem_nil _
  | refused e => exact List.forall_mem_singleton.mpr ⟨_, _, rfl⟩
  | next h ih => exact List.forall_mem_cons.mpr ⟨⟨_, _, rfl⟩, ih⟩

theorem asks_done : Act.Asks world (pure a : Attempt α).run (Posted a []) :=
  Act.asks_pure .done

theorem asks_next {rest : Attempt α} (h : Act.Asks world rest.run (Posted a calls)) :
    Act.Asks world (Act.host call >>= fun _ => rest).run (Posted a (call :: calls)) := by
  refine (Act.asks_host call).attempt (fun _ xs hxs => ?_) fun e xs hxs => ?_
  · obtain ⟨failure, hfailure, rfl⟩ := hxs
    cases failure with
    | none => exact h.mono fun result ys hys => .next hys
    | some e => cases hfailure
  · obtain ⟨failure, hfailure, rfl⟩ := hxs
    cases failure with
    | none => cases hfailure
    | some e =>
      cases hfailure
      exact .refused e

end Posted

/-- What is posted about an answer of the service, and what comes of it. A result has the posts
`posts`, a failure of the code itself is kept, and of any other failure nothing is posted. -/
inductive Reports (chat : String) (posts : Message → List HostCall) :
    Except ChatError ExecResult → Except ChatError Message → List Exchange → Prop where
  | answered (answer : ExecResult) (time : Instant) {tool : Message}
    {result : Except ChatError Message} {xs : List Exchange}
    (htool : tool = ⟨answer.id, .tool, answer.message, some chat, time, false, false⟩)
    (h : Posted tool (posts tool) result xs) : Reports chat posts (.ok answer) result xs
  | failed (reason : String) (birth : Birth) {report : Message}
    {result : Except ChatError Message} {xs : List Exchange}
    (hreport : report =
      ⟨birth.id, .tool, "p \x7b " ++ Source.quote ("Execution failed: " ++ reason) ++ " \x7d",
        some chat, birth.createdAt, false, false⟩)
    (h : Posted report [.push report] result xs) :
    Reports chat posts (.error (.execution reason)) result xs
  | unanswered (e : ChatError) (he : ∀ reason, e ≠ .execution reason) :
    Reports chat posts (.error e) (.error e) []

namespace Reports

variable {chat : String} {posts : Message → List HostCall}

theorem host {answer : Except ChatError ExecResult} {result : Except ChatError Message}
    {xs : List Exchange} (h : Reports chat posts answer result xs) :
    ∀ x ∈ xs, ∃ call failure, x = .host call failure := by
  cases h with
  | answered answer time htool h => exact h.host
  | failed reason birth hreport h => exact h.host
  | unanswered e he => exact List.forall_mem_nil _

theorem asks_answered (answer : ExecResult) {next : Message → Attempt Message}
    (hnext : ∀ tool, Act.Asks world (next tool).run (Posted tool (posts tool))) :
    Act.Asks world ((liftM (Act.toolMessage chat answer) : Attempt Message) >>= next).run
      (Reports chat posts (.ok answer)) := by
  refine (Act.asks_toolMessage chat answer).lift fun tool xs hxs => ?_
  obtain ⟨rfl, time, htool⟩ := hxs
  exact (hnext tool).mono fun _ _ h => .answered answer time htool h

theorem asks_failed (reason : String) {next : Message → Attempt Message}
    (hnext : ∀ report, Act.Asks world (next report).run (Posted report [.push report])) :
    Act.Asks world ((liftM (Act.failureMessage chat reason) : Attempt Message) >>= next).run
      (Reports chat posts (.error (.execution reason))) := by
  refine (Act.asks_failureMessage chat reason).lift fun report xs hxs => ?_
  obtain ⟨rfl, birth, hreport⟩ := hxs
  exact (hnext report).mono fun _ _ h => .failed reason birth hreport h

end Reports

end ChatMarkup

/-!
# Computations that leave a trace

A computation that may stop with an error and that leaves a list of what it has seen.  The main
statements are the two equations of `bind`: the trace of a sequence is the first trace followed by
that of what comes next, and an error ends it.
-/

namespace ChatMarkup

/-- A result, or an error, with what was seen on the way. -/
structure Traced (σ ε α : Type) where
  seen : List σ
  result : Except ε α

namespace Traced

variable {σ ε α β : Type}

/-- Does what `f` says with the result, unless there is none. -/
def andThen (x : Traced σ ε α) (f : α → Traced σ ε β) : Traced σ ε β :=
  match x.result with
  | .ok a => ⟨x.seen ++ (f a).seen, (f a).result⟩
  | .error e => ⟨x.seen, .error e⟩

instance : Monad (Traced σ ε) where
  pure a := ⟨[], .ok a⟩
  bind := andThen

/-- Stops with an error. -/
def fail (e : ε) : Traced σ ε α :=
  ⟨[], .error e⟩

/-- Leaves one item in the trace. -/
def see (item : σ) : Traced σ ε Unit :=
  ⟨[item], .ok ()⟩

@[simp] theorem seen_pure (a : α) : (pure a : Traced σ ε α).seen = [] := rfl

@[simp] theorem result_pure (a : α) : (pure a : Traced σ ε α).result = .ok a := rfl

@[simp] theorem seen_fail (e : ε) : (fail e : Traced σ ε α).seen = [] := rfl

@[simp] theorem result_fail (e : ε) : (fail e : Traced σ ε α).result = .error e := rfl

@[simp] theorem seen_see (item : σ) : (see item : Traced σ ε Unit).seen = [item] := rfl

@[simp] theorem result_see (item : σ) : (see item : Traced σ ε Unit).result = .ok () := rfl

@[simp] theorem result_bind (x : Traced σ ε α) (f : α → Traced σ ε β) :
    (x >>= f).result = x.result.bind fun a => (f a).result := by
  show (andThen x f).result = _
  unfold andThen
  cases x.result <;> rfl

theorem result_bind_of_ok {x : Traced σ ε α} {a : α} (h : x.result = .ok a)
    (f : α → Traced σ ε β) : (x >>= f).result = (f a).result := by
  rw [result_bind, h]
  rfl

theorem seen_bind_of_ok {x : Traced σ ε α} {a : α} (h : x.result = .ok a)
    (f : α → Traced σ ε β) : (x >>= f).seen = x.seen ++ (f a).seen := by
  show (andThen x f).seen = _
  unfold andThen
  rw [h]

theorem seen_bind_of_error {x : Traced σ ε α} {e : ε} (h : x.result = .error e)
    (f : α → Traced σ ε β) : (x >>= f).seen = x.seen := by
  show (andThen x f).seen = _
  unfold andThen
  rw [h]

/-- What is made of a result leaves no trace of its own. -/
theorem seen_bind_pure (x : Traced σ ε α) (f : α → β) :
    (x >>= fun a => pure (f a)).seen = x.seen := by
  cases h : x.result with
  | error e => exact seen_bind_of_error h _
  | ok a => rw [seen_bind_of_ok h, seen_pure, List.append_nil]

theorem seen_see_bind (item : σ) (x : Traced σ ε α) :
    (see item >>= fun _ => x).seen = item :: x.seen :=
  seen_bind_of_ok (result_see item) _

end Traced

end ChatMarkup

import ChatMarkup.Proofs.Source.Unreached
import ChatMarkup.Proofs.Source.Watching

/-!
# Reading gets on

Each round that a reader takes, of a loop or down into a body, starts further on in the source than
the round before it, so that there are no more rounds than characters, and one at the end. No round
of a call closes a parenthesis that is not open, and no reader stops for a fault that no source has.

* `IsSafe`: rounds that get on, and start behind the place where reading starts;
* `IsSafe.bind`, `IsSafe.starting`: what reads on from where other rounds end is safe with them;
* `isSafe_run`: reading to the end of the source;
* `run_isSafe`: what this says of any source.
-/

namespace ChatMarkup.Source

/-- A round of a call that stands at a closing parenthesis, outside quotes, has one to close. -/
def Visit.IsCounted (visit : Visit) : Prop :=
  ∀ depth, visit.round = .call none depth → visit.left.head? = some ')' → 0 < depth

/-- Fewer than `n` characters are left at the first round and fewer at each one than at the round
before, and fewer behind the result, as `left` tells it, than at all of them. -/
structure IsSafe {α : Type} (left : α → Option (List Char)) (n : Nat) (x : Watching α) : Prop where
  falling : x.seen.Pairwise fun visit later => later.left.length < visit.left.length
  below : ∀ visit ∈ x.seen, visit.left.length < n
  counted : ∀ visit ∈ x.seen, visit.IsCounted
  honest : IsHonest x.result
  behind : ∀ a rest, x.result = .ok a → left a = some rest →
    rest.length < n ∧ ∀ visit ∈ x.seen, rest.length < visit.left.length

/-- What a reader leaves. -/
abbrev leftBehind {α : Type} (read : α × List Char) : Option (List Char) :=
  some read.2

/-- What a step leaves. -/
def Step.left? : Step → Option (List Char)
  | .done _ => none
  | .next _ rest => some rest

section Closure

open Watched

variable {α β : Type} {left : α → Option (List Char)} {left' : β → Option (List Char)} {n m : Nat}

theorem isSafe_quietly {result : Except Stop α} (h : IsHonest result)
    (hleft : ∀ a rest, result = .ok a → left a = some rest → rest.length < n) :
    IsSafe left n (quietly result) where
  falling := .nil
  below := List.forall_mem_nil _
  counted := List.forall_mem_nil _
  honest := h
  behind := fun a rest hok hrest => ⟨hleft a rest hok hrest, List.forall_mem_nil _⟩

theorem isSafe_pure {a : α} {rest : List Char} (h : left a = some rest) :
    IsSafe left (rest.length + 1) (pure a : Watching α) := by
  refine isSafe_quietly (isHonest_ok a) fun b behind hok hbehind => ?_
  cases hok
  rw [h] at hbehind
  cases hbehind
  exact Nat.lt_succ_self _

/-- An answer, and what is left of the source. -/
theorem isSafe_read (a : α) (rest : List Char) :
    IsSafe leftBehind (rest.length + 1) (pure (a, rest) : Watching (α × List Char)) :=
  isSafe_pure rfl

theorem isSafe_stop {cause : Fault} (h : cause.isDefensive = false) (rest : List Char) :
    IsSafe left n (quietly (stop cause rest : Except Stop α)) := by
  refine isSafe_quietly (isHonest_stop h rest) fun a behind hok => ?_
  cases hok

theorem IsSafe.mono {x : Watching α} (h : IsSafe left n x) (hle : n ≤ m) : IsSafe left m x where
  falling := h.falling
  below := fun visit hvisit => Nat.lt_of_lt_of_le (h.below visit hvisit) hle
  counted := h.counted
  honest := h.honest
  behind := fun a rest hok hrest =>
    ⟨Nat.lt_of_lt_of_le (h.behind a rest hok hrest).1 hle, (h.behind a rest hok hrest).2⟩

/-- A round in front of others that all start further on. -/
theorem IsSafe.starting {round : Round} {cs : List Char} {x : Watching α}
    (h : IsSafe left cs.length x) (hround : Visit.IsCounted ⟨round, cs⟩) :
    IsSafe left (cs.length + 1) (starting round cs x) where
  falling := List.pairwise_cons.mpr ⟨h.below, h.falling⟩
  below := List.forall_mem_cons.mpr
    ⟨Nat.lt_succ_self _, fun visit hvisit => Nat.lt_succ_of_lt (h.below visit hvisit)⟩
  counted := List.forall_mem_cons.mpr ⟨hround, h.counted⟩
  honest := h.honest
  behind := fun a rest hok hrest => by
    obtain ⟨hlt, hall⟩ := h.behind a rest hok hrest
    exact ⟨Nat.lt_succ_of_lt hlt, List.forall_mem_cons.mpr ⟨hlt, hall⟩⟩

/-- Rounds behind those of a reader, from the place on that it leaves. -/
theorem IsSafe.after {x : Watching α} {y : Watching β} {a : α} {rest : List Char}
    (hx : IsSafe left n x) (ha : x.result = .ok a) (hrest : left a = some rest)
    (hy : IsSafe left' (rest.length + 1) y) : IsSafe left' n (after x.seen y) := by
  obtain ⟨hlt, hall⟩ := hx.behind a rest ha hrest
  have hle : ∀ visit ∈ y.seen, visit.left.length ≤ rest.length := fun visit hvisit =>
    Nat.le_of_lt_succ (hy.below visit hvisit)
  refine ⟨?_, ?_, ?_, hy.honest, ?_⟩
  · refine List.pairwise_append.mpr ⟨hx.falling, hy.falling, fun visit hvisit later hlater => ?_⟩
    exact Nat.lt_of_le_of_lt (hle later hlater) (hall visit hvisit)
  · refine List.forall_mem_append.mpr ⟨hx.below, fun visit hvisit => ?_⟩
    exact Nat.lt_of_le_of_lt (hle visit hvisit) hlt
  · exact List.forall_mem_append.mpr ⟨hx.counted, hy.counted⟩
  · intro b behind hok hbehind
    obtain ⟨hlast, hlater⟩ := hy.behind b behind hok hbehind
    have hlast := Nat.le_of_lt_succ hlast
    refine ⟨Nat.lt_of_le_of_lt hlast hlt, List.forall_mem_append.mpr ⟨?_, hlater⟩⟩
    exact fun visit hvisit => Nat.lt_of_le_of_lt hlast (hall visit hvisit)

/-- Rounds with which all ends: in an error, or with nothing that is left. -/
theorem IsSafe.ending {x : Watching α} {result : Except Stop β} (hx : IsSafe left n x)
    (hresult : IsHonest result) (hleft : ∀ b, result = .ok b → left' b = none) :
    IsSafe left' n (Watched.after x.seen (quietly result)) := by
  have hseen : (Watched.after x.seen (quietly result)).seen = x.seen := List.append_nil _
  refine ⟨?_, ?_, ?_, hresult, fun b rest hok hrest => ?_⟩
  · rw [hseen]
    exact hx.falling
  · rw [hseen]
    exact hx.below
  · rw [hseen]
    exact hx.counted
  · rw [hleft b hok] at hrest
    cases hrest

/-- Reading on from the place that a reader leaves. -/
theorem IsSafe.bind {x : Watching α} {f : α → Watching β} (hx : IsSafe left n x)
    (hf : ∀ a, x.result = .ok a →
      ∃ rest, left a = some rest ∧ IsSafe left' (rest.length + 1) (f a)) :
    IsSafe left' n (x >>= f) := by
  cases hresult : x.result with
  | ok a =>
    obtain ⟨rest, hrest, hnext⟩ := hf a hresult
    have hbind : x >>= f = Watched.after x.seen (f a) := by
      show Traced.andThen x f = _
      rw [Traced.andThen, hresult]
      rfl
    rw [hbind]
    exact hx.after hresult hrest hnext
  | error e =>
    have hbind : x >>= f = Watched.after x.seen (quietly (.error e)) := by
      show Traced.andThen x f = _
      rw [Traced.andThen, hresult, Watched.after, quietly, List.append_nil]
    rw [hbind]
    refine hx.ending (hx.honest.of_error hresult) fun b hok => ?_
    cases hok

/-- Reading on behind an answer, from the rest of the source. -/
theorem IsSafe.read {x : Watching (α × List Char)} {f : α × List Char → Watching β}
    (hx : IsSafe leftBehind n x) (hf : ∀ a rest, IsSafe left' (rest.length + 1) (f (a, rest))) :
    IsSafe left' n (x >>= f) :=
  hx.bind fun read _ => ⟨read.2, rfl, hf read.1 read.2⟩

end Closure

/-! ## Attributes -/

namespace Watched

open Traced

theorem isCounted_of_ne {round : Round} (h : ∀ depth, round ≠ .call none depth) (cs : List Char) :
    Visit.IsCounted ⟨round, cs⟩ :=
  fun depth hround => absurd hround (h depth)

theorem isCounted_call (quote : Option Char) {depth : Nat} (h : 0 < depth) (cs : List Char) :
    Visit.IsCounted ⟨.call quote depth, cs⟩ := by
  rintro _ ⟨⟩ -
  exact h

/-- Inside a call, some parenthesis is open at every round. -/
theorem isSafe_readCallTail (acc : List Char) (quote : Option Char) {depth : Nat}
    (hdepth : 0 < depth) (cs : List Char) :
    IsSafe leftBehind (cs.length + 1) (readCallTail acc quote depth cs) := by
  fun_induction Source.readCallTail acc quote depth cs with
  | case1 => exact (isSafe_stop rfl _).starting (isCounted_call _ hdepth _)
  | case2 acc depth q =>
    refine IsSafe.starting ?_ (isCounted_call _ hdepth ['\\'])
    exact (isSafe_stop rfl _).starting (isCounted_call _ hdepth _)
  | case3 acc depth q next rest ih =>
    refine IsSafe.starting ((ih hdepth).mono ?_) (isCounted_call _ hdepth ('\\' :: next :: rest))
    exact Nat.le_succ _
  | case4 acc depth c rest q hslash ih =>
    rw [readCallTail.eq_def]
    dsimp only
    rw [if_neg hslash]
    exact (ih hdepth).starting (isCounted_call _ hdepth _)
  | case5 acc depth c rest hquote ih =>
    rw [readCallTail.eq_def]
    dsimp only
    rw [if_pos hquote]
    exact (ih hdepth).starting (isCounted_call _ hdepth _)
  | case6 acc depth rest _ ih =>
    exact (ih (Nat.succ_pos depth)).starting (isCounted_call none hdepth ('(' :: rest))
  | case7 => exact absurd hdepth (Nat.lt_irrefl 0)
  | case8 acc rest =>
    refine IsSafe.starting ?_ (isCounted_call none hdepth (')' :: rest))
    exact isSafe_read _ rest
  | case9 acc rest depth _ _ ih =>
    exact (ih (Nat.succ_pos depth)).starting (isCounted_call none hdepth (')' :: rest))
  | case10 acc depth c rest hquote hopen hclose ih =>
    rw [readCallTail.eq_def]
    dsimp only
    rw [if_neg hquote, if_neg hopen, if_neg hclose]
    exact (ih hdepth).starting (isCounted_call _ hdepth _)

theorem isSafe_readCall {cs : List Char} (h : cs.head? = some '(') :
    IsSafe leftBehind (cs.length + 1) (readCall cs) := by
  obtain ⟨rest, rfl⟩ := List.head?_eq_some_iff.mp h
  show IsSafe _ _ (starting (.call none 0) ('(' :: rest) (readCallTail ['('] none 1 rest))
  refine (isSafe_readCallTail _ _ Nat.one_pos rest).starting fun depth _ hhead => ?_
  cases hhead

/-- What a plain reader leaves, if it gets on. -/
theorem isSafe_reading {α : Type} {n : Nat} {reading : Reading α} (h : IsHonest reading)
    (hlt : ∀ a rest, reading = .ok (a, rest) → rest.length < n) :
    IsSafe leftBehind n (quietly reading) := by
  refine isSafe_quietly h fun read rest hok hrest => ?_
  obtain ⟨a, behind⟩ := read
  cases hrest
  exact hlt a _ hok

theorem isSafe_readIdentifier {c : Char} (hc : isIdentifierStart c = true) (rest : List Char) :
    IsSafe leftBehind (rest.length + 1) (quietly (readIdentifier (c :: rest))) :=
  isSafe_reading (isHonest_readIdentifier hc rest) fun _ _ => readIdentifier_length_lt

theorem isSafe_expect {c : Char} {what : Expectation} {cs : List Char}
    (h : IsHonest (expect c what cs)) : IsSafe some cs.length (quietly (expect c what cs)) := by
  refine isSafe_quietly h fun read rest hok hrest => ?_
  cases hrest
  exact expect_length_lt hok

theorem isIdentifierStart_of_start {c : Char} (h : Start.of c = .identifier) :
    isIdentifierStart c = true := by
  rw [Start.of] at h
  split at h
  · cases h
  · split at h
    · cases h
    · split at h
      · assumption
      · cases h

theorem isSafe_readName {c : Char} (hc : isIdentifierStart c = true) (rest : List Char) :
    IsSafe leftBehind (rest.length + 1) (readName (c :: rest)) := by
  refine (isSafe_readIdentifier hc rest).read fun name behind => ?_
  dsimp only
  split
  · exact isSafe_read _ behind
  · split
    · exact isSafe_read _ behind
    · split
      · rename_i hopen
        exact (isSafe_readCall hopen).read fun call left => isSafe_read _ left
      · exact isSafe_read _ behind

theorem isSafe_readValue (cs : List Char) : IsSafe leftBehind (cs.length + 1) (readValue cs) := by
  rw [readValue]
  split
  · rename_i hstart
    obtain ⟨c, rest, rfl, hc⟩ := exists_cons_of_start hstart
    exact (isSafe_readName (isIdentifierStart_of_start hc) rest).mono (Nat.le_succ _)
  · rename_i hstart
    exact isSafe_reading (isHonest_readValue hstart) fun _ _ hread =>
      Nat.lt_succ_of_lt (readValue_length_lt hread)

theorem isSafe_readAttribute {c : Char} (hc : isIdentifierStart c = true) (rest : List Char) :
    IsSafe leftBehind (rest.length + 1) (readAttribute (c :: rest)) := by
  refine (isSafe_readIdentifier hc rest).read fun key rest => ?_
  have hequals : IsSafe some rest.length (quietly (expect '=' (.valueOf key) rest)) :=
    isSafe_expect (isHonest_expect (fun _ => rfl) '=' rest)
  refine (hequals.mono (Nat.le_succ _)).bind fun rest _ => ⟨rest, rfl, ?_⟩
  have hvalue := (isSafe_readValue (skipTrivia rest)).mono
    (Nat.succ_le_succ (length_skipTrivia_le rest))
  exact hvalue.read fun value rest => isSafe_read _ rest

theorem isSafe_readAttributesTail (acc : List Attribute) (cs : List Char) :
    IsSafe leftBehind (cs.length + 1) (readAttributesTail acc cs) := by
  fun_induction readAttributesTail acc cs with
  | case1 acc cs hcomma hentry =>
    refine IsSafe.starting ?_ (isCounted_of_ne (by rintro _ ⟨⟩) cs)
    have hle := length_skipTrivia_le cs
    split
    · exact isSafe_stop rfl _
    · rename_i c rest hskip
      rw [hskip] at hle
      split
      · exact (isSafe_read _ rest).mono hle
      · split
        · exact (hcomma c rest hskip).mono hle
        · split
          · rename_i hstart
            have hread := (isSafe_readAttribute hstart rest).mono hle
            split
            · rename_i entry behind hok
              exact hread.after hok rfl (hentry c rest hskip entry behind hok)
            · rename_i e herror
              exact hread.ending (hread.honest.of_error herror) (by rintro _ ⟨⟩)
          · exact isSafe_stop rfl _

/-- Where a bracket stands, it opens the list. -/
theorem isSafe_readAttributes {cs : List Char} (h : cs.head? = some '[') :
    IsSafe leftBehind cs.length (readAttributes cs) := by
  obtain ⟨rest, rfl⟩ := List.head?_eq_some_iff.mp h
  have hopen : IsHonest (expect '[' .attributes ('[' :: rest)) := by
    rw [expect_cons (by decide) (by decide)]
    exact isHonest_ok rest
  exact (isSafe_expect hopen).bind fun rest _ => ⟨rest, rfl, isSafe_readAttributesTail [] rest⟩

/-! ## Documents -/

theorem isSafe_readBody (a : Assembly) (frame : Frame) (cs : List Char) :
    IsSafe leftBehind (cs.length + 1) (readBody a frame cs) := by
  have hplain : IsSafe leftBehind cs.length (quietly (a.readBody frame cs)) :=
    isSafe_reading (a.isHonest_readBody frame cs) fun _ _ => Assembly.readBody_length_lt
  rw [readBody]
  split
  · exact hplain.starting (isCounted_of_ne (by rintro _ ⟨⟩) cs)
  · exact hplain.mono (Nat.le_succ _)

theorem isSafe_readAttributes? (cs : List Char) :
    IsSafe leftBehind (cs.length + 1) (readAttributes? cs) := by
  rw [readAttributes?]
  split
  · rename_i hopen
    have hlist := (isSafe_readAttributes hopen).mono (Nat.le_succ _)
    exact hlist.read fun attributes rest => isSafe_read _ rest
  · exact isSafe_read _ cs

theorem isSafe_readElement (a : Assembly) {c : Char} (hc : isIdentifierStart c = true)
    (rest : List Char) : IsSafe leftBehind (rest.length + 1) (readElement a (c :: rest)) := by
  rw [readElement]
  split
  · exact isSafe_quietly isHonest_tooDeep (by rintro _ _ ⟨⟩)
  refine (isSafe_readIdentifier hc rest).read fun name rest => ?_
  have hlist := (isSafe_readAttributes? (skipTrivia rest)).mono
    (Nat.succ_le_succ (length_skipTrivia_le rest))
  refine hlist.read fun attributes rest => ?_
  exact (isSafe_readBody _ _ (skipTrivia rest)).mono (Nat.succ_le_succ (length_skipTrivia_le rest))

theorem isSafe_readItem (a : Assembly) (c : Char) (rest : List Char) :
    IsSafe leftBehind (rest.length + 1) (readItem a (c :: rest)) := by
  rw [readItem]
  split
  · rename_i hstart
    exact isSafe_readElement a (isIdentifierStart_of_start (Option.some.inj hstart)) rest
  · rename_i hstart
    exact isSafe_reading (a.isHonest_readItem fun h => hstart (congrArg some h)) fun _ _ =>
      Assembly.readItem_length_lt

theorem isSafe_step (a : Assembly) (cs : List Char) :
    IsSafe Step.left? (cs.length + 1) (step a cs) := by
  refine IsSafe.starting ?_ (isCounted_of_ne (by split <;> rintro _ ⟨⟩) cs)
  have hle := length_skipTrivia_le cs
  -- a step without an item only has what is left behind it to show
  have hplain : (∀ c rest, skipTrivia cs = c :: rest → c = '}') →
      IsSafe Step.left? cs.length (quietly (a.step cs)) := by
    refine fun h => isSafe_quietly (a.isHonest_step h) fun step rest hok hrest => ?_
    cases step with
    | done items => cases hrest
    | next b behind =>
      cases hrest
      exact Assembly.step_length_lt hok
  split
  · rename_i hskip
    exact hplain fun c rest hcons => by rw [hskip] at hcons; cases hcons
  · rename_i c rest hskip
    split
    · rename_i hclose
      exact hplain fun d behind hcons => by rw [hskip] at hcons; cases hcons; exact hclose
    · rw [hskip] at hle
      exact ((isSafe_readItem a c rest).mono hle).read fun b left => isSafe_pure rfl

theorem isSafe_run (a : Assembly) (cs : List Char) :
    IsSafe (fun _ => none) (cs.length + 1) (run a cs) := by
  fun_induction run a cs with
  | case1 a cs e hstep =>
    exact (isSafe_step a cs).ending ((isSafe_step a cs).honest.of_error hstep) (by rintro _ ⟨⟩)
  | case2 a cs items hstep =>
    exact (isSafe_step a cs).ending (isHonest_ok items) fun _ _ => rfl
  | case3 a cs b rest hstep ih => exact (isSafe_step a cs).after hstep rfl ih

end Watched

/-- Rounds of which each starts further on are no more than the places that there are. -/
theorem length_le_of_falling {visits : List Visit} {n : Nat}
    (hfalling : visits.Pairwise fun visit later => later.left.length < visit.left.length)
    (hbelow : ∀ visit ∈ visits, visit.left.length < n) : visits.length ≤ n := by
  induction visits generalizing n with
  | nil => exact Nat.zero_le n
  | cons visit visits ih =>
    obtain ⟨hlater, hrest⟩ := List.pairwise_cons.mp hfalling
    exact Nat.lt_of_le_of_lt (ih hrest hlater) (hbelow visit List.mem_cons_self)

/-- Reading any source gets on with every round, and so ends after no more rounds than it has
characters, and one. It closes no parenthesis that is not open, joins surrogates to characters only,
and never ends with the message of a fault that no source has. -/
theorem run_isSafe (source : String) :
    ∃ visits : List Visit,
      Watched.run .empty source.toList = ⟨visits, Assembly.empty.run source.toList⟩ ∧
      (visits.Pairwise fun visit later => later.left.length < visit.left.length) ∧
      visits.length ≤ source.length + 1 ∧
      (∀ visit ∈ visits, visit.IsCounted) ∧
      (∀ high low : UInt32, isHighSurrogate high.toNat = true →
        (joinWords high low).toNat = joinSurrogates high.toNat low.toNat ∧
          0x10000 ≤ (joinWords high low).toNat ∧ (joinWords high low).toNat ≤ 0x10ffff) ∧
      ∀ cause : Fault, cause.isDefensive = true → ∀ line column,
        read source ≠ .error (.parse line column cause.message) := by
  have hsafe := Watched.isSafe_run .empty source.toList
  refine ⟨(Watched.run .empty source.toList).seen, ?_, hsafe.falling, ?_, hsafe.counted, ?_, ?_⟩
  · rw [← Watched.result_run]
  · have hlength := length_le_of_falling hsafe.falling hsafe.below
    rwa [String.length_toList] at hlength
  · intro high low hhigh
    rw [toNat_joinWords hhigh low]
    exact ⟨rfl, joinSurrogates_bounds _ _⟩
  · intro cause hcause line column hread
    have hhonest := hsafe.honest
    rw [Watched.result_run] at hhonest
    rw [read] at hread
    split at hread
    · cases hread
    · rename_i e herror
      cases e with
      | tooDeep => cases hread
      | fault other rest =>
        have hmessage := (MarkupError.parse.inj (Except.error.inj hread)).2.2
        exact Fault.message_ne hcause (hhonest other rest herror) hmessage.symm

/-- An element with a list in which a call has a parenthesis in quotes. -/
def watchedSource : String :=
  "b[k=f(`)`)] \x7b `x` \x7d"

/-- The rounds that are taken over it, and how many characters are left at each. -/
def watchedRounds : List (Round × Nat) :=
  [(.element, 19), (.attribute, 17), (.call none 0, 14), (.call none 1, 13),
    (.call (some '`') 1, 12), (.call (some '`') 1, 11), (.call none 1, 10), (.attribute, 9),
    (.descent, 7), (.item, 6), (.item, 2), (.element, 0)]

theorem run_isSafe_watchedSource :
    ∃ visits : List Visit,
      Watched.run .empty watchedSource.toList =
        ⟨visits, Assembly.empty.run watchedSource.toList⟩ ∧
      visits.map (fun visit => (visit.round, visit.left.length)) = watchedRounds ∧
      (visits.Pairwise fun visit later => later.left.length < visit.left.length) ∧
      visits.length ≤ watchedSource.length + 1 := by
  have hvisits : (Watched.run .empty watchedSource.toList).seen.map
      (fun visit => (visit.round, visit.left.length)) = watchedRounds := by
    decide +kernel
  obtain ⟨visits, hrun, hfalling, hlength, -⟩ := run_isSafe watchedSource
  rw [hrun] at hvisits
  exact ⟨visits, hrun, hvisits, hfalling, hlength⟩

end ChatMarkup.Source

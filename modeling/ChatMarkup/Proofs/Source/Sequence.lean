import ChatMarkup.Proofs.Source.Extension
import ChatMarkup.Proofs.Source.Numbering
import ChatMarkup.Proofs.Source.RoundTrip

/-!
# Documents one behind the other

A document ends where nothing is open, and a line end closes all that could still go on: a name, a
numeral, a comment. So reading goes over a document and a line end as over the document alone, and
then over what follows, in the same way as from the start but for the number that comes next and the
items that are there already.

* `Assembly.run_line`: a document with a line end and more source behind it;
* `Assembly.run_behind`: reading behind other items shifts the numbers and keeps the items;
* `read_append`: two documents in one source.
-/

namespace ChatMarkup

namespace Node

mutual

/-- The tree with all its numbers moved up. -/
def shift (count : Nat) : Node → Node
  | document (some content) => document (some (shift count content))
  | elements items => elements (shiftAll count items)
  | block items => block (shiftAll count items)
  | element tag id attributes none => element tag (id + count) attributes none
  | element tag id attributes (some body) =>
    element tag (id + count) attributes (some (shift count body))
  | binding key value => binding key (shift count value)
  | node => node

def shiftAll (count : Nat) : List Node → List Node
  | [] => []
  | node :: nodes => shift count node :: shiftAll count nodes

end

theorem shiftAll_eq_map (count : Nat) (nodes : List Node) :
    shiftAll count nodes = nodes.map (shift count) := by
  induction nodes with
  | nil => rfl
  | cons node nodes ih => rw [shiftAll, ih, List.map_cons]

theorem shiftAll_reverse (count : Nat) (nodes : List Node) :
    shiftAll count nodes.reverse = (shiftAll count nodes).reverse := by
  rw [shiftAll_eq_map, shiftAll_eq_map, List.map_reverse]

end Node

namespace Source

/-! ## Up to a line end -/

/-- A line end is passed over with the trivia before it, also if that is an open comment. -/
theorem skipTriviaFrom_end {inComment : Bool} {cs : List Char}
    (h : skipTriviaFrom inComment cs = []) (more : List Char) :
    skipTriviaFrom inComment (cs ++ '\n' :: more) = skipTrivia more := by
  induction cs generalizing inComment with
  | nil => cases inComment <;> rfl
  | cons c cs ih =>
    rw [skipTriviaFrom] at h
    rw [List.cons_append, skipTriviaFrom]
    split at h
    · rename_i hcomment
      rw [if_pos hcomment]
      exact ih h
    · rename_i hcomment
      rw [if_neg hcomment]
      split at h
      · rename_i hblank
        rw [if_pos hblank]
        exact ih h
      · rename_i hblank
        rw [if_neg hblank]
        split at h
        · rename_i hopens
          rw [if_pos (opens_extend hopens _)]
          exact ih h
        · cases h

theorem skipTrivia_end {cs : List Char} (h : skipTrivia cs = []) (more : List Char) :
    skipTrivia (cs ++ '\n' :: more) = skipTrivia more :=
  skipTriviaFrom_end h more

theorem takeWhile_append_cons {p : Char → Bool} {c : Char} (hc : p c = false)
    (cs more : List Char) : (cs ++ c :: more).takeWhile p = cs.takeWhile p := by
  induction cs with
  | nil => simp [hc]
  | cons d cs ih => simp [List.takeWhile_cons, ih]

theorem dropWhile_append_cons {p : Char → Bool} {c : Char} (hc : p c = false)
    (cs more : List Char) : (cs ++ c :: more).dropWhile p = cs.dropWhile p ++ c :: more := by
  induction cs with
  | nil => simp [hc]
  | cons d cs ih =>
    rw [List.cons_append, List.dropWhile_cons, List.dropWhile_cons, ih]
    split <;> rfl

/-- A numeral does not go on behind a line end. -/
theorem splitNumeral_line (cs more : List Char) :
    splitNumeral (cs ++ '\n' :: more) =
      ((splitNumeral cs).1, (splitNumeral cs).2 ++ '\n' :: more) := by
  have hline : isNumeralChar '\n' = false := by decide
  cases cs with
  | nil => rw [List.nil_append, splitNumeral_cons (by decide)]; simp [hline, splitNumeral]
  | cons c cs =>
    by_cases hc : c = '-'
    · subst hc
      simp [splitNumeral, takeWhile_append_cons hline, dropWhile_append_cons hline]
    · rw [List.cons_append, splitNumeral_cons hc, splitNumeral_cons hc, ← List.cons_append,
        takeWhile_append_cons hline, dropWhile_append_cons hline]

theorem readNumber_line {x : Number} {cs rest : List Char} (h : readNumber cs = .ok (x, rest))
    (more : List Char) : readNumber (cs ++ '\n' :: more) = .ok (x, rest ++ '\n' :: more) := by
  rw [readNumber] at h
  split at h
  · rename_i hread
    cases h
    rw [readNumber, splitNumeral_line, hread]
  · cases h

theorem start_slash : Start.of '/' = .nothing := by
  decide

namespace Assembly

theorem readBody_extend {a b : Assembly} {frame : Frame} {cs rest : List Char}
    (h : a.readBody frame cs = .ok (b, rest)) (more : List Char) :
    a.readBody frame (cs ++ more) = .ok (b, rest ++ more) := by
  cases cs with
  | nil => cases h
  | cons c cs =>
    rw [readBody] at h
    rw [List.cons_append, readBody]
    split at h
    · rename_i hbrace
      rw [if_pos hbrace]
      split at h
      · cases h
      · rename_i hopen
        cases h
        rw [← List.cons_append, expect_extend (by decide) hopen]
    · rename_i hbrace
      rw [if_neg hbrace]
      split at h
      · rename_i hbare
        rw [if_pos hbare]
        split at h
        · cases h
        · rename_i hread
          cases h
          rw [← List.cons_append, readString_extend hread]
      · cases h

/-- Where a body starts, trivia end there whatever comes behind. -/
theorem skipTrivia_body {a b : Assembly} {frame : Frame} {cs rest : List Char}
    (h : a.readBody frame (skipTrivia cs) = .ok (b, rest)) (more : List Char) :
    skipTrivia (cs ++ more) = skipTrivia cs ++ more := by
  cases hskip : skipTrivia cs with
  | nil =>
    rw [hskip] at h
    cases h
  | cons c left =>
    refine skipTrivia_extend ?_ hskip more
    rintro rfl
    rw [hskip, readBody, if_neg (by decide), start_slash, if_neg (by simp)] at h
    cases h

theorem readAttributes?_extend {a b : Assembly} {frame : Frame} {cs left rest : List Char}
    {attributes : Option (List Attribute)}
    (h : readAttributes? (skipTrivia cs) = .ok (attributes, left))
    (hbody : a.readBody frame (skipTrivia left) = .ok (b, rest)) (more : List Char) :
    readAttributes? (skipTrivia (cs ++ more)) = .ok (attributes, left ++ more) := by
  rw [readAttributes?] at h
  split at h
  · rename_i hopen
    obtain ⟨entries, hread, rfl⟩ := Reading.map_eq_ok h
    cases hskip : skipTrivia cs with
    | nil =>
      rw [hskip] at hopen
      cases hopen
    | cons c behind =>
      rw [hskip] at hopen hread
      cases hopen
      have hread' := readAttributes_extend hread more
      rw [List.cons_append] at hread'
      rw [skipTrivia_extend (by decide) hskip more, readAttributes?, List.head?_cons, if_pos rfl,
        hread']
      rfl
  · rename_i hopen
    cases h
    rw [skipTrivia_idem] at hbody
    rw [skipTrivia_body hbody more, readAttributes?, if_neg]
    cases hskip : skipTrivia cs with
    | nil =>
      rw [hskip] at hbody
      cases hbody
    | cons c behind => rwa [hskip] at hopen

/-- A head with source behind it leads to where it did, since its element has a body. -/
theorem readElement_extend {a b : Assembly} {cs rest : List Char}
    (h : a.readElement cs = .ok (b, rest)) (more : List Char) :
    a.readElement (cs ++ more) = .ok (b, rest ++ more) := by
  rw [readElement] at h
  rw [readElement]
  split at h
  · cases h
  · rename_i hdepth
    rw [if_neg hdepth]
    split at h
    · cases h
    · rename_i name behind hname
      split at h
      · cases h
      · rename_i attributes left hattributes
        have hbehind : behind ≠ [] := by
          rintro rfl
          cases hattributes
          cases h
        simp only [readIdentifier_extend hname hbehind more,
          readAttributes?_extend hattributes h more, skipTrivia_body h more,
          readBody_extend h more]

theorem readItem_line {a b : Assembly} {cs rest : List Char} (h : a.readItem cs = .ok (b, rest))
    (more : List Char) : a.readItem (cs ++ '\n' :: more) = .ok (b, rest ++ '\n' :: more) := by
  cases cs with
  | nil => cases h
  | cons c cs =>
    rw [readItem] at h
    rw [List.cons_append, readItem]
    split at h
    · obtain ⟨value, hread, rfl⟩ := Reading.map_eq_ok h
      have hread' := readString_extend hread ('\n' :: more)
      rw [List.cons_append] at hread'
      simp only [hread']
      rfl
    · obtain ⟨x, hread, rfl⟩ := Reading.map_eq_ok h
      have hread' := readNumber_line hread more
      rw [List.cons_append] at hread'
      simp only [hread']
      rfl
    · exact readElement_extend h ('\n' :: more)
    · cases h

theorem step_line {a b : Assembly} {cs rest : List Char} (h : a.step cs = .ok (.next b rest))
    (more : List Char) :
    a.step (cs ++ '\n' :: more) = .ok (.next b (rest ++ '\n' :: more)) := by
  rw [step] at h
  split at h
  · split at h <;> cases h
  · rename_i c behind hskip
    have hslash : c ≠ '/' := by
      rintro rfl
      rw [if_neg (by decide)] at h
      simp only [readItem, start_slash] at h
      cases h
    rw [step, skipTrivia_extend hslash hskip]
    show (if c = '}' then _ else _) = _
    split at h
    · rename_i hclose
      rw [if_pos hclose]
      split at h
      · cases h
      · cases h
        rfl
    · rename_i hclose
      rw [if_neg hclose]
      split at h
      · cases h
      · rename_i hread
        cases h
        rw [← List.cons_append, readItem_line hread]

theorem skipTrivia_of_done {a : Assembly} {cs : List Char} {items : List Node}
    (h : a.step cs = .ok (.done items)) : skipTrivia cs = [] := by
  rw [step] at h
  split at h
  · rename_i hskip
    exact hskip
  · split at h
    · split at h <;> cases h
    · split at h <;> cases h

/-- Reading a document with a line end and more source behind it comes to what follows, with all of
the document read and nothing open. -/
theorem run_line {a : Assembly} (ha : a.Numbered) {cs : List Char} {items : List Node}
    (h : a.run cs = .ok items) :
    ∃ b : Assembly, b.frames = [] ∧ b.items.reverse = items ∧ b.Numbered ∧
      ∀ more, a.run (cs ++ '\n' :: more) = b.run more := by
  fun_induction Assembly.run a cs with
  | case1 => cases h
  | case2 a cs items' hstep =>
    cases h
    obtain ⟨hframes, rfl⟩ := step_eq_done hstep
    exact ⟨a, hframes, rfl, ha, fun more =>
      a.run_congr (skipTrivia_end (skipTrivia_of_done hstep) more)⟩
  | case3 a cs b rest hstep ih =>
    obtain ⟨last, hframes, hitems, hlast, hrun⟩ := ih (ha.step hstep) h
    refine ⟨last, hframes, hitems, hlast, fun more => ?_⟩
    rw [run_of_step (step_line hstep more), hrun]

end Assembly

/-! ## Behind other items -/

section Behind

variable (count : Nat) (before : List Node)

/-- What stands before the items of a body: the other items, if that is the whole document. -/
def ground (frames : List Frame) : List Node :=
  if frames.isEmpty then before else []

/-- An open element behind other items of a document, with those that are open around it. -/
def Frame.behind (frames : List Frame) (frame : Frame) : Frame :=
  { frame with
    id := frame.id + count
    outer := Node.shiftAll count frame.outer ++ ground before frames }

/-- The open elements behind other items of a document. -/
def framesBehind : List Frame → List Frame
  | [] => []
  | frame :: frames => frame.behind count before frames :: framesBehind frames

/-- What was read so far, behind other items of a document with as many elements as counted. -/
def Assembly.behind (a : Assembly) : Assembly where
  items := Node.shiftAll count a.items ++ ground before a.frames
  frames := framesBehind count before a.frames
  nextId := a.nextId + count

/-- Where a step leads behind other items. -/
def Step.behind : Step → Step
  | .done items => .done (before.reverse ++ Node.shiftAll count items)
  | .next a rest => .next (a.behind count before) rest

theorem length_framesBehind (frames : List Frame) :
    (framesBehind count before frames).length = frames.length := by
  induction frames with
  | nil => rfl
  | cons frame frames ih => rw [framesBehind, List.length_cons, List.length_cons, ih]

namespace Assembly

theorem behind_push (a : Assembly) (node : Node) :
    (a.push node).behind count before = (a.behind count before).push (node.shift count) := by
  rw [push, behind, Node.shiftAll]
  rfl

theorem behind_close (a : Assembly) {frame : Frame} {frames : List Frame}
    (hframes : a.frames = frame :: frames) :
    (a.close frame frames).behind count before =
      (a.behind count before).close (frame.behind count before frames)
        (framesBehind count before frames) := by
  simp [close, behind, hframes, ground, Frame.behind, Node.shiftAll, Node.shift,
    Node.shiftAll_reverse]

/-- What a reader of an assembly answers, behind other items. -/
abbrev resultBehind (result : Except Stop (Assembly × List Char)) :
    Except Stop (Assembly × List Char) :=
  result.map fun read => (read.1.behind count before, read.2)

theorem readBody_behind (a : Assembly) (frame : Frame) (cs : List Char) :
    (a.behind count before).readBody (frame.behind count before a.frames) cs =
      resultBehind count before (a.readBody frame cs) := by
  cases cs with
  | nil => rfl
  | cons c cs =>
    have htag : (frame.behind count before a.frames).tag = frame.tag := rfl
    rw [readBody, readBody, htag]
    split
    · cases expect '{' (.blockOf frame.tag.name) (c :: cs) <;> rfl
    · split
      · cases readString (c :: cs) with
        | error e => rfl
        | ok read =>
          show Except.ok ((a.behind count before).push _, read.2) = Except.ok (_, read.2)
          rw [behind_push]
          rfl
      · rfl

theorem readElement_behind (a : Assembly) (cs : List Char) :
    (a.behind count before).readElement cs = resultBehind count before (a.readElement cs) := by
  have hdepth : (a.behind count before).frames.length = a.frames.length :=
    length_framesBehind count before a.frames
  rw [readElement, readElement, hdepth]
  split
  · rfl
  · cases readIdentifier cs with
    | error e => rfl
    | ok named =>
      obtain ⟨name, left⟩ := named
      dsimp only
      cases readAttributes? (skipTrivia left) with
      | error e => rfl
      | ok listed =>
        obtain ⟨attributes, rest⟩ := listed
        have hnext : (a.behind count before).nextId + 1 = a.nextId + 1 + count :=
          Nat.add_right_comm a.nextId count 1
        dsimp only
        rw [hnext]
        exact readBody_behind count before { a with nextId := a.nextId + 1 }
          ⟨Tag.ofName name, a.nextId, attributes, a.items⟩ (skipTrivia rest)

theorem readItem_behind (a : Assembly) (cs : List Char) :
    (a.behind count before).readItem cs = resultBehind count before (a.readItem cs) := by
  cases cs with
  | nil => rfl
  | cons c cs =>
    rw [readItem, readItem]
    split
    · cases readString (c :: cs) with
      | error e => rfl
      | ok read =>
        show Except.ok ((a.behind count before).push _, _) = Except.ok (_, _)
        rw [behind_push]
        rfl
    · cases readNumber (c :: cs) with
      | error e => rfl
      | ok read =>
        show Except.ok ((a.behind count before).push _, _) = Except.ok (_, _)
        rw [behind_push]
        rfl
    · exact readElement_behind count before a (c :: cs)
    · rfl

theorem step_behind (a : Assembly) (cs : List Char) :
    (a.behind count before).step cs = (a.step cs).map (Step.behind count before) := by
  have hopen : (a.behind count before).frames = framesBehind count before a.frames := rfl
  rw [step, step, hopen]
  cases skipTrivia cs with
  | nil =>
    cases hframes : a.frames with
    | nil =>
      simp [framesBehind, behind, hframes, ground, Except.map, Step.behind, Node.shiftAll_reverse]
    | cons frame frames => rfl
  | cons c rest =>
    show (if c = '}' then _ else _) = Except.map _ (if c = '}' then _ else _)
    split
    · cases hframes : a.frames with
      | nil => rfl
      | cons frame frames =>
        show Except.ok (Step.next ((a.behind count before).close _ _) rest) =
          Except.ok (Step.next _ rest)
        rw [behind_close count before a hframes]
    · rw [readItem_behind]
      cases a.readItem (c :: rest) <;> rfl

/-- Behind other items a document is read as it is alone, with the other items before its own and
its numbers moved up. -/
theorem run_behind (a : Assembly) (cs : List Char) :
    (a.behind count before).run cs =
      (a.run cs).map fun items => before.reverse ++ Node.shiftAll count items := by
  fun_induction Assembly.run a cs with
  | case1 a cs e h =>
    have hstep := step_behind count before a cs
    rw [h] at hstep
    exact run_of_error hstep
  | case2 a cs items h =>
    have hstep := step_behind count before a cs
    rw [h] at hstep
    exact run_of_done hstep
  | case3 a cs b rest h ih =>
    have hstep := step_behind count before a cs
    rw [h] at hstep
    rw [run_of_step hstep, ih]

end Assembly

end Behind

/-- Two documents with a line end between them are read as one: the items of the first, and behind
them those of the second, whose elements are numbered from as many on as the first one has. -/
theorem read_append {a b : String} {first second : Node} (ha : read a = .ok first)
    (hb : read b = .ok second) :
    ∃ xs ys, first = .ofItems xs ∧ second = .ofItems ys ∧
      read (a ++ "\n" ++ b) = .ok (.ofItems (xs ++ Node.shiftAll first.ids.length ys)) := by
  obtain ⟨xs, hfirst, rfl⟩ := read_eq_ok ha
  obtain ⟨ys, hsecond, rfl⟩ := read_eq_ok hb
  obtain ⟨last, hframes, rfl, hnumbered, hline⟩ :=
    Assembly.run_line Assembly.numbered_empty hfirst
  refine ⟨_, ys, rfl, rfl, ?_⟩
  have hcount : (Node.ofItems last.items.reverse).ids.length = last.nextId := by
    rw [Assembly.Numbered, hframes] at hnumbered
    rw [Node.ids_ofItems, ← List.length_range (n := last.nextId), ← hnumbered]
    rfl
  -- what was read of the first document is what stands before the second
  have hlast : last = Assembly.empty.behind last.nextId last.items := by
    cases last
    cases hframes
    simp [Assembly.behind, Assembly.empty, framesBehind, ground, Node.shiftAll]
  have hrun := Assembly.run_behind last.nextId last.items .empty b.toList
  rw [← hlast, hsecond] at hrun
  have hchars : (a ++ "\n" ++ b).toList = a.toList ++ '\n' :: b.toList := by
    simp
  rw [hcount, read, hchars, hline, hrun]
  rfl

/-- A numeral, and a comment that no line end closes, end where the next document starts. -/
theorem read_append_open :
    ∃ first second xs ys,
      read "p \x7b note \x7b 1 \x7d \x7d 2//3" = .ok first ∧ read "4 b `x`" = .ok second ∧
      first = .ofItems xs ∧ second = .ofItems ys ∧ first.ids = [0, 1] ∧ second.ids = [0] ∧
      read ("p \x7b note \x7b 1 \x7d \x7d 2//3" ++ "\n" ++ "4 b `x`") =
        .ok (.ofItems (xs ++ Node.shiftAll 2 ys)) := by
  have hids : (read "p \x7b note \x7b 1 \x7d \x7d 2//3").toOption.map Node.ids = some [0, 1] ∧
      (read "4 b `x`").toOption.map Node.ids = some [0] := by
    decide +kernel
  obtain ⟨first, hread, hfirst⟩ := Option.map_eq_some_iff.mp hids.1
  obtain ⟨second, hread', hsecond⟩ := Option.map_eq_some_iff.mp hids.2
  have hread := eq_ok_of_toOption hread
  have hread' := eq_ok_of_toOption hread'
  obtain ⟨xs, ys, hxs, hys, hboth⟩ := read_append hread hread'
  rw [hfirst] at hboth
  exact ⟨first, second, xs, ys, hread, hread', hxs, hys, hfirst, hsecond, hboth⟩

end Source

end ChatMarkup

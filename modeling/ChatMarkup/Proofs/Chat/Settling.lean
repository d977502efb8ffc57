import ChatMarkup.Proofs.Chat.Accounting
import ChatMarkup.Proofs.Chat.Readable
import ChatMarkup.Proofs.Chat.Stored
import ChatMarkup.Proofs.View.Reread

/-!
# Messages whose file names are settled

Once every run of a saving has left a file name, every code element that is shown to be run names
a file, if it has a list at all. That is a matter of the marks of the shown elements, and so it is
true of the text with which the message is kept as well. A saving of that text, whatever its runs
leave, finds no element that lacks a name, and keeps nothing.

* `Node.unnamed_stampAll`: the tree with the names of all its runs;
* `Node.lacksAny_of_named`: a tree where no stamp is set;
* `Session.render_settles`: a message is kept with file names once.
-/

namespace ChatMarkup

open Source

/-! ## Trees whose file names are settled -/

namespace Node

variable (tree : Node) (names : List (Nat × String))

/-- The numbers of the elements that are run when the tree is saved, in the order of the runs. -/
def runnable (tree : Node) : List Nat :=
  (tree.codeSources.filter CodeSource.runs).map CodeSource.node

theorem mem_runnable {tree : Node} (h : IsDocument tree) {id : Nat} :
    id ∈ tree.runnable ↔ ∃ opening ∈ tree.shown, opening.runs = true ∧ opening.id = id := by
  have hsources : (id, true) ∈ tree.codeSources.map (fun source => (source.node, source.runs)) ↔
      (id, true) ∈ tree.shown.map fun opening => (opening.id, opening.runs) := by
    rw [codeSources_shown h]
  simpa [runnable, and_comm, and_assoc, and_left_comm] using hsources

/-- A file name at the end of a list does not decide whether the element is to be run. -/
theorem listRuns_named (filename : String) (attributes : Option (List Attribute)) :
    listRuns (named filename attributes) = listRuns attributes := by
  cases attributes with
  | none => rfl
  | some entries =>
    rw [named, Option.map_some]
    split
    · rfl
    · have hother : ∀ key, key ≠ filenameKey →
          Attributes.scalar? (entries ++ [⟨filenameKey, .string filename⟩]) key =
            Attributes.scalar? entries key := by
        intro key hkey
        rw [Attributes.scalar?_eq_findSome?, Attributes.scalar?_eq_findSome?, List.reverse_append,
          List.reverse_singleton, List.singleton_append, List.findSome?_cons, if_neg hkey.symm]
      rw [listRuns, listRuns, View.attributeText?, View.attributeText?, Option.bind_some,
        Option.bind_some, Option.bind_some, Option.bind_some, hother "lang" (by decide),
        hother "run" (by decide)]

theorem listRuns_stampAll (id : Nat) :
    ((tree.stampAll names).attributesAt id).map listRuns =
      (tree.attributesAt id).map listRuns := by
  induction names generalizing tree with
  | nil => rfl
  | cons name names ih =>
    rw [stampAll_cons, ih, attributesAt_stamp]
    split
    · rename_i heq
      rw [heq, Option.map_map]
      exact congrArg (Option.map · _) (funext (listRuns_named name.2))
    · rfl

theorem ids_stampAll : (tree.stampAll names).ids = tree.ids := by
  have hids : ∀ {xs ys : List Opening}, List.Forall₂ (Opening.Gained names) xs ys →
      ys.map Opening.id = xs.map Opening.id := by
    intro xs ys h
    induction h with
    | nil => rfl
    | cons hgained _ ih =>
      rw [List.map_cons, List.map_cons, ih]
      cases hgained <;> rfl
  rw [ids_eq_openings, ids_eq_openings, openings_stampAll]
  exact hids (Opening.forall₂_gain names tree.openings)

variable {tree names}

/-- With a name for every element that is run, no shown element that is run could be given one. -/
theorem unnamed_stampAll (h : IsDocument tree) (hnodup : tree.ids.Nodup)
    (hall : ∀ id ∈ tree.runnable, id ∈ names.map Prod.fst) :
    ∀ opening ∈ (tree.stampAll names).shown, opening.unnamed = false := by
  intro opening hopening
  rw [Opening.unnamed]
  cases hruns : opening.runs with
  | false => rfl
  | true =>
    have hat := attributesAt_of_shown (by rwa [ids_stampAll]) hopening
    -- Stamps change neither which elements are shown nor which are run.
    have hid : opening.id ∈ tree.shown.map Opening.id := by
      rw [← ids_shown_bared, ← bared_stampAll tree names, ids_shown_bared]
      exact List.mem_map_of_mem hopening
    obtain ⟨before, hbefore, hsame⟩ := List.mem_map.mp hid
    have hran : before.runs = true := by
      have hlists := listRuns_stampAll tree names opening.id
      rw [hat, ← hsame, attributesAt_of_shown hnodup hbefore] at hlists
      exact (Option.some.inj hlists).symm.trans hruns
    have hname := hall opening.id ((mem_runnable h).mpr ⟨before, hbefore, hran, hsame⟩)
    have hlacks := lacks_stampAll tree names opening.id
    rwa [if_pos hname, lacks_eq, hat] at hlacks

/-- Where no shown element that is run could be given a name, no run sets one. -/
theorem lacksAny_of_named (h : IsDocument tree) (hnodup : tree.ids.Nodup)
    (hnamed : ∀ opening ∈ tree.shown, opening.unnamed = false)
    (hruns : ∀ name ∈ names, name.1 ∈ tree.runnable) : tree.lacksAny names = false := by
  rw [lacksAny, List.any_eq_false]
  intro name hname
  obtain ⟨opening, hopening, hran, hid⟩ := (mem_runnable h).mp (hruns name hname)
  have hfull := hnamed opening hopening
  rw [Opening.unnamed, hran, Bool.true_and] at hfull
  rw [lacks_eq, ← hid, attributesAt_of_shown hnodup hopening]
  exact ne_true_of_eq_false hfull

end Node

/-! ## Queues -/

namespace Queue

variable {chat messageId : String} {queue : List QueuedCode} {exchanges : List Exchange}
  {names : List (Nat × String)} {failure : Option ChatError}

theorem EntryAsks.drains {entry : QueuedCode}
    (h : EntryAsks chat messageId entry exchanges names failure) :
    ∀ x ∈ exchanges, x.drains = true := by
  cases h <;> simp [Exchange.drains, Exchange.posts, Exchange.request?]

theorem EntryAsks.node_eq {entry : QueuedCode}
    (h : EntryAsks chat messageId entry exchanges names failure) :
    ∀ name ∈ names, entry.node = some name.1 := by
  cases h with
  | sent result =>
    intro name hname
    obtain ⟨node, hnode, hleft⟩ := Option.bind_eq_some_iff.mp (Option.mem_toList.mp hname)
    obtain ⟨filename, -, rfl⟩ := Option.map_eq_some_iff.mp hleft
    exact hnode
  | _ => simp

/-- A run that has left a file name leaves it for its element, unless it ends the draining. -/
theorem EntryAsks.mem_names {entry : QueuedCode}
    (h : EntryAsks chat messageId entry exchanges names none)
    (hleft : ∀ answer ∈ answers exchanges, (filename? answer).isSome) {node : Nat}
    (hnode : entry.node = some node) : node ∈ names.map Prod.fst := by
  cases h with
  | sent result time =>
    obtain ⟨filename, hfilename⟩ := Option.isSome_iff_exists.mp (hleft (.ok result) (by
      simp [answers, Exchange.answer?]))
    have hname : result.filename = some filename := hfilename
    rw [leaves, hnode, hname]
    exact List.mem_cons_self
  | reported reason birth =>
    exact absurd (hleft (.error (.execution reason)) (by simp [answers, Exchange.answer?]))
      (by simp [filename?, Except.toOption])

theorem QueueAsks.drains (h : QueueAsks chat messageId queue exchanges names failure) :
    ∀ x ∈ exchanges, x.drains = true := by
  induction h with
  | nil => simp
  | stopped entries hasks => exact hasks.drains
  | next hasks _ ih => exact List.forall_mem_append.mpr ⟨hasks.drains, ih⟩

/-- The names that a queue leaves are for the elements of its entries. -/
theorem QueueAsks.node_mem (h : QueueAsks chat messageId queue exchanges names failure) :
    ∀ name ∈ names, some name.1 ∈ queue.map QueuedCode.node := by
  induction h with
  | nil => simp
  | stopped entries hasks =>
    intro name hname
    rw [List.map_cons, hasks.node_eq name hname]
    exact List.mem_cons_self
  | next hasks _ ih =>
    intro name hname
    rw [List.map_cons]
    rcases List.mem_append.mp hname with hname | hname
    · rw [hasks.node_eq name hname]
      exact List.mem_cons_self
    · exact List.mem_cons_of_mem _ (ih name hname)

/-- Runs that all leave a file name leave one for the element of every entry. -/
theorem QueueAsks.mem_names (h : QueueAsks chat messageId queue exchanges names none)
    (hleft : ∀ answer ∈ answers exchanges, (filename? answer).isSome) {node : Nat}
    (hnode : some node ∈ queue.map QueuedCode.node) : node ∈ names.map Prod.fst := by
  generalize hfailure : (none : Option ChatError) = failure at h
  induction h with
  | nil => cases hnode
  | stopped => cases hfailure
  | next hasks _ ih =>
    rw [answers_append, List.forall_mem_append] at hleft
    rw [List.map_append]
    rcases List.mem_cons.mp hnode with hnode | hnode
    · exact List.mem_append_left _ (hasks.mem_names hleft.1 hnode.symm)
    · exact List.mem_append_right _ (ih hleft.2 hnode hfailure)

end Queue

/-! ## Saving -/

namespace Session

variable {world : World} {state after : ChatState}

/-- A message that could be kept was kept with the source of its tree, and the chat refreshed. -/
theorem keep_of_ok {id : String} {view : View CodeBlock} {tree : Node}
    {shown : Option (View CodeBlock)}
    (h : (keep id view tree).run.perform world state = (.ok shown, after)) :
    ∃ source, Source.write tree = .ok source ∧
      Told world state [.host (.edit id source) none, .host .refresh none] after := by
  obtain ⟨saved, result, kept, hperform, htold, hasks⟩ := keep_asks id view tree world state
  cases hperform.symm.trans h
  cases hasks with
  | kept source hwrite => exact ⟨source, hwrite, htold⟩

/-- What saving does with the queue of a tree once it is drained: it fails if the draining has, and
keeps the tree if that has changed. -/
def afterDraining (id : String) (view : View CodeBlock) (tree : Node)
    (names : List (Nat × String)) : Option ChatError → Attempt (Option (View CodeBlock))
  | some e => throw e
  | none => if tree.lacksAny names then keep id view (tree.stampAll names) else return some view

/-- Saving a message that is read drains the queue of its tree. -/
theorem render_drains (session : Session) {message : Message} {tree : Node}
    (hcontent : message.hasContent = true) (hread : Source.read message.text = .ok tree)
    (world : World) (state : ChatState) :
    ∃ view exchanges names failure left,
      Told world state exchanges left ∧
      Queue.QueueAsks (message.chat.getD session.chat) message.id
        ((tree.codeSources.filter CodeSource.runs).map Queue.waiting) exchanges names failure ∧
      (session.render message true).run.perform world state =
        (afterDraining message.id view tree names failure).run.perform world left := by
  obtain ⟨view, -, -, hrender⟩ := session.render_of_read hcontent hread true world state
  obtain ⟨exchanges, names, failure, left, hrun, htold, hasks⟩ :=
    Queue.asks_queue (session.chatOf message) message.id
      ((tree.codeSources.filter CodeSource.runs).map Queue.waiting) tree world
      (state.render (.display true) message.id tree).2
  have hdrain : (Queue.drain (session.chatOf message) message.id
      ((tree.codeSources.filter CodeSource.runs).map Queue.waiting) tree).perform world
        (state.render (.display true) message.id tree).2 =
      (⟨tree.stampAll names, [], Queue.ended tree names failure⟩, left) :=
    Act.perform_bind_of_eq hrun _
  refine ⟨view, exchanges, names, failure, left, (told_of_eq rfl rfl).after_quiet htold, hasks, ?_⟩
  refine hrender.trans ((Act.perform_lift_bind hdrain _).trans ?_)
  cases failure <;> rfl

/-- The elements that are run are those of the queue. -/
theorem node_mem_queue {tree : Node} {id : Nat} :
    some id ∈ ((tree.codeSources.filter CodeSource.runs).map Queue.waiting).map QueuedCode.node ↔
      id ∈ tree.runnable := by
  rw [List.map_map, Node.runnable, List.mem_map, List.mem_map]
  simp [Queue.waiting]

/-- A message where no shown element that is run could be given a file name is not kept. -/
theorem render_of_named (session : Session) {message : Message}
    (hnamed : ∀ tree, Source.read message.text = .ok tree →
      ∀ opening ∈ tree.shown, opening.unnamed = false) (world : World) (state : ChatState) :
    ∃ result xs after, (session.render message true).run.perform world state = (result, after) ∧
      Told world state xs after ∧ ∀ x ∈ xs, x.drains = true := by
  rcases session.idles_or_read message with ⟨result, hidles⟩ | ⟨hcontent, tree, hread⟩
  · exact ⟨result, [], state, hidles.perform_eq true world state, told_refl world state, by simp⟩
  obtain ⟨view, exchanges, names, failure, left, htold, hasks, hrender⟩ :=
    session.render_drains hcontent hread world state
  have hruns : ∀ name ∈ names, name.1 ∈ tree.runnable := fun name hname =>
    node_mem_queue.mp (hasks.node_mem name hname)
  have hlacks := Node.lacksAny_of_named (isDocument_of_read hread) (nodup_ids_of_read hread)
    (hnamed tree hread) hruns
  cases failure with
  | some e => exact ⟨_, exchanges, left, hrender, htold, hasks.drains⟩
  | none =>
    rw [afterDraining, hlacks] at hrender
    exact ⟨_, exchanges, left, hrender, htold, hasks.drains⟩

/-- A saving that succeeds has drained the queue of the tree, and has kept the message with the
stamped tree if that is another one. -/
theorem drained_of_render (session : Session) {message : Message} {tree : Node}
    (hcontent : message.hasContent = true) (hread : Source.read message.text = .ok tree)
    {shown : Option (View CodeBlock)} {xs : List Exchange}
    (hsaved : (session.render message true).run.perform world state = (.ok shown, after))
    (htold : Told world state xs after) :
    ∃ exchanges names,
      Queue.QueueAsks (message.chat.getD session.chat) message.id
        ((tree.codeSources.filter CodeSource.runs).map Queue.waiting) exchanges names none ∧
      answers xs = answers exchanges ∧
      ((tree.lacksAny names = false ∧ editsOf message.id xs = []) ∨
        ∃ source, Source.write (tree.stampAll names) = .ok source ∧
          editsOf message.id xs = [source]) := by
  obtain ⟨view, exchanges, names, failure, left, hasked, hasks, hrender⟩ :=
    session.render_drains hcontent hread world state
  rw [hrender] at hsaved
  cases failure with
  | some e => cases hsaved
  | none =>
    have hquiet : editsOf message.id exchanges = [] := editsOf_drains hasks.drains message.id
    refine ⟨exchanges, names, hasks, ?_⟩
    rw [afterDraining] at hsaved
    cases hlacks : tree.lacksAny names with
    | false =>
      rw [hlacks] at hsaved
      cases hsaved
      obtain rfl := htold.unique hasked
      exact ⟨rfl, .inl ⟨rfl, hquiet⟩⟩
    | true =>
      rw [hlacks, if_pos rfl] at hsaved
      obtain ⟨source, hwrite, hkept⟩ := keep_of_ok hsaved
      obtain rfl := htold.unique (hasked.trans hkept)
      have hsaving : IsSaving message.id source
          [.host (.edit message.id source) none, .host .refresh none] := .kept none
      refine ⟨?_, .inr ⟨source, hwrite, ?_⟩⟩
      · rw [answers_append, answers_saving hsaving, List.append_nil]
      · rw [editsOf_append, hquiet, editsOf_saving hsaving, List.nil_append]

/-- The text with which a message is left by a saving whose runs have all left file names shows no
element that is run and could be given one. -/
theorem named_of_render (session : Session) {message : Message}
    {shown : Option (View CodeBlock)} {xs : List Exchange}
    (hsaved : (session.render message true).run.perform world state = (.ok shown, after))
    (htold : Told world state xs after)
    (hleft : ∀ answer ∈ answers xs, (filename? answer).isSome) {tree : Node}
    (hread : Source.read ((editsOf message.id xs).getLast?.getD message.text) = .ok tree) :
    ∀ opening ∈ tree.shown, opening.unnamed = false := by
  rcases session.idles_or_read message with ⟨result, hidles⟩ | ⟨hcontent, before, hbefore⟩
  · have hidle := hidles.perform_eq true world state
    rw [hsaved] at hidle
    cases hidle
    obtain rfl := htold.unique (told_refl world state)
    rw [editsOf, List.filterMap_nil, List.getLast?_nil, Option.getD_none] at hread
    obtain ⟨-, rfl⟩ := hidles.blank tree hread
    simp [Node.shown_ofItems, Node.shownAll]
  obtain ⟨exchanges, names, hasks, hanswers, hkept⟩ :=
    session.drained_of_render hcontent hbefore hsaved htold
  rw [hanswers] at hleft
  have hnames : ∀ id ∈ before.runnable, id ∈ names.map Prod.fst := fun id hid =>
    hasks.mem_names hleft (node_mem_queue.mpr hid)
  have hstamped := Node.unnamed_stampAll (isDocument_of_read hbefore) (nodup_ids_of_read hbefore)
    hnames
  rcases hkept with ⟨hlacks, hnone⟩ | ⟨source, hwrite, hone⟩
  · -- nothing was changed, so that the tree is the stamped one
    rw [hnone, List.getLast?_nil, Option.getD_none, hbefore] at hread
    obtain rfl := Except.ok.inj hread
    rwa [Node.stampAll_of_not_lacksAny before names hlacks] at hstamped
  · rw [hone, List.getLast?_singleton, Option.getD_some] at hread
    have hdocument := (revised_stampAll (.read hbefore) names).1.isDocument
    exact Opening.forall_named_congr (marks_of_read_write hdocument hwrite hread) hstamped

/-- Once a message is saved and all its runs have left file names, the text that it is left with is
never kept with other file names, whatever its later runs leave and whoever keeps it. -/
theorem render_settles (session : Session) {message : Message}
    {shown : Option (View CodeBlock)} {xs : List Exchange}
    (hsaved : (session.render message true).run.perform world state = (.ok shown, after))
    (htold : Told world state xs after)
    (hleft : ∀ answer ∈ answers xs, (filename? answer).isSome) (session' : Session)
    {later : Message} (htext : later.text = (editsOf message.id xs).getLast?.getD message.text)
    (world' : World) (state' : ChatState) :
    ∃ result ys last, (session'.render later true).run.perform world' state' = (result, last) ∧
      Told world' state' ys last ∧
      (∀ id text failure, .host (.edit id text) failure ∉ ys) ∧
      ∀ failure, .host .refresh failure ∉ ys := by
  obtain ⟨result, ys, last, hperform, hasked, hdrains⟩ := session'.render_of_named
    (fun tree hread => session.named_of_render hsaved htold hleft (htext ▸ hread)) world' state'
  refine ⟨result, ys, last, hperform, hasked, fun id text failure hmem => ?_,
    fun failure hmem => ?_⟩
  · exact absurd (hdrains _ hmem) (by simp [Exchange.drains, Exchange.posts, Exchange.request?])
  · exact absurd (hdrains _ hmem) (by simp [Exchange.drains, Exchange.posts, Exchange.request?])

/-- A block is run twice, and the file of the second run has another name: the message is not kept
again. -/
theorem render_settles_runnable :
    ∃ shown xs after,
      Act.perform (Session.render ⟨"room", ""⟩ runnableMessage true).run (calmWorld "out")
        (.start (.ofMessages [runnableMessage])) = (.ok shown, after) ∧
      Told (calmWorld "out") (.start (.ofMessages [runnableMessage])) xs after ∧
      (∀ answer ∈ answers xs, (filename? answer).isSome) ∧
      ∃ later : Message, later.text = (editsOf "m" xs).getLast?.getD runnableMessage.text ∧
        later.text = "code[lang=lugha] \x7b `x` \x7d\n" ++
          "code[lang=lugha, run=true, filename=`out`] \x7b `y` \x7d" ∧
        ∃ result ys last,
          Act.perform (Session.render ⟨"room", ""⟩ later true).run (calmWorld "other")
            (.start (.ofMessages [later])) = (result, last) ∧
          Told (calmWorld "other") (.start (.ofMessages [later])) ys last ∧
          (∀ id text failure, .host (.edit id text) failure ∉ ys) ∧
          ∀ failure, .host .refresh failure ∉ ys := by
  let start := ChatState.start (.ofMessages [runnableMessage])
  let ran := Act.perform (Session.render ⟨"room", ""⟩ runnableMessage true).run (calmWorld "out")
    start
  let replayed := (calmWorld "out").replay start.log start.room ran.2.log
  have hfacts : (fun ran : Except ChatError (Option (View CodeBlock)) × ChatState =>
      let replayed := (calmWorld "out").replay start.log start.room ran.2.log
      ran.1.toOption.isSome && replayed.2 = ran.2.room &&
        (answers replayed.1).all (fun answer => (filename? answer).isSome) &&
        editsOf "m" replayed.1 = ["code[lang=lugha] \x7b `x` \x7d\n" ++
          "code[lang=lugha, run=true, filename=`out`] \x7b `y` \x7d"]) ran = true := by
    decide +kernel
  simp only [Bool.and_eq_true, decide_eq_true_eq, List.all_eq_true] at hfacts
  obtain ⟨⟨⟨hok, hroom⟩, hleft⟩, hedits⟩ := hfacts
  obtain ⟨shown, hshown⟩ := Option.isSome_iff_exists.mp hok
  have hsaved : ran = (.ok shown, ran.2) := Prod.ext (eq_ok_of_toOption hshown) rfl
  have htold : Told (calmWorld "out") start replayed.1 ran.2 :=
    ⟨ran.2.log, rfl, Prod.ext rfl hroom⟩
  let later : Message := { runnableMessage with
    text := "code[lang=lugha] \x7b `x` \x7d\n" ++
      "code[lang=lugha, run=true, filename=`out`] \x7b `y` \x7d" }
  have htext : later.text = (editsOf "m" replayed.1).getLast?.getD runnableMessage.text := by
    rw [hedits]
    rfl
  exact ⟨shown, replayed.1, ran.2, hsaved, htold, hleft, later, htext, rfl,
    Session.render_settles ⟨"room", ""⟩ hsaved htold hleft ⟨"room", ""⟩ htext (calmWorld "other")
      (.start (.ofMessages [later]))⟩

end Session

end ChatMarkup

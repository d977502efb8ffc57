import ChatMarkup.Proofs.Chat.Outcome
import ChatMarkup.Proofs.Tree.Update

/-!
# File names that are kept, and those that are lost

A run that leaves a file name puts it on the element of its block, and the message is kept with it
once the draining is over. A run that ends the draining ends the rendering with it: then nothing is
kept, and the file names of the runs before it are lost.

* `Node.findElement_stampAll`: each element has the file name that its run has left;
* `KeepsNames`: what becomes of the names;
* `Session.render_stamps`: every message that is saved keeps its names so;
* `Session.render_loses_stamp`: a rendering that loses one.
-/

namespace ChatMarkup

open Source

/-! ## Stamped trees -/

namespace Node

/-- Of names for elements of their own, each is the first for its element. -/
theorem lookup_of_nodup {names : List (Nat × String)} (hnodup : (names.map Prod.fst).Nodup)
    {id : Nat} {filename : String} (h : (id, filename) ∈ names) :
    names.lookup id = some filename := by
  obtain ⟨before, after, rfl⟩ := List.append_of_mem h
  rw [List.map_append, List.map_cons, List.nodup_append] at hnodup
  refine List.lookup_eq_some_iff.mpr ⟨before, after, rfl, fun name hname => bne_iff_ne.mpr ?_⟩
  exact (hnodup.2.2 _ (List.mem_map_of_mem hname) _ List.mem_cons_self).symm

theorem scalar?_append_filename (entries : List Attribute) (filename : String) :
    Attributes.scalar? (entries ++ [⟨filenameKey, .string filename⟩]) filenameKey =
      some (.string filename) := by
  rw [Attributes.scalar?_eq_findSome?, List.reverse_append, List.reverse_singleton,
    List.singleton_append, List.findSome?_cons, if_pos rfl]
  rfl

/-- An element that lacks a file name has got the one that was left for it. -/
theorem findElement_stampAll {tree : Node} {names : List (Nat × String)}
    (hnodup : (names.map Prod.fst).Nodup) {id : Nat} {filename : String}
    (h : (id, filename) ∈ names) (hlacks : tree.LacksName id) :
    ((tree.stampAll names).findElement id).bind (fun element => element.scalar? filenameKey) =
      some (.string filename) := by
  have hat := (tree.stamped_stampAll names).named id filename (lookup_of_nodup hnodup h)
  obtain ⟨element, hfind, hlacks⟩ := (Option.any_eq_true _ _).mp ((tree.lacksName_iff id).mp hlacks)
  rw [attributesAt_eq, attributesAt_eq, hfind, Option.map_some, Option.map_some,
    named_of_lacks hlacks] at hat
  obtain ⟨stamped, hstamped, hattributes⟩ := Option.map_eq_some_iff.mp hat
  obtain ⟨entries, hentries, -⟩ := (Option.any_eq_true _ _).mp hlacks
  rw [hstamped, Option.bind_some, Element.scalar?, hattributes, Element.withFilename, hentries]
  exact scalar?_append_filename entries filename

/-! ## Blocks with elements of their own -/

theorem ownId?_of_codeSource? {node : Node} {source : CodeSource}
    (h : node.codeSource? = some source) : node.ownId? = some source.node := by
  obtain ⟨element, helement, hid, -⟩ := element?_of_codeSource? h
  rw [ownId?_of_element? helement, hid]

theorem nodes_sublist (nodes : List Node) :
    ((nodes.filterMap codeSource?).map CodeSource.node).Sublist (nodes.filterMap ownId?) := by
  induction nodes with
  | nil => exact .slnil
  | cons node nodes ih =>
    cases hsource : node.codeSource? with
    | none =>
      rw [List.filterMap_cons_none hsource]
      exact ih.trans ((List.sublist_cons_self node nodes).filterMap ownId?)
    | some source =>
      rw [List.filterMap_cons_some hsource,
        List.filterMap_cons_some (ownId?_of_codeSource? hsource)]
      exact ih.cons_cons _

/-- No two blocks of a tree that was read have the same element. -/
theorem nodup_nodes_of_read {source : String} {tree : Node} (h : Source.read source = .ok tree) :
    (tree.codeSources.map CodeSource.node).Nodup :=
  (Source.nodup_ids_of_read h).sublist
    (((codeSources_sublist (Source.isDocument_of_read h)).map _).trans (nodes_sublist tree.walk))

end Node

/-! ## The names that runs have left -/

theorem nodup_filenames {nodes : List Nat} (h : nodes.Nodup)
    (answers : List (Except ChatError ExecResult)) :
    ((filenames nodes answers).map Prod.fst).Nodup := by
  induction nodes generalizing answers with
  | nil => exact List.nodup_nil
  | cons node nodes ih =>
    rw [List.nodup_cons] at h
    cases answers with
    | nil => exact List.nodup_nil
    | cons answer answers =>
      have hrest := ih h.2 answers
      rw [Queue.filenames_cons]
      cases filename? answer with
      | none => exact hrest
      | some filename =>
        refine List.nodup_cons.mpr ⟨fun hmem => h.1 ?_, hrest⟩
        obtain ⟨name, hname, rfl⟩ := List.mem_map.mp hmem
        obtain ⟨run, hrun, hleft⟩ := List.mem_filterMap.mp hname
        obtain ⟨left, -, rfl⟩ := Option.map_eq_some_iff.mp hleft
        exact (List.of_mem_zip hrun).1

theorem mem_filenames {sources : List CodeSource} {answers : List (Except ChatError ExecResult)}
    {entry : QueuedCode} {answer : Except ChatError ExecResult} {node : Nat} {filename : String}
    (h : (entry, answer) ∈ (sources.map Queue.waiting).zip answers) (hnode : entry.node = some node)
    (hleft : filename? answer = some filename) :
    (node, filename) ∈ filenames (sources.map CodeSource.node) answers := by
  rw [List.zip_map_left] at h
  obtain ⟨⟨source, answer⟩, hmem, rfl, rfl⟩ := List.mem_map.mp h
  cases hnode
  refine List.mem_filterMap.mpr ⟨(source.node, answer), ?_, ?_⟩
  · rw [List.zip_map_left]
    exact List.mem_map.mpr ⟨_, hmem, rfl⟩
  · exact Option.map_eq_some_iff.mpr ⟨filename, hleft, rfl⟩

theorem nodes_waiting (sources : List CodeSource) :
    (sources.map Queue.waiting).filterMap QueuedCode.node = sources.map CodeSource.node := by
  rw [List.filterMap_map]
  exact congrFun List.filterMap_eq_map _

/-! ## Saving -/

/-- Where nothing is refused, a message is kept with an edit and a refresh. -/
theorem isSaving_iff {id source : String} {saved : List Exchange}
    (hrefused : ∀ x ∈ saved, x.refused = false) :
    IsSaving id source saved ↔ saved = [.host (.edit id source) none, .host .refresh none] := by
  constructor
  · intro h
    cases h with
    | failed e => exact absurd (hrefused _ List.mem_cons_self) (by simp [Exchange.refused])
    | kept failure =>
      have hnone := hrefused _ (List.mem_cons_of_mem _ List.mem_cons_self)
      rw [Exchange.refused, Option.isSome_eq_false_iff, Option.isNone_iff_eq_none] at hnone
      rw [hnone]
  · rintro rfl
    exact .kept none

/-- What becomes of the file names that the runs of a message have left, where nothing is refused:
the message is kept with all of them, or with none. -/
structure KeepsNames (id : String) (tree : Node) (queued : List QueuedCode)
    (drained saved : List Exchange) (names : List (Nat × String))
    (result : Except ChatError (Option (View CodeBlock))) : Prop where
  /-- Draining runs code and posts messages. -/
  drains : ∀ x ∈ drained, x.drains = true
  /-- Each run that has left a file gives a name to its element. -/
  left : names = filenames (queued.filterMap QueuedCode.node) (answers drained)
  /-- The stamped tree has the names on their elements, and is else what was read. -/
  stamped : tree.Stamped names (tree.stampAll names)
  /-- An element that lacks a name has, in that tree, the one that its own run has left. -/
  own : ∀ entry answer node filename, (entry, answer) ∈ queued.zip (answers drained) →
    entry.node = some node → filename? answer = some filename → tree.LacksName node →
    (node, filename) ∈ names ∧
      ((tree.stampAll names).findElement node).bind (fun element => element.scalar? "filename") =
        some (.string filename)
  /-- The message is kept with the names if no run has ended the draining, some element lacks one,
  and the stamped tree can be written. -/
  kept : ∀ source, saved = [.host (.edit id source) none, .host .refresh none] ↔
    breaks drained = [] ∧ (∃ name ∈ names, tree.LacksName name.1) ∧
      Source.write (tree.stampAll names) = .ok source
  /-- Nothing else is asked after the draining. -/
  silent : saved = [] ∨ ∃ source, saved = [.host (.edit id source) none, .host .refresh none]
  /-- A run that ends the draining ends the rendering, and the names are lost. -/
  lost : ∀ e ∈ breaks drained, saved = [] ∧ result = .error e

/-- A message that asks to run nothing has no names to keep. -/
theorem keepsNames_nil (id : String) (tree : Node)
    (result : Except ChatError (Option (View CodeBlock))) :
    KeepsNames id tree [] [] [] [] result where
  drains := List.forall_mem_nil _
  left := rfl
  stamped := tree.stamped_stampAll []
  own := nofun
  kept _ := ⟨nofun, fun h => nomatch h.2.1⟩
  silent := .inl rfl
  lost := nofun

namespace Session

/-- Where nothing is refused, saving a message runs its blocks in their order, all of them if no run
ends the draining, and then the message is kept with the file names that the runs have left; a run
that ends the draining ends the rendering, and nothing is kept. -/
theorem render_stamps (session : Session) (message : Message) {world : World}
    (hworld : world.Obliging) (state : ChatState) {tree : Node}
    (hread : Source.read message.text = .ok tree) :
    ∃ queued drained saved names result after,
      (state.render (.display true) message.id tree).1.queued = queued ∧
      (session.render message true).run.perform world state = (result, after) ∧
      Told world state (drained ++ saved) after ∧
      requests drained <+:
        queued.map (fun entry => ⟨message.chat.getD session.chat, message.id, entry.code⟩) ∧
      (breaks drained = [] → requests drained =
        queued.map (fun entry => ⟨message.chat.getD session.chat, message.id, entry.code⟩)) ∧
      KeepsNames message.id tree queued drained saved names result := by
  have hqueued : (state.render (.display true) message.id tree).1.queued =
      (tree.codeSources.filter CodeSource.runs).map Queue.waiting :=
    rfl
  rcases session.idles_or_read message with ⟨result, hidles⟩ | ⟨hcontent, -⟩
  · obtain ⟨-, rfl⟩ := hidles.blank tree hread
    exact ⟨[], [], [], [], result, state, rfl, hidles.perform_eq true world state,
      told_refl world state, List.nil_prefix, fun _ => rfl, keepsNames_nil _ _ _⟩
  · obtain ⟨view, blocks, drained, saved, result, after, -, -, hblocks, hperform, htold, hsaves,
      hends⟩ := session.render_saves hworld hcontent hread state
    have hcodes : (blocks.map fun block => ⟨message.chat.getD session.chat, message.id,
        block.source.code⟩ : List ExecRequest) =
        ((tree.codeSources.filter CodeSource.runs).map Queue.waiting).map fun entry =>
          ⟨message.chat.getD session.chat, message.id, entry.code⟩ := by
      rw [← hblocks, List.map_map, List.map_map]
      rfl
    have hnodes := (nodes_of_sources hblocks).trans (nodes_waiting _).symm
    have hnodup : (((tree.codeSources.filter CodeSource.runs).map Queue.waiting).filterMap
        QueuedCode.node).Nodup := by
      rw [nodes_waiting]
      exact (Node.nodup_nodes_of_read hread).sublist (List.filter_sublist.map _)
    have hrefused := List.forall_mem_append.mp (htold.not_refused hworld)
    have hpasses := passes_iff hsaves.drains hrefused.1
    have hkept := hsaves.keeps
    have hsilent := hsaves.silent
    simp only [hnodes, hpasses, isSaving_iff hrefused.2] at hkept hsilent
    refine ⟨_, drained, saved, _, result, after, hqueued, hperform, htold, hcodes ▸ hsaves.inOrder,
      fun hbreaks => hcodes ▸ hsaves.complete (hpasses.mpr hbreaks), hsaves.drains, rfl,
      tree.stamped_stampAll _, fun entry answer node filename hrun hnode hleft hlacks => ?_, hkept,
      hsilent, fun e he => ?_⟩
    · have hname := mem_filenames hrun hnode hleft
      rw [← nodes_of_sources hblocks, hnodes] at hname
      exact ⟨hname, Node.findElement_stampAll (nodup_filenames hnodup _) hname hlacks⟩
    · rcases hends with ⟨failure, hbreaks, hresult⟩ | ⟨hbreaks, -⟩
      · rw [hbreaks, List.mem_singleton] at he
        refine ⟨hsilent.resolve_right ?_, he ▸ hresult⟩
        rintro ⟨source, hsaving⟩
        have hnone := ((hkept source).mp hsaving).1
        rw [hbreaks] at hnone
        cases hnone
      · rw [hbreaks] at he
        cases he

/-- A message with two blocks to be run. -/
def pairMessage : Message where
  id := "m"
  sender := .assistant
  text := "code[lang=lugha, run=true] \x7b `a` \x7d\ncode[lang=lugha, run=true] \x7b `b` \x7d"
  chat := none
  createdAt := ⟨0, 0⟩
  transient := false
  streaming := false

/-- Every run leaves a file, but there is no network for code that is no more than `b`. -/
def runUnlessB (request : ExecRequest) : Except ChatError ExecResult :=
  if request.code = "b" then .error (.network "refused")
  else .ok ⟨"run", request.code, some "a.lg"⟩

theorem render_stamps_pair :
    ∃ (tree : Node) (queued : List QueuedCode) (drained saved : List Exchange)
      (names : List (Nat × String)) (result : Except ChatError (Option (View CodeBlock)))
      (after : ChatState),
      ((obligingWorld runUnlessB).Obliging ∧ Source.read pairMessage.text = .ok tree) ∧
      tree.LacksName 0 ∧ queued = [⟨"a", some 0⟩, ⟨"b", some 1⟩] ∧
      (Session.render ⟨"room", ""⟩ pairMessage true).run.perform (obligingWorld runUnlessB)
        (.start (.ofMessages [pairMessage])) = (result, after) ∧
      Told (obligingWorld runUnlessB) (.start (.ofMessages [pairMessage])) (drained ++ saved)
        after ∧
      requests drained <+: [⟨"room", "m", "a"⟩, ⟨"room", "m", "b"⟩] ∧
      KeepsNames "m" tree queued drained saved names result := by
  have hsource : (Source.read pairMessage.text).toOption.any (fun tree =>
      ((ChatState.start (.ofMessages [pairMessage])).render (.display true) "m" tree).1.queued =
          [⟨"a", some 0⟩, ⟨"b", some 1⟩] &&
        (tree.findElement 0).any Element.lacksFilename) = true := by
    decide +kernel
  obtain ⟨tree, hread, hqueued⟩ := (Option.any_eq_true _ _).mp hsource
  rw [Bool.and_eq_true, decide_eq_true_eq] at hqueued
  replace hread := eq_ok_of_toOption hread
  have hobliging := obliging_obligingWorld runUnlessB
  obtain ⟨queued, drained, saved, names, result, after, hsame, hperform, htold, hrequests, -,
      hkeeps⟩ :=
    Session.render_stamps ⟨"room", ""⟩ pairMessage hobliging (.start (.ofMessages [pairMessage]))
      hread
  obtain rfl : queued = [⟨"a", some 0⟩, ⟨"b", some 1⟩] := hsame.symm.trans hqueued.1
  exact ⟨tree, _, drained, saved, names, result, after, ⟨hobliging, hread⟩,
    (tree.lacksName_iff 0).mpr hqueued.2, rfl, hperform, htold, hrequests, hkeeps⟩

/-- The second of two blocks cannot be run for want of a network. The first has left a file name
for its element, which lacks one, and no message is kept with it. -/
theorem render_loses_stamp :
    let start := ChatState.start (.ofMessages [pairMessage])
    let after := ((Session.render ⟨"room", ""⟩ pairMessage true).run.perform
      (obligingWorld runUnlessB) start).2
    ((Source.read pairMessage.text).toOption.bind fun tree => tree.findElement 0).any
      Element.lacksFilename = true ∧
    answers ((obligingWorld runUnlessB).replay start.log start.room after.log).1 =
      [.ok ⟨"run", "a", some "a.lg"⟩, .error (.network "refused")] ∧
    edits after.log = [] ∧ after.room.message? "m" = some pairMessage := by
  decide +kernel

end Session

end ChatMarkup

import ChatMarkup.Chat.Stream
import ChatMarkup.Proofs.Text.Lossy

/-!
# Streamed replies under any schedule

A reply takes the items of its stream and never looks at its reader, and the reader takes the latest
text whenever it gets its turn. So the reply comes to the same end under every schedule, and the
reader sees some of the texts that the reply grew to, in their order, and the last of them always.

* `growth`: the texts that a text grows to, and each goes on where the one before it ends;
* `FollowsFrom`: the invariant of a reply that is being streamed, kept by every turn;
* `Streaming.play_assembled`: what comes of a reply and its reader, however they take turns.
-/

namespace ChatMarkup

/-! ## Streams -/

namespace StreamItem

/-- Whether the stream is not read any further. -/
def ends : StreamItem → Bool
  | chunk _ => false
  | failure _ | cancel => true

/-- The chunks of a stream up to its end. -/
def chunks : List StreamItem → List (List UInt8)
  | chunk bytes :: items => bytes :: chunks items
  | _ => []

/-- How a stream ends: a cancel and an abort are the user's own wish, any other failure is kept. -/
def ending : List StreamItem → Except ChatError StreamOutcome
  | [] => .ok .completed
  | chunk _ :: items => ending items
  | cancel :: _ | failure .aborted :: _ => .ok .aborted
  | failure e :: _ => .error e

/-- The items of a stream up to the one that ends it. -/
def upToEnd : List StreamItem → List StreamItem
  | [] => []
  | item :: items => if item.ends then [item] else item :: upToEnd items

theorem ending_failure (e : ChatError) (items : List StreamItem) :
    ending (failure e :: items) = if e.isAbort then .ok .aborted else .error e := by
  cases e <;> rfl

end StreamItem

/-! ## Growing texts -/

/-- The pieces of text that chunks become one by one; the last piece is what is carried at the
end. -/
def Utf8.pieces (carried : List UInt8) : List (List UInt8) → List (List Char)
  | [] => [flush carried]
  | chunk :: chunks => (decode carried chunk).1 :: pieces (decode carried chunk).2 chunks

theorem Utf8.flatten_pieces (carried : List UInt8) (chunks : List (List UInt8)) :
    (pieces carried chunks).flatten =
      (decodeChunks carried chunks).1 ++ flush (decodeChunks carried chunks).2 := by
  induction chunks generalizing carried with
  | nil => simp [pieces, decodeChunks]
  | cons chunk chunks ih => simp [pieces, decodeChunks, ih]

/-- The pieces of a stream make up the text of all its bytes. -/
theorem Utf8.flatten_pieces_nil (chunks : List (List UInt8)) :
    (pieces [] chunks).flatten = lossy chunks.flatten := by
  rw [flatten_pieces, decodeChunks_nil, ← lossy_eq_decodeAll_flush]

/-- The texts that a text grows to as pieces are put behind it; an empty piece adds none. -/
def growth (text : String) : List (List Char) → List String
  | [] => []
  | piece :: pieces =>
    if piece = [] then growth text pieces
    else (text ++ String.ofList piece) :: growth (text ++ String.ofList piece) pieces

/-- Whether a text goes on where another one ends. -/
def Extends (text longer : String) : Prop :=
  ∃ more, more ≠ "" ∧ longer = text ++ more

theorem Extends.append {text longer : String} (h : Extends text longer) (more : String) :
    Extends text (longer ++ more) := by
  obtain ⟨first, hne, rfl⟩ := h
  refine ⟨first ++ more, fun hnil => hne ?_, String.append_assoc⟩
  exact (String.append_eq_empty_iff.mp hnil).1

theorem extends_piece (text : String) {piece : List Char} (h : piece ≠ []) :
    Extends text (text ++ String.ofList piece) :=
  ⟨String.ofList piece, by simpa using h, rfl⟩

theorem extends_growth {text later : String} {pieces : List (List Char)}
    (h : later ∈ growth text pieces) : Extends text later := by
  induction pieces generalizing text with
  | nil => cases h
  | cons piece pieces ih =>
    rw [growth] at h
    split at h
    · exact ih h
    · rename_i hpiece
      rcases List.mem_cons.mp h with rfl | hlater
      · exact extends_piece text hpiece
      · obtain ⟨more, -, rfl⟩ := ih hlater
        exact (extends_piece text hpiece).append more

/-- Each text goes on where every one before it ends. -/
theorem pairwise_growth (text : String) (pieces : List (List Char)) :
    (text :: growth text pieces).Pairwise Extends := by
  refine List.pairwise_cons.mpr ⟨fun _ h => extends_growth h, ?_⟩
  induction pieces generalizing text with
  | nil => exact .nil
  | cons piece pieces ih =>
    rw [growth]
    split
    · exact ih text
    · exact List.pairwise_cons.mpr ⟨fun _ h => extends_growth h, ih _⟩

/-- The last text has all the pieces. -/
theorem getLast?_growth (text : String) (pieces : List (List Char)) :
    (text :: growth text pieces).getLast? = some (text ++ String.ofList pieces.flatten) := by
  induction pieces generalizing text with
  | nil => simp [growth]
  | cons piece pieces ih =>
    rw [growth]
    split
    · rename_i hpiece
      rw [ih, hpiece, List.flatten_cons, List.nil_append]
    · rw [List.getLast?_cons_cons, ih, List.flatten_cons, String.ofList_append,
        String.append_assoc]

/-! ## The reader -/

namespace Streaming

/-- What a reader has been shown of a text that has grown to these texts and grows to those still to
come: some of them in their order, up to the latest if it has seen that. -/
structure Reading (whole toCome : List String) (s : Streaming) : Prop where
  latest : s.latest = s.message.text
  seen : s.unseen = false → s.shown.getLast? = some s.message.text
  texts : ∃ earlier, whole = earlier ++ s.message.text :: toCome ∧
    s.shown.Sublist (earlier ++ if s.unseen then [] else [s.message.text])

theorem Reading.consume {whole toCome : List String} {s : Streaming}
    (h : Reading whole toCome s) : Reading whole toCome s.consume := by
  rw [Streaming.consume]
  split
  · rename_i hunseen
    obtain ⟨earlier, hwhole, hshown⟩ := h.texts
    rw [hunseen, if_pos rfl, List.append_nil] at hshown
    refine ⟨h.latest, fun _ => ?_, earlier, hwhole, ?_⟩
    · simp [h.latest]
    · rw [h.latest]
      exact hshown.append (List.Sublist.refl _)
  · exact h

theorem Reading.addText {whole : List String} {s : Streaming} {piece : List Char}
    {pieces : List (List Char)} (h : Reading whole (growth s.message.text (piece :: pieces)) s) :
    Reading whole (growth (s.addText piece).message.text pieces) (s.addText piece) := by
  rw [growth] at h
  rw [Streaming.addText]
  split
  · rename_i hpiece
    rwa [if_pos hpiece] at h
  · rename_i hpiece
    rw [if_neg hpiece] at h
    obtain ⟨earlier, hwhole, hshown⟩ := h.texts
    refine ⟨rfl, nofun, earlier ++ [s.message.text], ?_, ?_⟩
    · rw [hwhole, List.append_assoc, List.singleton_append]
    · refine hshown.trans ?_
      rw [if_pos rfl, List.append_nil]
      refine List.Sublist.append (List.Sublist.refl _) ?_
      split
      · exact List.nil_sublist _
      · exact List.Sublist.refl _

/-! ## The reply -/

/-- The texts that a reply still grows to. -/
def toCome (s : Streaming) : List String :=
  match s.outcome with
  | some _ => []
  | none => growth s.message.text (Utf8.pieces s.carried (StreamItem.chunks s.items))

/-- How far a reply has come that began as this message, with these items to come. -/
structure FollowsFrom (message : Message) (items : List StreamItem) (s : Streaming) : Prop where
  /-- Nothing of the message changes but its text, and at the end it streams no more. -/
  kept : s.message =
    { message with text := s.message.text, streaming := s.outcome.isNone && message.streaming }
  /-- The items that are left end as all of them do. -/
  ending : s.outcome.getD (StreamItem.ending s.items) = StreamItem.ending items
  /-- Nothing is left at the end. -/
  done : s.outcome.isSome → s.items = []
  reading : Reading (message.text :: growth message.text (Utf8.pieces [] (StreamItem.chunks items)))
    s.toCome s

variable {message : Message} {items : List StreamItem} {s : Streaming}

theorem followsFrom_start (message : Message) (items : List StreamItem) :
    FollowsFrom message items (start message items) where
  kept := rfl
  ending := rfl
  done := nofun
  reading := ⟨rfl, nofun, [], rfl, List.nil_sublist _⟩

theorem FollowsFrom.consume (h : FollowsFrom message items s) :
    FollowsFrom message items s.consume := by
  have hreading := h.reading.consume
  rw [Streaming.consume] at hreading ⊢
  split
  · rename_i hunseen
    rw [if_pos hunseen] at hreading
    exact ⟨h.kept, h.ending, h.done, hreading⟩
  · exact h

/-! ### One item at a time -/

theorem produce_nil (hgoing : s.outcome = none) (hitems : s.items = []) :
    s.produce = s.finish (.ok .completed) := by
  rw [produce, hgoing, hitems]

theorem produce_chunk {bytes : List UInt8} {rest : List StreamItem} (hgoing : s.outcome = none)
    (hitems : s.items = .chunk bytes :: rest) :
    s.produce = { s with items := rest }.append bytes := by
  obtain ⟨_, _, _, _, _, _, _⟩ := s
  cases hgoing
  cases hitems
  rfl

theorem produce_failure {e : ChatError} {rest : List StreamItem} (hgoing : s.outcome = none)
    (hitems : s.items = .failure e :: rest) :
    s.produce = s.finish (if e.isAbort then .ok .aborted else .error e) := by
  rw [produce, hgoing, hitems]

theorem produce_cancel {rest : List StreamItem} (hgoing : s.outcome = none)
    (hitems : s.items = .cancel :: rest) : s.produce = s.finish (.ok .aborted) := by
  rw [produce, hgoing, hitems]

theorem produce_of_isSome (h : s.outcome.isSome) : s.produce = s := by
  obtain ⟨outcome, houtcome⟩ := Option.isSome_iff_exists.mp h
  rw [produce, houtcome]

/-- An item ends the stream as the items from it on do, or it is a chunk. -/
theorem produce_cases (hgoing : s.outcome = none) :
    StreamItem.chunks s.items = [] ∧ s.produce = s.finish (StreamItem.ending s.items) ∨
      ∃ bytes rest, s.items = .chunk bytes :: rest ∧
        s.produce = { s with items := rest }.append bytes := by
  match hitems : s.items with
  | [] => exact .inl ⟨rfl, produce_nil hgoing hitems⟩
  | .chunk bytes :: rest => exact .inr ⟨bytes, rest, rfl, produce_chunk hgoing hitems⟩
  | .failure e :: rest =>
    exact .inl ⟨rfl, StreamItem.ending_failure e rest ▸ produce_failure hgoing hitems⟩
  | .cancel :: rest => exact .inl ⟨rfl, produce_cancel hgoing hitems⟩

/-- More text changes the text of the message alone. -/
theorem message_addText (s : Streaming) (text : List Char) :
    (s.addText text).message = { s.message with text := (s.addText text).message.text } := by
  rw [addText]
  split <;> rfl

theorem outcome_addText (s : Streaming) (text : List Char) :
    (s.addText text).outcome = s.outcome := by
  rw [addText]
  split <;> rfl

theorem items_addText (s : Streaming) (text : List Char) : (s.addText text).items = s.items := by
  rw [addText]
  split <;> rfl

theorem carried_addText (s : Streaming) (text : List Char) :
    (s.addText text).carried = s.carried := by
  rw [addText]
  split <;> rfl

theorem toCome_of_none (h : s.outcome = none) :
    s.toCome = growth s.message.text (Utf8.pieces s.carried (StreamItem.chunks s.items)) := by
  rw [toCome, h]

/-- The end of the stream, where no more chunks are to come. -/
theorem FollowsFrom.finish (h : FollowsFrom message items s) (hgoing : s.outcome = none)
    (hchunks : StreamItem.chunks s.items = []) :
    FollowsFrom message items (s.finish (StreamItem.ending s.items)) where
  kept := by
    have hmessage := h.kept
    rw [hgoing] at hmessage
    rw [Streaming.finish, message_addText, hmessage]
    rfl
  ending := by
    have hending := h.ending
    rwa [hgoing] at hending
  done := fun _ => rfl
  reading := by
    have hreading := h.reading
    rw [toCome_of_none hgoing, hchunks, Utf8.pieces] at hreading
    have hadded := Reading.addText (s := { s with carried := [] })
      ⟨hreading.latest, hreading.seen, hreading.texts⟩
    exact ⟨hadded.latest, hadded.seen, hadded.texts⟩

/-- A chunk that is read. -/
theorem FollowsFrom.append (h : FollowsFrom message items s) (hgoing : s.outcome = none)
    {bytes : List UInt8} {rest : List StreamItem} (hitems : s.items = .chunk bytes :: rest) :
    FollowsFrom message items ({ s with items := rest }.append bytes) := by
  have hmessage := h.kept
  have hending := h.ending
  have hreading := h.reading
  rw [toCome_of_none hgoing, hitems, StreamItem.chunks, Utf8.pieces] at hreading
  rw [hgoing, hitems] at hending
  rw [hgoing] at hmessage
  have hadded := Reading.addText
    (s := { s with items := rest, carried := (Utf8.decode s.carried bytes).2 })
    ⟨hreading.latest, hreading.seen, hreading.texts⟩
  have hnone : ({ s with items := rest }.append bytes).outcome = none := by
    rw [Streaming.append, outcome_addText, hgoing]
  refine ⟨?_, ?_, ?_, ?_⟩
  · rw [hnone, Streaming.append, message_addText, hmessage]
  · rw [hnone, Streaming.append, items_addText]
    exact hending
  · rw [hnone]
    nofun
  · rw [toCome_of_none hnone, Streaming.append, items_addText, carried_addText]
    exact hadded

theorem FollowsFrom.produce (h : FollowsFrom message items s) :
    FollowsFrom message items s.produce := by
  cases hgoing : s.outcome with
  | some outcome => rwa [produce_of_isSome (Option.isSome_iff_exists.mpr ⟨outcome, hgoing⟩)]
  | none =>
    rcases produce_cases hgoing with ⟨hchunks, hproduce⟩ | ⟨bytes, rest, hitems, hproduce⟩
    · rw [hproduce]
      exact h.finish hgoing hchunks
    · rw [hproduce]
      exact h.append hgoing hitems

theorem FollowsFrom.turns (h : FollowsFrom message items s) (schedule : List Turn) :
    FollowsFrom message items (schedule.foldl turn s) := by
  induction schedule generalizing s with
  | nil => exact h
  | cons turn schedule ih =>
    cases turn with
    | produce => exact ih h.produce
    | consume => exact ih h.consume

/-! ## To the end -/

theorem FollowsFrom.taken (h : FollowsFrom message items s) (n : Nat) :
    FollowsFrom message items (Nat.repeat Streaming.produce n s) := by
  induction n with
  | zero => exact h
  | succ n ih => exact ih.produce

/-- Each item that is taken leaves fewer of them, or ends the stream. -/
theorem length_produce (hgoing : s.produce.outcome = none) :
    s.produce.items.length < s.items.length := by
  cases hbefore : s.outcome with
  | some outcome =>
    rw [produce_of_isSome (Option.isSome_iff_exists.mpr ⟨outcome, hbefore⟩), hbefore] at hgoing
    cases hgoing
  | none =>
    rcases produce_cases hbefore with ⟨-, hproduce⟩ | ⟨bytes, rest, hitems, hproduce⟩
    · rw [hproduce] at hgoing
      cases hgoing
    · rw [hproduce, hitems, Streaming.append, items_addText]
      exact Nat.lt_succ_self _

theorem length_repeat (n : Nat) (hgoing : (Nat.repeat produce n s).outcome = none) :
    (Nat.repeat produce n s).items.length + n ≤ s.items.length := by
  induction n with
  | zero => exact Nat.le_refl _
  | succ n ih =>
    have hshorter := length_produce hgoing
    have hbefore : (Nat.repeat produce n s).outcome = none := by
      cases houtcome : (Nat.repeat produce n s).outcome with
      | none => rfl
      | some _ =>
        have hsame := produce_of_isSome (Option.isSome_iff_exists.mpr ⟨_, houtcome⟩)
        rw [Nat.repeat, hsame, houtcome] at hgoing
        cases hgoing
    have hlength := ih hbefore
    rw [Nat.repeat]
    omega

theorem isSome_repeat {n : Nat} (h : s.items.length < n) :
    (Nat.repeat produce n s).outcome.isSome := by
  cases houtcome : (Nat.repeat produce n s).outcome with
  | some _ => rfl
  | none =>
    have hlength := length_repeat n houtcome
    omega

theorem repeat_of_le {n : Nat} (h : s.items.length < n) :
    Nat.repeat produce n s = s.produceAll := by
  induction n with
  | zero => cases h
  | succ n ih =>
    by_cases heq : n = s.items.length
    · rw [heq, produceAll]
    · have hlt : s.items.length < n := by omega
      rw [Nat.repeat, produce_of_isSome (isSome_repeat hlt), ih hlt]

/-! ## What is not read -/

/-- A reply whose stream stops at the item that ends it. -/
def cut (s : Streaming) : Streaming :=
  { s with items := StreamItem.upToEnd s.items }

theorem cut_addText (s : Streaming) (text : List Char) :
    s.cut.addText text = (s.addText text).cut := by
  rw [addText, addText]
  split <;> rfl

theorem cut_finish (s : Streaming) (outcome : Except ChatError StreamOutcome) :
    s.cut.finish outcome = (s.finish outcome).cut := by
  have hadded := cut_addText { s with carried := [] } (Utf8.flush s.carried)
  simp only [finish]
  simp only [cut] at hadded ⊢
  rw [hadded]
  rfl

/-- No turn looks behind the item that ends the stream. -/
theorem produce_cut (s : Streaming) : s.cut.produce = s.produce.cut := by
  cases hgoing : s.outcome with
  | some outcome =>
    have hdone : s.outcome.isSome := Option.isSome_iff_exists.mpr ⟨outcome, hgoing⟩
    rw [produce_of_isSome hdone, produce_of_isSome (s := s.cut) hdone]
  | none =>
    match hitems : s.items with
    | [] =>
      have hcut : s.cut.items = [] := by rw [cut, hitems]; rfl
      rw [produce_nil hgoing hitems, produce_nil (s := s.cut) hgoing hcut, cut_finish]
    | .chunk bytes :: rest =>
      have hcut : s.cut.items = .chunk bytes :: StreamItem.upToEnd rest := by
        rw [cut, hitems]; rfl
      rw [produce_chunk hgoing hitems, produce_chunk (s := s.cut) hgoing hcut]
      exact cut_addText { s with items := rest, carried := (Utf8.decode s.carried bytes).2 } _
    | .failure e :: rest =>
      have hcut : s.cut.items = [.failure e] := by rw [cut, hitems]; rfl
      rw [produce_failure hgoing hitems, produce_failure (s := s.cut) hgoing hcut, cut_finish]
    | .cancel :: rest =>
      have hcut : s.cut.items = [.cancel] := by rw [cut, hitems]; rfl
      rw [produce_cancel hgoing hitems, produce_cancel (s := s.cut) hgoing hcut, cut_finish]

theorem consume_cut (s : Streaming) : s.cut.consume = s.consume.cut := by
  rw [consume, consume]
  show (if s.unseen then _ else _) = _
  split <;> rfl

theorem turns_cut (schedule : List Turn) (s : Streaming) :
    schedule.foldl turn s.cut = (schedule.foldl turn s).cut := by
  induction schedule generalizing s with
  | nil => rfl
  | cons turn schedule ih =>
    cases turn with
    | produce =>
      rw [List.foldl_cons, List.foldl_cons, Streaming.turn, Streaming.turn, produce_cut, ih]
    | consume =>
      rw [List.foldl_cons, List.foldl_cons, Streaming.turn, Streaming.turn, consume_cut, ih]

theorem repeat_cut (n : Nat) (s : Streaming) :
    Nat.repeat produce n s.cut = (Nat.repeat produce n s).cut := by
  induction n with
  | zero => rfl
  | succ n ih => rw [Nat.repeat, Nat.repeat, ih, produce_cut]

theorem length_upToEnd_le (items : List StreamItem) :
    (StreamItem.upToEnd items).length ≤ items.length := by
  induction items with
  | nil => exact Nat.le_refl _
  | cons item items ih =>
    rw [StreamItem.upToEnd]
    split
    · simp
    · simpa using ih

theorem produceAll_cut (s : Streaming) : s.cut.produceAll = s.produceAll.cut := by
  have hlength : s.cut.items.length < s.items.length + 1 :=
    Nat.lt_succ_of_le (length_upToEnd_le s.items)
  rw [← repeat_of_le hlength, repeat_cut, produceAll]

/-! ## The texts of a reply -/

/-- More text is the next of the texts that were to come, or there is none. -/
theorem texts_addText (s : Streaming) (piece : List Char) (pieces : List (List Char)) :
    (s.addText piece).message.text :: growth (s.addText piece).message.text pieces =
        s.message.text :: growth s.message.text (piece :: pieces) ∨
      (s.addText piece).message.text :: growth (s.addText piece).message.text pieces =
        growth s.message.text (piece :: pieces) := by
  rw [growth, addText]
  split
  · exact .inl rfl
  · exact .inr rfl

theorem texts_produce (hgoing : s.outcome = none) :
    s.produce.message.text :: s.produce.toCome = s.message.text :: s.toCome ∨
      s.produce.message.text :: s.produce.toCome = s.toCome := by
  rw [toCome_of_none hgoing]
  rcases produce_cases hgoing with ⟨hchunks, hproduce⟩ | ⟨bytes, rest, hitems, hproduce⟩
  · rw [hproduce, hchunks]
    exact texts_addText { s with carried := [] } (Utf8.flush s.carried) []
  · have hnone : ({ s with items := rest }.append bytes).outcome = none := by
      rw [Streaming.append, outcome_addText, hgoing]
    rw [hproduce, hitems, toCome_of_none hnone, Streaming.append, items_addText, carried_addText]
    exact texts_addText { s with items := rest, carried := (Utf8.decode s.carried bytes).2 } _ _

/-- Each text that is to come has come after some items, or is still to come. -/
theorem mem_texts_repeat {text : String} (h : text ∈ s.message.text :: s.toCome) (n : Nat) :
    (∃ m, (Nat.repeat produce m s).message.text = text) ∨
      text ∈ (Nat.repeat produce n s).message.text :: (Nat.repeat produce n s).toCome := by
  induction n with
  | zero => exact .inr h
  | succ n ih =>
    rcases ih with hcome | hmem
    · exact .inl hcome
    rw [Nat.repeat]
    cases hgoing : (Nat.repeat produce n s).outcome with
    | some outcome =>
      rw [produce_of_isSome (Option.isSome_iff_exists.mpr ⟨outcome, hgoing⟩)]
      exact .inr hmem
    | none =>
      rcases texts_produce hgoing with hsame | hnext
      · exact .inr (hsame ▸ hmem)
      · rcases List.mem_cons.mp hmem with rfl | hlater
        · exact .inl ⟨n, rfl⟩
        · exact .inr (hnext ▸ hlater)

/-- What a reply grows to it has after some items. -/
theorem exists_repeat_of_mem {text : String} (h : text ∈ s.message.text :: s.toCome) :
    ∃ n, (Nat.repeat produce n s).message.text = text := by
  rcases mem_texts_repeat h (s.items.length + 1) with hcome | hmem
  · exact hcome
  · obtain ⟨outcome, houtcome⟩ :=
      Option.isSome_iff_exists.mp (isSome_repeat (Nat.lt_succ_self s.items.length))
    rw [toCome, houtcome, List.mem_singleton] at hmem
    exact ⟨_, hmem.symm⟩

/-! ## However they take turns -/

/-- What comes of a reply that began as this message with these items to come, and of its reader. -/
structure Assembled (message : Message) (items : List StreamItem) (s : Streaming) : Prop where
  /-- The message has the text of all bytes up to the end, and streams no more. -/
  final : s.message = { message with
    text := message.text ++ String.ofList (Utf8.lossy (StreamItem.chunks items).flatten)
    streaming := false }
  outcome : s.outcome = some (StreamItem.ending items)
  /-- Each text that the reader is shown goes on where every one before it ends. -/
  grows : s.shown.Pairwise Extends
  /-- The message had each of them after some items. -/
  had : ∀ text ∈ s.shown, ∃ n, (Nat.repeat produce n (start message items)).message.text = text
  last : s.shown.getLast? = some s.message.text
  /-- There is one for each piece of text that is not empty, at most, besides the first. -/
  few : s.shown.length ≤
    1 + (Utf8.pieces [] (StreamItem.chunks items)).countP fun piece => piece ≠ []

theorem length_growth (text : String) (pieces : List (List Char)) :
    (growth text pieces).length = pieces.countP fun piece => piece ≠ [] := by
  induction pieces generalizing text with
  | nil => rfl
  | cons piece pieces ih =>
    rw [growth, List.countP_cons]
    split
    · rename_i hpiece
      simp [ih, hpiece]
    · rename_i hpiece
      simp [ih, hpiece]

theorem FollowsFrom.assembled (h : FollowsFrom message items s) (hdone : s.outcome.isSome)
    (hseen : s.unseen = false) : Assembled message items s := by
  obtain ⟨outcome, houtcome⟩ := Option.isSome_iff_exists.mp hdone
  have hkept := h.kept
  have hending := h.ending
  obtain ⟨earlier, hwhole, hshown⟩ := h.reading.texts
  rw [toCome, houtcome] at hwhole
  rw [hseen, if_neg (by decide), ← hwhole] at hshown
  have hlast := getLast?_growth message.text (Utf8.pieces [] (StreamItem.chunks items))
  rw [hwhole, List.getLast?_append, List.getLast?_singleton, Option.some_or,
    Utf8.flatten_pieces_nil] at hlast
  refine ⟨?_, ?_, (pairwise_growth _ _).sublist hshown, fun text htext => ?_,
    h.reading.seen hseen, ?_⟩
  · rw [houtcome, Option.some.inj hlast] at hkept
    exact hkept
  · rw [houtcome] at hending ⊢
    exact congrArg some hending
  · exact exists_repeat_of_mem (s := start message items) (hshown.subset htext)
  · have hlength := hshown.length_le
    rw [List.length_cons, length_growth] at hlength
    omega

theorem consume_seen (s : Streaming) : s.consume.unseen = false := by
  rw [consume]
  split
  · rfl
  · rename_i hseen
    exact eq_false_of_ne_true hseen

theorem outcome_consume (s : Streaming) : s.consume.outcome = s.outcome := by
  rw [consume]
  split <;> rfl

/-- Under every schedule the reply is taken to its end. -/
theorem followsFrom_produceAll (message : Message) (items : List StreamItem)
    (schedule : List Turn) :
    FollowsFrom message items (schedule.foldl turn (start message items)).produceAll ∧
      (schedule.foldl turn (start message items)).produceAll.outcome.isSome :=
  ⟨((followsFrom_start message items).turns schedule).taken _, isSome_repeat (Nat.lt_succ_self _)⟩

theorem assembled_play (message : Message) (items : List StreamItem) (schedule : List Turn) :
    Assembled message items ((start message items).play schedule) := by
  obtain ⟨hall, hdone⟩ := followsFrom_produceAll message items schedule
  refine hall.consume.assembled ?_ (consume_seen _)
  rw [outcome_consume]
  exact hdone

/-- The text of a reply whose stream brings these items. -/
def replyText (items : List StreamItem) : String :=
  String.ofList (Utf8.lossy (StreamItem.chunks items).flatten)

/-- A reply that is empty at first ends with the text of its stream. -/
theorem text_play_streamingReply (birth : Birth) (chat : Option String) (items : List StreamItem)
    (schedule : List Turn) :
    ((start (.streamingReply birth chat) items).play schedule).message.text = replyText items := by
  rw [(assembled_play _ items schedule).final]
  exact String.empty_append

/-- However a reply and its reader take turns, the reply ends as its stream does, with the text of
all bytes up to the end, and the reader is shown a chain of texts that the reply had, each longer
than the one before it, and the last one always. What stands behind the end of the stream is never
read. -/
theorem play_assembled (message : Message) (items : List StreamItem) (schedule : List Turn) :
    Assembled message items ((start message items).play schedule) ∧
      (start message items).play schedule =
        (start message (StreamItem.upToEnd items)).play schedule := by
  refine ⟨assembled_play message items schedule, ?_⟩
  obtain ⟨hall, hdone⟩ := followsFrom_produceAll message items schedule
  have hcut : start message (StreamItem.upToEnd items) = (start message items).cut := rfl
  have hitems : (schedule.foldl turn (start message items)).produceAll.items = [] :=
    hall.done hdone
  have hwhole : (schedule.foldl turn (start message items)).produceAll.cut =
      (schedule.foldl turn (start message items)).produceAll := by
    rw [cut, hitems, StreamItem.upToEnd, ← hitems]
  rw [play, play, hcut, turns_cut, produceAll_cut, hwhole]

end Streaming

end ChatMarkup

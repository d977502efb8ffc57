import ChatMarkup.Proofs.Chat.Edits
import ChatMarkup.Proofs.Chat.Readable
import ChatMarkup.Proofs.Tree.Codes

/-!
# Other code in a block

A message that is kept with other code in a block is read as it was, with this code in the place of
the old one: settled, as everything is that was written, and numbered anew. Whatever the code is, it
ends where its text ends, and every other code element that can be seen has its text and attributes.

* `CodeReplaced`: the code elements of a tree before and after;
* `Session.read_saveCodeEdit`: what is read of a message that was kept.
-/

namespace ChatMarkup

open Source

/-- The code elements outside images before and after one got another text. If that one stands in an
image, none of them has changed; else it has the text now, and only those in its old body are gone. -/
structure CodeReplaced (tree back : Node) (place : Node.Place) (replaced : Element) (code : String) :
    Prop where
  shown : place.isHidden = false → ∃ before after,
    tree.codes = before ++ replaced :: (Node.codesOf replaced.body ++ after) ∧
    List.Forall₂ Element.Stays back.codes
      (before ++ { replaced with body := some (.block [.string code]) } :: after)
  hidden : place.isHidden = true → List.Forall₂ Element.Stays back.codes tree.codes

/-- A tree that was read back after a code element has got another text. -/
theorem codeReplaced_of_same {back : Node} {place : Node.Place} {id : Nat}
    {attributes : Option (List Attribute)} {body : Option Node} {code : String}
    (hsame : back.same (place.fill (codeElement id attributes code)).settled.renumbered = true)
    (hwritten : (place.fill (codeElement id attributes code)).refusals = []) :
    CodeReplaced (place.fill (.element .code id attributes body)) back place ⟨id, attributes, body⟩
      code := by
  have hstay := Node.codes_stay hsame hwritten
  have hfiller : (codeElement id attributes code).element? =
      some ⟨id, attributes, some (.block [.string code])⟩ := rfl
  obtain ⟨before, after, hcodes⟩ := Node.codes_fill hfiller hwritten
  rw [hcodes] at hstay
  constructor
  · intro hshown
    refine ⟨before, after, ?_, ?_⟩
    · rw [hcodes, hshown]
      rfl
    · rwa [hshown] at hstay
  · intro hhidden
    rw [hhidden] at hstay
    rwa [hcodes, hhidden]

namespace Session

/-- A message that is kept with other code in a block is read with this code in the place of the
block, settled and numbered anew, and all other code is there as before. -/
theorem read_saveCodeEdit {message : Message} {id : Nat} {code source : String} {world : World}
    {state after : ChatState} (hfinite : HasFiniteNumbers message.text)
    (h : (saveCodeEdit message id code).run.perform world state = (.ok source, after)) :
    ∃ tree place attributes body back,
      Source.read message.text = .ok tree ∧
      tree.Selects id place (.element .code id attributes body) ⟨id, attributes, body⟩ ∧
      Source.read source = .ok back ∧
      back.same (place.fill (codeElement id attributes code)).settled.renumbered = true ∧
      CodeReplaced tree back place ⟨id, attributes, body⟩ code := by
  obtain ⟨text, result, last, hedit, hperform, hkeeps⟩ :=
    perform_saveCodeEdit message id code world state
  obtain rfl : result = .ok source := (Prod.mk.inj (hperform.symm.trans h)).1
  cases hkeeps.ready
  cases hedit with
  | @ready tree place attributes body _ hread hselects hwrite =>
    have hchanged := replaceCode?_of_selects hselects code
    have hrevised : Revised (place.fill (codeElement id attributes code)) :=
      .code (.read hread) hchanged
    obtain ⟨back, hback, hsame, -⟩ := hrevised.isDocument.readsBack
      (fun x hx => hfinite tree hread x (numbers_replaceCode hchanged hx)) hwrite
    refine ⟨tree, place, attributes, body, back, hread, hselects, hback, hsame, ?_⟩
    rw [hselects.tree_eq]
    exact codeReplaced_of_same hsame (refusals_of_write hrevised.isDocument hwrite)

/-- A message with a lone space, an image with a body and two blocks of code. -/
def illustratedMessage : Message :=
  { runnableMessage with
    text := "p \x7b ` ` b `kept` \x7d img \x7b `old` \x7d code[width=2.5] \x7b `x` \x7d code \x7b `y` \x7d" }

/-- Code that would end a literal, a block and a text, if it was not escaped. -/
def endingCode : String := "`\x7d\"\\"

/-- What is kept of the message with this code. -/
def endingSource : String :=
  "p \x7b b`kept` \x7d\nimg \x7b \"\" \x7d\n" ++
    "code[width=2.5] \x7b `\\`\x7d\\\"\\\\` \x7d\ncode \x7b `y` \x7d"

theorem read_saveCodeEdit_ending :
    ∃ after tree place attributes body back,
      (saveCodeEdit illustratedMessage 3 endingCode).run.perform (calmWorld "out")
          (.start (.ofMessages [illustratedMessage])) = (.ok endingSource, after) ∧
      Source.read illustratedMessage.text = .ok tree ∧
      tree.Selects 3 place (.element .code 3 attributes body) ⟨3, attributes, body⟩ ∧
      Source.read endingSource = .ok back ∧
      back.same (place.fill (codeElement 3 attributes endingCode)).settled.renumbered = true ∧
      CodeReplaced tree back place ⟨3, attributes, body⟩ endingCode := by
  have hfinite : HasFiniteNumbers illustratedMessage.text := by
    have hall : (Source.read illustratedMessage.text).toOption.all
        (fun tree => tree.numbers.all Number.isFinite) = true := by
      decide +kernel
    intro tree hread
    rw [hread] at hall
    exact List.all_eq_true.mp hall
  have hrun : ((saveCodeEdit illustratedMessage 3 endingCode).run.perform (calmWorld "out")
      (.start (.ofMessages [illustratedMessage]))).1.toOption = some endingSource := by
    decide +kernel
  obtain ⟨after, hperform⟩ : ∃ after, (saveCodeEdit illustratedMessage 3 endingCode).run.perform
      (calmWorld "out") (.start (.ofMessages [illustratedMessage])) = (.ok endingSource, after) :=
    ⟨_, Prod.ext (eq_ok_of_toOption hrun) rfl⟩
  obtain ⟨tree, place, attributes, body, back, hback⟩ := read_saveCodeEdit hfinite hperform
  exact ⟨after, tree, place, attributes, body, back, hperform, hback⟩

end Session

end ChatMarkup

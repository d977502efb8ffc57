import ChatMarkup.Chat.Message
import ChatMarkup.Proofs.Source.Spelling

/-!
# Messages of one paragraph

What a user has written and why code has failed become messages of one paragraph around one quoted
text. Nothing in the text ends its literal, so that the paragraph is all that is read of the message,
and anything may stand behind it.

* `Source.spells_paragraph`: the message spells its paragraph, in any document;
* `Message.paragraph_holds`: quoted text is one literal, and such a message is one paragraph.
-/

namespace ChatMarkup

namespace Source

/-- A paragraph of one text. -/
def paragraphOf (text : String) : Node :=
  .element .paragraph 0 none (some (.block [.string text]))

theorem spells_paragraph (text : String) :
    Spells (Message.paragraph text).toList [paragraphOf text] := by
  have hblank : Spells [' '] [] := spells_blanks (by decide)
  have hbody : Spells ([' '] ++ ((quote text).toList ++ [' '])) [.string text] :=
    hblank.append ((spells_quote text).append hblank)
  have htag : IsTag .paragraph := isTag_ofName (isName_of_chars (by decide) : IsName "p")
  have hsource : (Message.paragraph text).toList =
      elementText Tag.paragraph.name.toList [] ([' '] ++ ((quote text).toList ++ [' '])) := by
    simp [Message.paragraph, elementText, Tag.name]
  rw [hsource]
  exact hbody.element htag .absent

end Source

open Source

namespace Message

theorem read_paragraph (text : String) :
    Source.read (paragraph text) = .ok (.ofItems [paragraphOf text]) := by
  refine (spells_paragraph text).read ?_
  simp [paragraphOf, Node.nesting, Node.nestingAll, maxDepth]

/-- A quoted text is read as one literal up to its end, in either way of quoting it and whatever
stands behind it. So a message of plain text is a document of one paragraph with this text alone, and
so is the report of a failure with its reason. -/
theorem paragraph_holds :
    (∀ (text : String) (rest : List Char),
      readString ((quote text).toList ++ rest) = .ok (text, rest) ∧
      readString ((quoteCode text).toList ++ rest) = .ok (text, rest)) ∧
    (∀ text, Source.read (paragraph text) = .ok (.ofItems
      [.element .paragraph 0 none (some (.block [.string text]))])) ∧
    ∀ reason, Source.read (failureReport reason) = .ok (.ofItems
      [.element .paragraph 0 none (some (.block [.string ("Execution failed: " ++ reason)]))]) :=
  ⟨fun text rest => ⟨readString_quote text rest, readString_quoteCode text rest⟩, read_paragraph,
    fun reason => read_paragraph ("Execution failed: " ++ reason)⟩

end Message

end ChatMarkup

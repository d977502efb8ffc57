import ChatMarkup.Source.Writer

/-!
# What cannot be written

A tree is written or has a code element whose body is not one string: nothing else goes wrong. In
particular no error of writing says that a source is not markup.
-/

namespace ChatMarkup.Source

/-- What is written goes wrong only with the body of a code element. -/
def FailsByShape {α : Type} (writing : Writing α) : Prop :=
  ∀ e, writing.result = .error e → ∃ found, e = .shape found

theorem failsByShape_pure {α : Type} (a : α) : FailsByShape (pure a : Writing α) := nofun

theorem failsByShape_see (node : Node) : FailsByShape (Traced.see node : Writing Unit) := nofun

theorem FailsByShape.bind {α β : Type} {first : Writing α} (h : FailsByShape first)
    {next : α → Writing β} (hnext : ∀ a, FailsByShape (next a)) : FailsByShape (first >>= next) := by
  intro e he
  rw [Traced.result_bind] at he
  cases hfirst : first.result with
  | error first =>
    rw [hfirst] at he
    cases he
    exact h _ hfirst
  | ok a =>
    rw [hfirst] at he
    exact hnext a e he

theorem failsByShape_codeText (body : Option Node) :
    FailsByShape (Writing.lift (codeText body)) := by
  intro e he
  rw [Writing.lift, codeText.eq_def] at he
  split at he <;> cases he <;> exact ⟨_, rfl⟩

mutual

theorem failsByShape_writeContent : ∀ node, FailsByShape (writeContent node)
  | .document none => by
    rw [writeContent]
    exact failsByShape_pure _
  | .document (some content) => by
    rw [writeContent]
    exact (failsByShape_see _).bind fun _ => failsByShape_writeContent content
  | .elements items | .block items => by
    rw [writeContent]
    exact failsByShape_writeItems items
  | .element tag id attributes body => by
    rw [writeContent.eq_def]
    have hhead := fun absent => failsByShape_writeHead absent attributes
    dsimp only
    split
    · exact (hhead " ").bind fun _ => failsByShape_pure _
    · exact (failsByShape_codeText body).bind fun _ =>
        (hhead " ").bind fun _ => failsByShape_pure _
    · split
      · exact (hhead "").bind fun _ => failsByShape_pure _
      · exact (hhead " ").bind fun _ =>
          (failsByShape_writeBody body).bind fun _ => failsByShape_pure _
  | .string _ | .number _ | .boolean _ | .identifier _ => by
    rw [writeContent]
    exact failsByShape_pure _
  | .attributeList attributes => by
    rw [writeContent]
    exact (failsByShape_writeEntries attributes).bind fun _ => failsByShape_pure _
  | .binding key value => by
    rw [writeContent]
    split
    · exact failsByShape_pure _
    · exact (failsByShape_see value).bind fun _ =>
        (failsByShape_writeContent value).bind fun _ => failsByShape_pure _

theorem failsByShape_writeItems : ∀ items, FailsByShape (writeItems items)
  | [] => by
    rw [writeItems]
    exact failsByShape_pure _
  | item :: items => by
    rw [writeItems]
    exact (failsByShape_see item).bind fun _ => (failsByShape_writeContent item).bind fun _ =>
      (failsByShape_writeItems items).bind fun _ => failsByShape_pure _

theorem failsByShape_writeBody : ∀ body, FailsByShape (writeBody body)
  | none => by
    rw [writeBody]
    exact failsByShape_pure _
  | some body => by
    rw [writeBody]
    exact (failsByShape_see body).bind fun _ => failsByShape_writeContent body

theorem failsByShape_writeHead (absent : String) : ∀ attributes,
    FailsByShape (writeHead absent attributes)
  | none => by
    rw [writeHead]
    exact failsByShape_pure _
  | some attributes => by
    rw [writeHead]
    exact (failsByShape_writeEntries attributes).bind fun _ => failsByShape_pure _

theorem failsByShape_writeEntries : ∀ attributes, FailsByShape (writeEntries attributes)
  | [] => by
    rw [writeEntries]
    exact failsByShape_pure _
  | ⟨key, value⟩ :: rest => by
    have hrest : ∀ entry : String, FailsByShape (do
        let others ← writeEntries rest
        pure (entry :: others)) := fun _ =>
      (failsByShape_writeEntries rest).bind fun _ => failsByShape_pure _
    rw [writeEntries]
    split
    · exact (failsByShape_pure _).bind fun _ => hrest _
    · exact (failsByShape_see value).bind fun _ =>
        (failsByShape_writeContent value).bind fun _ => hrest _

end

/-- A tree that cannot be written has a code element whose body is not one string. -/
theorem error_write {tree : Node} {e : MarkupError} (h : write tree = .error e) :
    ∃ found, e = .shape found :=
  ((failsByShape_see tree).bind fun _ => failsByShape_writeContent tree) e h

end ChatMarkup.Source

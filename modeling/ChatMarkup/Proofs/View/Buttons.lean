import ChatMarkup.Proofs.View.Rendering

/-!
# The buttons of a view

A view has the buttons of the views below it, in their order, whatever its blocks are. Those of a
view that is made of a tree are buttons of the tree, with the same numbers and the same code; parts
of the tree that are not shown may have more.

* `View.buttons_fill`: the blocks of a view do not change its buttons;
* `Rendering.buttons_render`: the buttons of a rendering are among those of its tree.
-/

namespace ChatMarkup

/-- The number of a button and what a click on it runs. -/
def Node.pressed? : Node → Option (Nat × Option String)
  | element .button id attributes _ => some (id, View.attributeText? attributes "onclick")
  | _ => none

/-- The buttons of a tree, shown or not, in the order of the walk. -/
def Node.buttons (tree : Node) : List (Nat × Option String) :=
  tree.walk.filterMap Node.pressed?

namespace View

variable {α β σ : Type}

theorem buttons_wrapped (wrapper : Wrapper) (children : List (View α)) :
    (wrapped wrapper children).buttons = children.flatMap buttons :=
  filterMap_walk rfl

theorem buttons_link (href : String) (children : List (View α)) :
    (link href children).buttons = children.flatMap buttons :=
  filterMap_walk rfl

theorem buttons_button (node : Nat) (onclick : Option String) (label : List (View α)) :
    (button node onclick label).buttons = (node, onclick) :: label.flatMap buttons := by
  rw [buttons, walk, walkAll_eq_flatMap, List.filterMap_cons]
  exact congrArg ((node, onclick) :: ·) List.filterMap_flatMap

theorem buttons_panel (kind : Panel) (children : List (View α)) :
    (panel kind children).buttons = children.flatMap buttons :=
  filterMap_walk rfl

theorem buttons_fragment (children : List (View α)) :
    (fragment children).buttons = children.flatMap buttons :=
  filterMap_walk rfl

theorem buttons_parts (view : View α) : view.parts.flatMap buttons = view.buttons := by
  cases view with
  | fragment children => rw [parts, buttons_fragment]
  | _ => simp [parts]

/-! ## Filling -/

mutual

theorem buttons_fill (f : σ → α → β × σ) (s : σ) :
    ∀ view : View α, (fill f s view).1.buttons = view.buttons
  | text _ | input .. | image .. | failure _ | code _ => rfl
  | wrapped wrapper children => by
    rw [fill, buttons_wrapped, buttons_wrapped]
    exact buttons_fillAll f s children
  | link href children => by
    rw [fill, buttons_link, buttons_link]
    exact buttons_fillAll f s children
  | button node onclick label => by
    rw [fill, buttons_button, buttons_button]
    exact congrArg _ (buttons_fillAll f s label)
  | panel kind children => by
    rw [fill, buttons_panel, buttons_panel]
    exact buttons_fillAll f s children
  | fragment children => by
    rw [fill, buttons_fragment, buttons_fragment]
    exact buttons_fillAll f s children

theorem buttons_fillAll (f : σ → α → β × σ) (s : σ) :
    ∀ views : List (View α), (fillAll f s views).1.flatMap buttons = views.flatMap buttons
  | [] => rfl
  | view :: views => by
    rw [fillAll, List.flatMap_cons, List.flatMap_cons, buttons_fill f s view,
      buttons_fillAll f _ views]

end

/-! ## Sketching -/

/-- What a sketch shows, if it shows anything, has no buttons but those of the nodes. -/
def Offers {γ : Type} (buttons : γ → List (Nat × Option String)) (nodes : List Node)
    (x : Sketching γ) : Prop :=
  ∀ shown, x.result = .ok shown → (buttons shown).Sublist (nodes.filterMap Node.pressed?)

section Offers

variable {γ δ : Type} {buttons : γ → List (Nat × Option String)}
  {buttons' : δ → List (Nat × Option String)} {nodes : List Node}

theorem offers_pure {shown : γ} (h : buttons shown = []) : Offers buttons nodes (pure shown) := by
  rintro _ ⟨⟩
  rw [h]
  exact List.nil_sublist _

/-- A node around others that is shown without a button of its own. -/
theorem Offers.around {x : Sketching γ} (h : Offers buttons nodes x) (node : Node) {f : γ → δ}
    (hf : ∀ shown, buttons' (f shown) = buttons shown) :
    Offers buttons' (node :: nodes) (x >>= fun shown => pure (f shown)) := by
  intro shown hshown
  obtain ⟨inner, hinner, hpure⟩ := result_bind_eq_ok hshown
  cases hpure
  rw [hf]
  exact (h inner hinner).trans ((List.sublist_cons_self node nodes).filterMap Node.pressed?)

end Offers

/-- What an element shows, from what its body does. -/
theorem offers_element (tag : Tag) (id : Nat) (attributes : Option (List Attribute))
    {body : Option Node} (tight : Bool)
    (h : ∀ tight, Offers (List.flatMap buttons) (body.toList.flatMap Node.walk)
      (sketchBody tight body)) :
    Offers buttons (Node.element tag id attributes body).walk
      (sketchContent tight (.element tag id attributes body)) := by
  rw [Node.walk_eq_cons]
  cases tag with
  | button =>
    rw [sketchContent]
    intro view hview
    obtain ⟨label, hlabel, hpure⟩ := result_bind_eq_ok hview
    cases hpure
    rw [buttons_button]
    exact (h tight label hlabel).cons_cons _
  | link =>
    rw [sketchContent]
    exact (h _).around _ fun children => buttons_link _ children
  | input | image =>
    rw [sketchContent]
    exact offers_pure rfl
  | code =>
    rw [sketchContent]
    cases codeSource id attributes body with
    | error e =>
      intro view hview
      cases hview
    | ok source =>
      intro view hview
      cases hview
      exact List.nil_sublist _
  | custom name =>
    rw [sketchContent]
    cases Panel.ofName? name with
    | some kind =>
      exact (h _).around _ fun children => buttons_panel _ children
    | none => exact offers_pure rfl
  | _ =>
    rw [sketchContent]
    · exact (h _).around _ fun children => buttons_wrapped _ children
    all_goals simp

mutual

theorem offers_content (tight : Bool) :
    ∀ node : Node, Offers buttons node.walk (sketchContent tight node)
  | .document content => by
    rw [sketchContent, Node.walk_eq_cons]
    exact (offers_body tight content).around _ fun children => buttons_wrapped _ children
  | .elements items => by
    rw [sketchContent, Node.walk_eq_cons]
    exact (offers_items tight items).around _ fun children => buttons_fragment children
  | .block items => by
    rw [sketchContent, Node.walk_eq_cons]
    refine (offers_items tight items).around _ fun children => ?_
    rw [buttons_fragment]
    split
    · rfl
    · exact flatMap_intersperse rfl children
  | .element tag id attributes body =>
    offers_element tag id attributes tight fun tight => offers_body tight body
  | .string _ | .number _ | .boolean _ | .identifier _ | .attributeList _ | .binding _ _ => by
    rw [sketchContent]
    exact offers_pure rfl

theorem offers_items (tight : Bool) :
    ∀ items : List Node, Offers (List.flatMap buttons) (items.flatMap Node.walk)
      (sketchItems tight items)
  | [] => by
    rw [sketchItems]
    exact offers_pure rfl
  | item :: items => by
    rw [sketchItems]
    intro views hviews
    obtain ⟨-, -, hviews⟩ := result_bind_eq_ok hviews
    obtain ⟨first, hfirst, hviews⟩ := result_bind_eq_ok hviews
    obtain ⟨others, hothers, hpure⟩ := result_bind_eq_ok hviews
    cases hpure
    rw [List.flatMap_cons, List.flatMap_cons, List.filterMap_append]
    exact (offers_content tight item first hfirst).append (offers_items tight items others hothers)

theorem offers_body (tight : Bool) :
    ∀ body : Option Node, Offers (List.flatMap buttons) (body.toList.flatMap Node.walk)
      (sketchBody tight body)
  | none => by
    rw [sketchBody]
    exact offers_pure rfl
  | some body => by
    rw [sketchBody]
    intro views hviews
    obtain ⟨-, -, hviews⟩ := result_bind_eq_ok hviews
    obtain ⟨view, hview, hpure⟩ := result_bind_eq_ok hviews
    cases hpure
    rw [buttons_parts, Option.toList_some, List.flatMap_singleton]
    exact offers_content tight body view hview

end

end View

theorem Rendering.buttons_render {mode : Mode} {table : BlockTable} {tree : Node}
    {view : View CodeBlock} (h : (Rendering.render mode table tree).view = .ok view) :
    view.buttons.Sublist tree.buttons := by
  cases hsketch : (View.sketch tree).result with
  | error e =>
    rw [Rendering.render, hsketch] at h
    cases h
  | ok outline =>
    rw [(Rendering.render_of_sketch hsketch mode table).1] at h
    cases h
    rw [View.buttons_fill]
    rw [View.sketch] at hsketch
    obtain ⟨-, -, hcontent⟩ := View.result_bind_eq_ok hsketch
    exact View.offers_content false tree outline hcontent

end ChatMarkup

import ChatMarkup.View.Basic

/-!
# The blocks of a view

The code blocks of a view are those of the views below it, in their order; spaces between
neighbours and the bounds of a fragment do not count. Filling a view is a pass over its blocks.

* `filterMap_walk`: what is picked out of a view comes from the views below it;
* `blocks_fill`, `state_fill`: what filling gives the blocks, and what it leaves of the state, are
  those of the pass `fillEach` over the blocks;
* `fill_related`: two ways of filling that agree on every block agree on the view.
-/

namespace ChatMarkup.View

variable {α β σ : Type}

theorem blocks_code (block : α) : (code block).blocks = [block] := rfl

/-- What is picked out of a view that is not picked itself comes from the views below it. -/
theorem filterMap_walk {γ : Type} {pick : View α → Option γ} {view : View α}
    (h : pick view = none) :
    view.walk.filterMap pick = view.children.flatMap fun child => child.walk.filterMap pick := by
  rw [walk_eq_cons, List.filterMap_cons_none h, List.filterMap_flatMap]

/-- Views among which nothing is in between have in them what they have with it. -/
theorem flatMap_intersperse {γ : Type} {inside : View α → List γ} {separator : View α}
    (h : inside separator = []) :
    ∀ views : List (View α), (views.intersperse separator).flatMap inside = views.flatMap inside
  | [] => rfl
  | [view] => rfl
  | first :: second :: views => by
    rw [List.intersperse_cons_cons, List.flatMap_cons, List.flatMap_cons, h, List.nil_append,
      flatMap_intersperse h (second :: views), ← List.flatMap_cons]

theorem blocks_wrapped (wrapper : Wrapper) (children : List (View α)) :
    (wrapped wrapper children).blocks = children.flatMap blocks :=
  filterMap_walk rfl

theorem blocks_link (href : String) (children : List (View α)) :
    (link href children).blocks = children.flatMap blocks :=
  filterMap_walk rfl

theorem blocks_button (node : Nat) (onclick : Option String) (label : List (View α)) :
    (button node onclick label).blocks = label.flatMap blocks :=
  filterMap_walk rfl

theorem blocks_panel (kind : Panel) (children : List (View α)) :
    (panel kind children).blocks = children.flatMap blocks :=
  filterMap_walk rfl

theorem blocks_fragment (children : List (View α)) :
    (fragment children).blocks = children.flatMap blocks :=
  filterMap_walk rfl

theorem blocks_parts (view : View α) : view.parts.flatMap blocks = view.blocks := by
  cases view with
  | fragment children => rw [parts, blocks_fragment]
  | _ => simp [parts]

/-! ## Filling -/

/-- Gives blocks from the first to the last, with a state that each one hands on. -/
def fillEach (f : σ → α → β × σ) (s : σ) : List α → List β × σ
  | [] => ([], s)
  | block :: rest =>
    let (filled, s) := f s block
    let (others, s) := fillEach f s rest
    (filled :: others, s)

theorem fillEach_append (f : σ → α → β × σ) (s : σ) (xs ys : List α) :
    fillEach f s (xs ++ ys) =
      ((fillEach f s xs).1 ++ (fillEach f (fillEach f s xs).2 ys).1,
        (fillEach f (fillEach f s xs).2 ys).2) := by
  induction xs generalizing s with
  | nil => rfl
  | cons x xs ih => simp [fillEach, ih]

theorem state_fillEach (f : σ → α → β × σ) (s : σ) (xs : List α) :
    (fillEach f s xs).2 = xs.foldl (fun s x => (f s x).2) s := by
  induction xs generalizing s with
  | nil => rfl
  | cons x xs ih => exact ih (f s x).2

/-- A pass that leaves each block what it was of the tree leaves all of them so. -/
theorem map_fillEach {γ : Type} (f : σ → α → β × σ) (g : β → γ) (h : α → γ)
    (hf : ∀ s x, g (f s x).1 = h x) (s : σ) (xs : List α) :
    (fillEach f s xs).1.map g = xs.map h := by
  induction xs generalizing s with
  | nil => rfl
  | cons x xs ih => simp [fillEach, hf, ih]

mutual

theorem fill_eq_fillEach (f : σ → α → β × σ) (s : σ) :
    ∀ view : View α, ((fill f s view).1.blocks, (fill f s view).2) = fillEach f s view.blocks
  | text _ | input .. | image .. | failure _ => rfl
  | code _ => rfl
  | wrapped wrapper children => by
    rw [fill, blocks_wrapped, blocks_wrapped]
    exact fillAll_eq_fillEach f s children
  | link href children => by
    rw [fill, blocks_link, blocks_link]
    exact fillAll_eq_fillEach f s children
  | button node onclick label => by
    rw [fill, blocks_button, blocks_button]
    exact fillAll_eq_fillEach f s label
  | panel kind children => by
    rw [fill, blocks_panel, blocks_panel]
    exact fillAll_eq_fillEach f s children
  | fragment children => by
    rw [fill, blocks_fragment, blocks_fragment]
    exact fillAll_eq_fillEach f s children

theorem fillAll_eq_fillEach (f : σ → α → β × σ) (s : σ) :
    ∀ views : List (View α),
      ((fillAll f s views).1.flatMap blocks, (fillAll f s views).2) =
        fillEach f s (views.flatMap blocks)
  | [] => rfl
  | view :: views => by
    have hfirst := fill_eq_fillEach f s view
    have hrest := fillAll_eq_fillEach f (fill f s view).2 views
    rw [fillAll, List.flatMap_cons, List.flatMap_cons, fillEach_append, ← hfirst, ← hrest]

end

theorem blocks_fill (f : σ → α → β × σ) (s : σ) (view : View α) :
    (fill f s view).1.blocks = (fillEach f s view.blocks).1 := by
  rw [← fill_eq_fillEach]

theorem state_fill (f : σ → α → β × σ) (s : σ) (view : View α) :
    (fill f s view).2 = (fillEach f s view.blocks).2 := by
  rw [← fill_eq_fillEach]

/-! ## Two ways of filling -/

section Related

variable {τ : Type} {f : σ → α → β × σ} {g : τ → α → β × τ} {R : σ → τ → Prop}

/-- Two ways to give a block give the same, and lead from states that are related to such. -/
def Related (f : σ → α → β × σ) (g : τ → α → β × τ) (R : σ → τ → Prop) : Prop :=
  ∀ s t block, R s t → (f s block).1 = (g t block).1 ∧ R (f s block).2 (g t block).2

mutual

theorem fill_related (h : Related f g R) :
    ∀ (view : View α) (s : σ) (t : τ), R s t →
      (fill f s view).1 = (fill g t view).1 ∧ R (fill f s view).2 (fill g t view).2
  | text _, s, t, hst | input .., s, t, hst | image .., s, t, hst | failure _, s, t, hst =>
    ⟨rfl, hst⟩
  | code block, s, t, hst => by
    obtain ⟨hblock, hnext⟩ := h s t block hst
    exact ⟨congrArg code hblock, hnext⟩
  | wrapped wrapper children, s, t, hst => by
    obtain ⟨hviews, hnext⟩ := fillAll_related h children s t hst
    exact ⟨congrArg (wrapped wrapper) hviews, hnext⟩
  | link href children, s, t, hst => by
    obtain ⟨hviews, hnext⟩ := fillAll_related h children s t hst
    exact ⟨congrArg (link href) hviews, hnext⟩
  | button node onclick label, s, t, hst => by
    obtain ⟨hviews, hnext⟩ := fillAll_related h label s t hst
    exact ⟨congrArg (button node onclick) hviews, hnext⟩
  | panel kind children, s, t, hst => by
    obtain ⟨hviews, hnext⟩ := fillAll_related h children s t hst
    exact ⟨congrArg (panel kind) hviews, hnext⟩
  | fragment children, s, t, hst => by
    obtain ⟨hviews, hnext⟩ := fillAll_related h children s t hst
    exact ⟨congrArg fragment hviews, hnext⟩

theorem fillAll_related (h : Related f g R) :
    ∀ (views : List (View α)) (s : σ) (t : τ), R s t →
      (fillAll f s views).1 = (fillAll g t views).1 ∧
        R (fillAll f s views).2 (fillAll g t views).2
  | [], s, t, hst => ⟨rfl, hst⟩
  | view :: views, s, t, hst => by
    obtain ⟨hview, hmiddle⟩ := fill_related h view s t hst
    obtain ⟨hviews, hnext⟩ := fillAll_related h views _ _ hmiddle
    refine ⟨?_, hnext⟩
    show _ :: _ = _ :: _
    rw [hview, hviews]

end

end Related

end ChatMarkup.View

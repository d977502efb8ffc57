import ChatMarkup.Proofs.View.Sketch

/-!
# Levels of a view

How many elements are nested in a view. A view that is sketched has no more levels than its tree,
and filling it adds none.

* `levels_of_isItem`: by induction over the items of the grammar;
* `levels_of_document`: the view of a document that was read has at most `maxDepth` levels.
-/

namespace ChatMarkup.View

open Source

variable {α β σ : Type}

mutual

/-- How many elements are nested in a view. The whole document counts as none, a code block as
one. -/
def levels : View α → Nat
  | text _ => 0
  | input .. | image .. | code _ => 1
  | failure _ => 2
  | wrapped wrapper children =>
    if wrapper = .document then levelsAll children else levelsAll children + 1
  | link _ children => levelsAll children + 1
  | button _ _ label => levelsAll label + 1
  | panel _ children => levelsAll children + 1
  | fragment children => levelsAll children

def levelsAll : List (View α) → Nat
  | [] => 0
  | view :: views => max (levels view) (levelsAll views)

end

theorem levelsAll_parts (view : View α) : levelsAll view.parts = levels view := by
  cases view with
  | fragment children => rw [parts, levels]
  | _ => simp [parts, levelsAll]

/-! ## Filling -/

mutual

theorem levels_fill (f : σ → α → β × σ) (s : σ) :
    ∀ view : View α, levels (fill f s view).1 = levels view
  | text _ | input .. | image .. | failure _ | code _ => by simp [fill, levels]
  | wrapped wrapper children => by simp [fill, levels, levelsAll_fillAll f s children]
  | link href children => by simp [fill, levels, levelsAll_fillAll f s children]
  | button node onclick label => by simp [fill, levels, levelsAll_fillAll f s label]
  | panel kind children => by simp [fill, levels, levelsAll_fillAll f s children]
  | fragment children => by simp [fill, levels, levelsAll_fillAll f s children]

theorem levelsAll_fillAll (f : σ → α → β × σ) (s : σ) :
    ∀ views : List (View α), levelsAll (fillAll f s views).1 = levelsAll views
  | [] => rfl
  | view :: views => by
    simp [fillAll, levelsAll, levels_fill f s view, levelsAll_fillAll f _ views]

end

/-! ## Sketching -/

/-- What a sketch shows, if it shows anything, has at most so many levels. -/
def Fits (room : Nat) (x : Sketching (View CodeSource)) : Prop :=
  ∀ view, x.result = .ok view → levels view ≤ room

def FitsAll (room : Nat) (x : Sketching (List (View CodeSource))) : Prop :=
  ∀ views, x.result = .ok views → levelsAll views ≤ room

theorem FitsAll.map {room more : Nat} {x : Sketching (List (View CodeSource))} (h : FitsAll room x)
    {f : List (View CodeSource) → View CodeSource}
    (hf : ∀ views, levelsAll views ≤ room → levels (f views) ≤ more) :
    Fits more (x >>= fun views => pure (f views)) := by
  intro view hview
  obtain ⟨views, hviews, hpure⟩ := result_bind_eq_ok hview
  cases hpure
  exact hf views (h views hviews)

theorem fits_pure {room : Nat} {view : View CodeSource} (h : levels view ≤ room) :
    Fits room (pure view) := by
  intro view' hview
  cases hview
  exact h

theorem fitsAll_items {room : Nat} {items : List Node} {tight : Bool}
    (h : ∀ item ∈ items, Fits room (sketchContent tight item)) :
    FitsAll room (sketchItems tight items) := by
  induction items with
  | nil =>
    intro views hviews
    rw [sketchItems] at hviews
    cases hviews
    exact Nat.zero_le _
  | cons item items ih =>
    rw [List.forall_mem_cons] at h
    intro views hviews
    rw [sketchItems] at hviews
    obtain ⟨-, -, hviews⟩ := result_bind_eq_ok hviews
    obtain ⟨first, hfirst, hviews⟩ := result_bind_eq_ok hviews
    obtain ⟨others, hothers, hpure⟩ := result_bind_eq_ok hviews
    cases hpure
    exact Nat.max_le.mpr ⟨h.1 first hfirst, ih h.2 others hothers⟩

theorem fitsAll_body {room : Nat} {body : Node} {tight : Bool}
    (h : Fits room (sketchContent tight body)) : FitsAll room (sketchBody tight (some body)) := by
  intro views hviews
  rw [sketchBody] at hviews
  obtain ⟨-, -, hviews⟩ := result_bind_eq_ok hviews
  obtain ⟨view, hview, hpure⟩ := result_bind_eq_ok hviews
  cases hpure
  rw [levelsAll_parts]
  exact h view hview

/-- The spaces between views have no levels. -/
theorem levelsAll_spaced : ∀ views : List (View CodeSource), levelsAll (spaced views) = levelsAll views
  | [] => rfl
  | [view] => rfl
  | first :: second :: views => by
    have hrest := levelsAll_spaced (second :: views)
    rw [spaced] at hrest ⊢
    rw [List.intersperse_cons_cons, levelsAll, levelsAll, levelsAll, hrest]
    simp [levels]

theorem fits_block {room : Nat} {items : List Node} {tight : Bool}
    (h : ∀ item ∈ items, Fits room (sketchContent tight item)) :
    Fits room (sketchContent tight (.block items)) := by
  rw [sketchContent]
  refine (fitsAll_items h).map fun views hviews => ?_
  rw [levels]
  split
  · exact hviews
  · rwa [levelsAll_spaced]

/-- What an element shows has at most one level more than what its body shows. -/
theorem fits_element {room : Nat} {tag : Tag} {id : Nat} {attributes : Option (List Attribute)}
    {body : Node} (hbody : ∀ tight, Fits room (sketchContent tight body)) (tight : Bool) :
    Fits (room + 1) (sketchContent tight (.element tag id attributes (some body))) := by
  cases tag with
  | button | link =>
    rw [sketchContent]
    exact (fitsAll_body (hbody _)).map fun views hviews => Nat.succ_le_succ hviews
  | input | image =>
    rw [sketchContent]
    exact fits_pure (Nat.succ_le_succ (Nat.zero_le room))
  | code =>
    rw [sketchContent]
    cases codeSource id attributes (some body) with
    | error e =>
      intro view hview
      cases hview
    | ok source =>
      intro view hview
      cases hview
      exact Nat.succ_le_succ (Nat.zero_le room)
  | custom name =>
    rw [sketchContent]
    cases Panel.ofName? name with
    | some kind =>
      exact (fitsAll_body (hbody _)).map fun views hviews => Nat.succ_le_succ hviews
    | none => exact fits_pure (Nat.zero_le _)
  | _ =>
    rw [sketchContent]
    · refine (fitsAll_body (hbody _)).map fun views hviews => ?_
      rw [levels]
      split <;> omega
    all_goals simp

theorem levels_of_isItem {room : Nat} {item : Node} (h : IsItem room item) :
    ∀ tight, Fits room (sketchContent tight item) := by
  induction h with
  | string | number =>
    intro tight
    rw [sketchContent]
    exact fits_pure (Nat.zero_le _)
  | braced _ _ _ ih =>
    exact fits_element fun tight => fits_block fun item hitem => ih item hitem tight
  | bare =>
    refine fits_element fun tight => ?_
    rw [sketchContent]
    exact fits_pure (Nat.zero_le _)

/-- The view of a document has as many levels as a document may have at most. -/
theorem levels_of_document {tree : Node} (h : IsDocument tree) : Fits maxDepth (sketch tree) := by
  obtain ⟨items, rfl, hitems⟩ := h
  have helements : Fits maxDepth (sketchContent false (.elements items)) := by
    rw [sketchContent]
    exact (fitsAll_items fun item hitem => levels_of_isItem (hitems item hitem) false).map
      fun views hviews => hviews
  intro view hview
  rw [sketch, Node.ofItems] at hview
  obtain ⟨-, -, hview⟩ := result_bind_eq_ok hview
  rw [sketchContent] at hview
  refine (fitsAll_body helements).map (fun views hviews => ?_) view hview
  rwa [levels, if_pos rfl]

end ChatMarkup.View

/-!
# Views

What a reader of a message sees: a tree of texts, wrappers, controls and code blocks.  A view is
made for any kind of code block, so that the same tree can be given its blocks in several ways.
-/

namespace ChatMarkup

/-- An element that only wraps what is in it. -/
inductive Wrapper where
  | document
  | heading (level : Fin 6)
  | paragraph
  | orderedList
  | unorderedList
  | listItem
  | bold
  | italic
  | inlineCode
  | preformatted
  | noSpace
deriving DecidableEq, Repr

/-- A part of an answer with a place of its own. -/
inductive Panel where
  | reason
  | answer
deriving DecidableEq, Repr

/-- A tree as it is shown, with code blocks of type `α`. -/
inductive View (α : Type) where
  | text (text : String)
  | wrapped (wrapper : Wrapper) (children : List (View α))
  | link (href : String) (children : List (View α))
  | button (node : Nat) (onclick : Option String) (label : List (View α))
  | input (node : Nat) (name : Option String) (value : String)
  | image (source alt : String)
  | code (block : α)
  | panel (panel : Panel) (children : List (View α))
  | fragment (children : List (View α))
  | failure (message : String)

namespace View

variable {α β σ : Type}

/-- A view of nothing. -/
def empty : View α := fragment []

/-- The parts of a fragment; any other view is one part. -/
def parts : View α → List (View α)
  | fragment children => children
  | view => [view]

/-- The views right below. -/
def children : View α → List (View α)
  | wrapped _ children => children
  | link _ children => children
  | button _ _ label => label
  | panel _ children => children
  | fragment children => children
  | _ => []

mutual

/-- Whether nothing is shown, not even an empty text. -/
def isEmpty : View α → Bool
  | fragment children => areEmpty children
  | _ => false

def areEmpty : List (View α) → Bool
  | [] => true
  | view :: views => isEmpty view && areEmpty views

end

mutual

/-- The view and all views below it, each before those below it. -/
def walk : View α → List (View α)
  | wrapped wrapper children => wrapped wrapper children :: walkAll children
  | link href children => link href children :: walkAll children
  | button node onclick label => button node onclick label :: walkAll label
  | panel kind children => panel kind children :: walkAll children
  | fragment children => fragment children :: walkAll children
  | view => [view]

def walkAll : List (View α) → List (View α)
  | [] => []
  | view :: views => walk view ++ walkAll views

end

theorem walkAll_eq_flatMap (views : List (View α)) : walkAll views = views.flatMap walk := by
  induction views with
  | nil => simp [walkAll]
  | cons view views ih => simp [walkAll, ih]

theorem walk_eq_cons (view : View α) : walk view = view :: view.children.flatMap walk := by
  cases view <;> simp [walk, children, walkAll_eq_flatMap]

/-- The text that is shown, without code and controls. -/
def shownText (view : View α) : String :=
  String.join (view.walk.filterMap fun
    | text value => some value
    | _ => none)

/-- The code blocks in the order in which they are shown. -/
def blocks (view : View α) : List α :=
  view.walk.filterMap fun
    | code block => some block
    | _ => none

/-- The buttons in the order in which they are shown, each with what a click runs. -/
def buttons (view : View α) : List (Nat × Option String) :=
  view.walk.filterMap fun
    | button node onclick _ => some (node, onclick)
    | _ => none

mutual

/-- Gives the view its blocks from the first to the last, with a state that each one hands on. -/
def fill (f : σ → α → β × σ) (s : σ) : View α → View β × σ
  | text value => (text value, s)
  | wrapped wrapper children =>
    let (children, s) := fillAll f s children
    (wrapped wrapper children, s)
  | link href children =>
    let (children, s) := fillAll f s children
    (link href children, s)
  | button node onclick label =>
    let (label, s) := fillAll f s label
    (button node onclick label, s)
  | input node name value => (input node name value, s)
  | image source alt => (image source alt, s)
  | code block =>
    let (block, s) := f s block
    (code block, s)
  | panel kind children =>
    let (children, s) := fillAll f s children
    (panel kind children, s)
  | fragment children =>
    let (children, s) := fillAll f s children
    (fragment children, s)
  | failure message => (failure message, s)

def fillAll (f : σ → α → β × σ) (s : σ) : List (View α) → List (View β) × σ
  | [] => ([], s)
  | view :: views =>
    let (view, s) := fill f s view
    let (views, s) := fillAll f s views
    (view :: views, s)

end

end View

end ChatMarkup

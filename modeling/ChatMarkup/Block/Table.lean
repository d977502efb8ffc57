import ChatMarkup.Block.Key

/-!
# Block tables

What is remembered about the code blocks of a message from one rendering to the next: which are
collapsed and which are busy.  A rendering is a pass over the table; passes are numbered, a row has
the number of the last pass that saw its block, and blocks that a pass does not see are forgotten at
its end.  The main statements are the equations of `row?` after each operation.
-/

namespace ChatMarkup

/-- What is remembered about a block. -/
structure BlockFlags where
  collapsed : Bool
  running : Bool
  copying : Bool
deriving DecidableEq, Repr

/-- What a block can be busy with. -/
inductive Activity where
  | running
  | copying
deriving DecidableEq, Repr

/-- The flags with one activity switched on or off. -/
def BlockFlags.setBusy (flags : BlockFlags) (activity : Activity) (busy : Bool) : BlockFlags :=
  match activity with
  | .running => { flags with running := busy }
  | .copying => { flags with copying := busy }

/-- The row of a block, with the number of the last pass that has seen it. -/
structure BlockRow where
  key : BlockKey
  flags : BlockFlags
  seenIn : Nat
deriving DecidableEq, Repr

/-- The rows of a message, the number of the pass that goes on, and the language and code of each
block met in it. -/
structure BlockTable where
  rows : List BlockRow
  pass : Nat
  met : List (String × String)
deriving DecidableEq, Repr

namespace BlockTable

def empty : BlockTable := ⟨[], 0, []⟩

/-- Starts a pass: no block is met yet, and none has been seen in it. -/
def beginPass (table : BlockTable) : BlockTable :=
  { table with pass := table.pass + 1, met := [] }

/-- Ends a pass: the rows of blocks not seen in it are dropped. -/
def finishPass (table : BlockTable) : BlockTable :=
  { table with rows := table.rows.filter fun row => row.seenIn = table.pass }

/-- The key of the next block of the pass. -/
def nextKey (table : BlockTable) (lang code : String) : BlockKey × BlockTable :=
  (⟨lang, code, table.met.count (lang, code)⟩, { table with met := (lang, code) :: table.met })

/-- The row of a block. -/
def row? (table : BlockTable) (key : BlockKey) : Option BlockRow :=
  table.rows.find? fun row => row.key = key

/-- The flags of a block. -/
def get? (table : BlockTable) (key : BlockKey) : Option BlockFlags :=
  (table.row? key).map BlockRow.flags

/-- Changes the flags of a block that has a row. -/
def modify (table : BlockTable) (key : BlockKey) (f : BlockFlags → BlockFlags) : BlockTable :=
  { table with
    rows := table.rows.map fun row =>
      if row.key = key then { row with flags := f row.flags } else row }

/-- Sees a block; one without a row gets one, collapsed or not, and is not busy. -/
def observe (table : BlockTable) (key : BlockKey) (collapsed : Bool) :
    BlockFlags × BlockTable :=
  match table.get? key with
  | some flags =>
    (flags, { table with
      rows := table.rows.map fun row =>
        if row.key = key then { row with seenIn := table.pass } else row })
  | none =>
    let flags : BlockFlags := ⟨collapsed, false, false⟩
    (flags, { table with rows := table.rows ++ [⟨key, flags, table.pass⟩] })

/-- Collapses a block or opens it, and says which; none for a block without a row. -/
def toggle (table : BlockTable) (key : BlockKey) : Option Bool × BlockTable :=
  ((table.get? key).map fun flags => !flags.collapsed,
    table.modify key fun flags => { flags with collapsed := !flags.collapsed })

/-- Switches an activity of a block on or off; the answer says whether the block has a row. -/
def setBusy (table : BlockTable) (key : BlockKey) (activity : Activity) (busy : Bool) :
    Bool × BlockTable :=
  ((table.get? key).isSome, table.modify key fun flags => flags.setBusy activity busy)

/-- The number of rows. -/
def size (table : BlockTable) : Nat :=
  table.rows.length

/-! ## Rows -/

theorem key_of_row? {table : BlockTable} {key : BlockKey} {row : BlockRow}
    (h : table.row? key = some row) : row.key = key := by
  simpa using List.find?_some h

/-- Changing rows under their keys changes what is found. -/
theorem row?_map (table : BlockTable) (key : BlockKey) {f : BlockRow → BlockRow}
    (hf : ∀ row, (f row).key = row.key) :
    ({ table with rows := table.rows.map f } : BlockTable).row? key = (table.row? key).map f := by
  have hkey : (fun row : BlockRow => decide (row.key = key)) ∘ f =
      fun row => decide (row.key = key) := by
    funext row
    simp [hf]
  rw [row?, row?, List.find?_map, hkey]

@[simp] theorem row?_beginPass (table : BlockTable) (key : BlockKey) :
    table.beginPass.row? key = table.row? key := rfl

theorem row?_modify (table : BlockTable) (key other : BlockKey) (f : BlockFlags → BlockFlags) :
    (table.modify key f).row? other =
      if other = key then (table.row? other).map fun row => { row with flags := f row.flags }
      else table.row? other := by
  have hmap := table.row?_map other
    (show ∀ row : BlockRow, (if row.key = key then { row with flags := f row.flags } else row).key =
      row.key from fun row => by split <;> rfl)
  rw [modify, hmap]
  cases h : table.row? other with
  | none => simp
  | some row =>
    have hrow := key_of_row? h
    by_cases hk : other = key
    · simp [hrow, hk]
    · simp [hrow, hk]

theorem row?_observe (table : BlockTable) (key other : BlockKey) (collapsed : Bool) :
    (table.observe key collapsed).2.row? other =
      if other = key then
        some ⟨key, (table.get? key).getD ⟨collapsed, false, false⟩, table.pass⟩
      else table.row? other := by
  cases hget : table.get? key with
  | some flags =>
    have hmap := table.row?_map other
      (show ∀ row : BlockRow, (if row.key = key then { row with seenIn := table.pass } else row).key =
        row.key from fun row => by split <;> rfl)
    obtain ⟨found, hfound, rfl⟩ := Option.map_eq_some_iff.mp hget
    simp only [observe, hget]
    rw [hmap]
    by_cases hk : other = key
    · subst hk
      have hkey := key_of_row? hfound
      rw [hfound, if_pos rfl, Option.map_some, if_pos hkey, hkey]
      rfl
    · cases hother : table.row? other with
      | none => simp [hk]
      | some row => simp [key_of_row? hother, hk]
  | none =>
    have hrow : table.row? key = none := Option.map_eq_none_iff.mp hget
    simp only [observe, hget]
    simp only [row?] at hrow ⊢
    rw [List.find?_append, List.find?_singleton]
    by_cases hk : other = key
    · subst hk
      simp [hrow]
    · simp [hk, Ne.symm hk]

/-! ## Flags -/

theorem get?_modify (table : BlockTable) (key other : BlockKey) (f : BlockFlags → BlockFlags) :
    (table.modify key f).get? other =
      if other = key then (table.get? other).map f else table.get? other := by
  rw [get?, get?, row?_modify]
  split
  · rw [Option.map_map, Option.map_map]
    rfl
  · rfl

end BlockTable

end ChatMarkup

import ChatMarkup.Chat.Session
import ChatMarkup.Proofs.Source.RoundTrip

/-!
# Revised messages

The trees that a chat writes back: those that were read, with file names stamped on their elements
and with other code in their blocks. A revision changes one element and leaves it an element of the
grammar, so that what is written for a revised tree is read back like any other document.

* `IsDocument.updateElement`: a change that keeps every element in the grammar keeps the document
  there;
* `Revised.read_write`: what is written for a revised tree is read as that tree, settled and
  numbered anew.
-/

namespace ChatMarkup

open Source

/-- A tree that was read, and then stamped or given other code any number of times. -/
inductive Revised : Node → Prop
  | read {source : String} {tree : Node} : Source.read source = .ok tree → Revised tree
  | stamp {tree stamped : Node} {id : Nat} {filename : String} : Revised tree →
      tree.stamp id filename = some stamped → Revised stamped
  | code {tree changed : Node} {id : Nat} {code : String} : Revised tree →
      Session.replaceCode? tree id code = some changed → Revised changed

namespace Source

/-- A change that leaves every element of the grammar in the grammar. -/
def Keeps (change : Element → Element) : Prop :=
  ∀ (room : Nat) (tag : Tag) (element : Element),
    IsItem room (.element tag element.id element.attributes element.body) →
      IsItem room (.element tag (change element).id (change element).attributes
        (change element).body)

theorem isName_filenameKey : IsName filenameKey :=
  isName_of_chars (by decide)

theorem isEntry_filename (filename : String) : IsEntry ⟨filenameKey, .string filename⟩ where
  key := isName_filenameKey
  value := .string filename

theorem keeps_withFilename (filename : String) :
    Keeps fun element => element.withFilename filename := by
  have hentries : ∀ {attributes : Option (List Attribute)}, AreEntries attributes →
      AreEntries (attributes.map fun attributes =>
        attributes ++ [⟨filenameKey, .string filename⟩]) := by
    intro attributes h
    cases attributes with
    | none => exact areEntries_none
    | some entries =>
      refine areEntries_some.mpr fun entry hentry => ?_
      rcases List.mem_append.mp hentry with hold | hnew
      · exact areEntries_some.mp h entry hold
      · rw [List.mem_singleton.mp hnew]
        exact isEntry_filename filename
  rintro room tag ⟨id, attributes, body⟩ h
  cases h with
  | braced htag hattributes hitems => exact .braced htag (hentries hattributes) hitems
  | bare htag hattributes hbare => exact .bare htag (hentries hattributes) hbare

theorem keeps_code (code : String) :
    Keeps fun element => { element with body := some (.block [.string code]) } := by
  have hitems : ∀ room, ∀ item ∈ [Node.string code], IsItem room item := by
    intro room item hitem
    rw [List.mem_singleton.mp hitem]
    exact .string code
  rintro room tag ⟨id, attributes, body⟩ h
  cases h with
  | braced htag hattributes _ => exact .braced htag hattributes (hitems _)
  | bare htag hattributes _ => exact .braced htag hattributes (hitems _)

/-! ## One element changed -/

/-- Changing the first element that is found among the items leaves items of the grammar, if that
holds of each item. -/
theorem isItem_of_updateAmong {room id : Nat} {change : Element → Element}
    {items changed : List Node} (hitems : ∀ item ∈ items, IsItem room item)
    (hone : ∀ item ∈ items, ∀ other, item.updateElement id change = some other → IsItem room other)
    (h : Node.updateAmong id change items = some changed) :
    ∀ item ∈ changed, IsItem room item := by
  induction items generalizing changed with
  | nil => cases h
  | cons item items ih =>
    rw [List.forall_mem_cons] at hitems hone
    rw [Node.updateAmong] at h
    split at h
    · rename_i other hother
      cases h
      exact List.forall_mem_cons.mpr ⟨hone.1 other hother, hitems.2⟩
    · obtain ⟨others, hothers, rfl⟩ := Option.map_eq_some_iff.mp h
      exact List.forall_mem_cons.mpr ⟨hitems.1, ih hitems.2 hone.2 hothers⟩

theorem IsItem.updateElement {room : Nat} {item : Node} (h : IsItem room item) {id : Nat}
    {change : Element → Element} (hchange : Keeps change) {changed : Node}
    (hchanged : item.updateElement id change = some changed) : IsItem room changed := by
  induction h generalizing changed with
  | string | number => simp [Node.updateElement] at hchanged
  | @braced room own tag attributes items htag hattributes hitems ih =>
    rw [Node.updateElement] at hchanged
    split at hchanged
    · cases hchanged
      exact hchange (room + 1) tag ⟨own, attributes, some (.block items)⟩
        (.braced htag hattributes hitems)
    · -- the element is somewhere in the body
      rw [Node.updateElement, Option.map_map] at hchanged
      obtain ⟨others, hothers, rfl⟩ := Option.map_eq_some_iff.mp hchanged
      exact .braced htag hattributes
        (isItem_of_updateAmong hitems (fun item hitem other => ih item hitem) hothers)
  | @bare room own tag attributes value htag hattributes hbare =>
    rw [Node.updateElement] at hchanged
    split at hchanged
    · cases hchanged
      exact hchange (room + 1) tag ⟨own, attributes, some (.string value)⟩
        (.bare htag hattributes hbare)
    · simp [Node.updateElement] at hchanged

theorem IsDocument.updateElement {tree : Node} (h : IsDocument tree) {id : Nat}
    {change : Element → Element} (hchange : Keeps change) {changed : Node}
    (hchanged : tree.updateElement id change = some changed) : IsDocument changed := by
  obtain ⟨items, rfl, hitems⟩ := h
  rw [Node.ofItems, Node.updateElement, Node.updateElement, Option.map_map] at hchanged
  obtain ⟨others, hothers, rfl⟩ := Option.map_eq_some_iff.mp hchanged
  exact ⟨others, rfl, isItem_of_updateAmong hitems
    (fun item hitem other => (hitems item hitem).updateElement hchange) hothers⟩

end Source

/-! ## Revisions -/

theorem Revised.isDocument {tree : Node} (h : Revised tree) : IsDocument tree := by
  induction h with
  | read hread => exact isDocument_of_read hread
  | stamp _ hstamp ih =>
    rw [Node.stamp] at hstamp
    split at hstamp
    · exact ih.updateElement (keeps_withFilename _) hstamp
    · cases hstamp
  | code _ hcode ih =>
    rw [Session.replaceCode?] at hcode
    split at hcode
    · exact ih.updateElement (keeps_code _) hcode
    · cases hcode

/-- The source written for a revised tree whose numbers are finite is read as that tree, settled
and numbered anew, and is written for what was read once more. -/
theorem Revised.read_write {tree : Node} (h : Revised tree)
    (hfinite : ∀ x ∈ tree.numbers, x.isFinite = true) {source : String}
    (hwrite : write tree = .ok source) :
    ∃ back, Source.read source = .ok back ∧ back.same tree.settled.renumbered = true ∧
      write back = .ok source :=
  h.isDocument.readsBack hfinite hwrite

/-- A document with a lone space that has got a file name and other code. -/
theorem read_write_of_stamped_code :
    ∃ tree back, Revised tree ∧
      write tree = .ok "p \x7b b`x` \x7d\ncode[width=2.5, filename=`a.py`] \x7b `y` \x7d" ∧
      Source.read "p \x7b b`x` \x7d\ncode[width=2.5, filename=`a.py`] \x7b `y` \x7d" = .ok back ∧
      back.same tree.settled.renumbered = true := by
  have hrun : ((Source.read "p \x7b ` ` b `x` \x7d code [width=2.5] \x7b `x` \x7d").toOption.bind fun tree =>
      (tree.stamp 2 "a.py").bind fun stamped => Session.replaceCode? stamped 2 "y").any
        (fun tree => (write tree).toOption =
          some "p \x7b b`x` \x7d\ncode[width=2.5, filename=`a.py`] \x7b `y` \x7d" &&
          tree.numbers.all Number.isFinite) = true := by
    decide +kernel
  simp only [Option.any_eq_true, Option.bind_eq_some_iff, Bool.and_eq_true, decide_eq_true_eq,
    List.all_eq_true] at hrun
  obtain ⟨tree, ⟨first, hread, stamped, hstamp, hcode⟩, hwrite, hfinite⟩ := hrun
  have hrevised : Revised tree := .code (.stamp (.read (eq_ok_of_toOption hread)) hstamp) hcode
  obtain ⟨back, hback, hsame, -⟩ :=
    Revised.read_write hrevised hfinite (eq_ok_of_toOption hwrite)
  exact ⟨tree, back, hrevised, eq_ok_of_toOption hwrite, hback, hsame⟩

end ChatMarkup

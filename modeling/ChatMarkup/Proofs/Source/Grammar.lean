import ChatMarkup.Proofs.Source.Token
import ChatMarkup.Proofs.Tree.Contents
import ChatMarkup.Source.Document

/-!
# The trees of the grammar

What a document can be made of: the values and attributes of its elements, and the items of its
bodies, each with the number of levels of elements that its nesting still leaves room for.

* `isDocument_of_read`: everything that is read is a document of the grammar.
-/

namespace ChatMarkup.Source

/-- A name that stands for itself as a value, and not for one of the two flags. -/
structure IsPlainName (name : String) : Prop where
  isName : IsName name
  ne_true : name ≠ "true"
  ne_false : name ≠ "false"

/-- A value of an attribute. -/
inductive IsValue : Node → Prop
  | string (value : String) : IsValue (.string value)
  | number (value : Number) : IsValue (.number value)
  | boolean (value : Bool) : IsValue (.boolean value)
  | name {name : String} : IsPlainName name → IsValue (.identifier name)
  | call {name : String} {call : List Char} : IsPlainName name → call.head? = some '(' →
      IsCall call → IsValue (.identifier (name ++ String.ofList call))

/-- An attribute of an element. -/
structure IsEntry (entry : Attribute) : Prop where
  key : IsName entry.key
  value : IsValue entry.value

/-- The attributes of an element, if it has a list of them. -/
def AreEntries (attributes : Option (List Attribute)) : Prop :=
  ∀ entries ∈ attributes, ∀ entry ∈ entries, IsEntry entry

/-- A tag that comes back when its name is read. -/
structure IsTag (tag : Tag) : Prop where
  isName : IsName tag.name
  ofName_name : Tag.ofName tag.name = tag

/-- An item of a body that leaves room for `room` levels of elements. -/
inductive IsItem : Nat → Node → Prop
  | string {room : Nat} (value : String) : IsItem room (.string value)
  | number {room : Nat} (value : Number) : IsItem room (.number value)
  | braced {room id : Nat} {tag : Tag} {attributes : Option (List Attribute)}
      {items : List Node} : IsTag tag → AreEntries attributes → (∀ item ∈ items, IsItem room item) →
      IsItem (room + 1) (.element tag id attributes (some (.block items)))
  | bare {room id : Nat} {tag : Tag} {attributes : Option (List Attribute)} {value : String} :
      IsTag tag → AreEntries attributes → tag.takesBareString = true →
      IsItem (room + 1) (.element tag id attributes (some (.string value)))

/-- A whole document. -/
def IsDocument (tree : Node) : Prop :=
  ∃ items, tree = .ofItems items ∧ ∀ item ∈ items, IsItem maxDepth item

theorem isTag_ofName {name : String} (h : IsName name) : IsTag (.ofName name) where
  isName := by rwa [Tag.name_ofName]
  ofName_name := by rw [Tag.name_ofName]

theorem areEntries_none : AreEntries none := by
  simp [AreEntries]

theorem areEntries_some {entries : List Attribute} :
    AreEntries (some entries) ↔ ∀ entry ∈ entries, IsEntry entry := by
  simp [AreEntries]

/-- All attributes in an item are those of the grammar. -/
theorem IsItem.areEntries {room : Nat} {item : Node} (h : IsItem room item) :
    ∀ node ∈ item.walk, AreEntries node.attributes? := by
  have hnone := areEntries_none
  induction h with
  | string | number =>
    intro node hnode
    rw [Node.walk] at hnode
    · rw [List.mem_singleton.mp hnode]
      exact hnone
    all_goals simp
  | @braced room id tag attributes items _ hattributes _ ih =>
    intro node hnode
    rw [Node.walk, Node.walk, List.mem_cons, List.mem_cons] at hnode
    rcases hnode with rfl | rfl | hnode
    · exact hattributes
    · exact hnone
    · rw [Node.walkAll_eq_flatMap] at hnode
      obtain ⟨item, hitem, hnode⟩ := List.mem_flatMap.mp hnode
      exact ih item hitem node hnode
  | @bare room id tag attributes value _ hattributes _ =>
    intro node hnode
    rw [Node.walk, Node.walk, List.mem_cons, List.mem_singleton] at hnode
    · rcases hnode with rfl | rfl
      · exact hattributes
      · exact hnone
    all_goals simp

theorem IsDocument.areEntries {tree : Node} (h : IsDocument tree) :
    ∀ node ∈ tree.walk, AreEntries node.attributes? := by
  obtain ⟨items, rfl, hitems⟩ := h
  intro node hnode
  rw [Node.ofItems, Node.walk, Node.walk, List.mem_cons, List.mem_cons] at hnode
  rcases hnode with rfl | rfl | hnode
  · exact areEntries_none
  · exact areEntries_none
  · rw [Node.walkAll_eq_flatMap] at hnode
    obtain ⟨item, hitem, hnode⟩ := List.mem_flatMap.mp hnode
    exact (hitems item hitem).areEntries node hnode

/-! ## What the readers of attributes answer -/

theorem isValue_of_readName {value : Node} {cs rest : List Char}
    (h : readName cs = .ok (value, rest)) : IsValue value := by
  rw [readName] at h
  split at h
  · cases h
  · rename_i name behind hread
    have hname := (readIdentifier_eq_ok hread).1
    split at h
    · cases h
      exact .boolean true
    · rename_i htrue
      split at h
      · cases h
        exact .boolean false
      · rename_i hfalse
        split at h
        · rename_i hopen
          obtain ⟨call, hcall, rfl⟩ := Reading.map_eq_ok h
          obtain ⟨hcall, hsplit⟩ := readCall_eq_ok hcall
          refine .call ⟨hname, htrue, hfalse⟩ ?_ hcall
          cases call with
          | nil => cases hcall
          | cons c call =>
            rw [hsplit] at hopen
            exact hopen
        · cases h
          exact .name ⟨hname, htrue, hfalse⟩

theorem isValue_of_readValue {value : Node} {cs rest : List Char}
    (h : readValue cs = .ok (value, rest)) : IsValue value := by
  cases cs with
  | nil => cases h
  | cons c cs =>
    rw [readValue] at h
    split at h
    · obtain ⟨text, -, rfl⟩ := Reading.map_eq_ok h
      exact .string text
    · obtain ⟨x, -, rfl⟩ := Reading.map_eq_ok h
      exact .number x
    · exact isValue_of_readName h
    · cases h

theorem isEntry_of_readAttribute {entry : Attribute} {cs rest : List Char}
    (h : readAttribute cs = .ok (entry, rest)) : IsEntry entry := by
  rw [readAttribute] at h
  split at h
  · cases h
  · rename_i key behind hkey
    split at h
    · cases h
    · obtain ⟨value, hvalue, rfl⟩ := Reading.map_eq_ok h
      exact ⟨(readIdentifier_eq_ok hkey).1, isValue_of_readValue hvalue⟩

theorem isEntry_of_readAttributesTail {acc entries : List Attribute} {cs rest : List Char}
    (h : readAttributesTail acc cs = .ok (entries, rest)) (hacc : ∀ entry ∈ acc, IsEntry entry) :
    ∀ entry ∈ entries, IsEntry entry := by
  fun_induction readAttributesTail acc cs with
  | case1 | case5 | case6 => cases h
  | case2 =>
    cases h
    simpa using hacc
  | case3 _ _ _ _ _ _ _ ih => exact ih h hacc
  | case4 _ _ _ _ _ _ _ _ _ _ hread ih =>
    refine ih h fun entry hentry => ?_
    rcases List.mem_cons.mp hentry with rfl | hentry
    · exact isEntry_of_readAttribute hread
    · exact hacc entry hentry

theorem isEntry_of_readAttributes {entries : List Attribute} {cs rest : List Char}
    (h : readAttributes cs = .ok (entries, rest)) : ∀ entry ∈ entries, IsEntry entry := by
  rw [readAttributes] at h
  split at h
  · cases h
  · exact isEntry_of_readAttributesTail h (by simp)

namespace Assembly

theorem areEntries_of_readAttributes? {attributes : Option (List Attribute)} {cs rest : List Char}
    (h : readAttributes? cs = .ok (attributes, rest)) : AreEntries attributes := by
  rw [readAttributes?] at h
  split at h
  · obtain ⟨entries, hread, rfl⟩ := Reading.map_eq_ok h
    exact areEntries_some.mpr (isEntry_of_readAttributes hread)
  · cases h
    exact areEntries_none

/-! ## What an assembly holds -/

/-- The open elements are elements of the grammar, and so is what was read before each of them. -/
inductive AreFrames : List Frame → Prop
  | nil : AreFrames []
  | cons {frame : Frame} {frames : List Frame} : IsTag frame.tag → AreEntries frame.attributes →
      frames.length < maxDepth →
      (∀ item ∈ frame.outer, IsItem (maxDepth - frames.length) item) → AreFrames frames →
      AreFrames (frame :: frames)

/-- All that was read so far is of the grammar. -/
structure IsWellFormed (a : Assembly) : Prop where
  items : ∀ item ∈ a.items, IsItem (maxDepth - a.frames.length) item
  frames : AreFrames a.frames

theorem isWellFormed_empty : empty.IsWellFormed where
  items := by simp [empty]
  frames := .nil

theorem IsWellFormed.push {a : Assembly} (ha : a.IsWellFormed) {item : Node}
    (hitem : IsItem (maxDepth - a.frames.length) item) : (a.push item).IsWellFormed where
  items := by
    simp only [Assembly.push, List.mem_cons, forall_eq_or_imp]
    exact ⟨hitem, ha.items⟩
  frames := ha.frames

/-- The body of an element is complete: the element is an item of the body around it. -/
theorem IsWellFormed.close {a : Assembly} {frame : Frame} {frames : List Frame}
    (ha : a.IsWellFormed) (hframes : a.frames = frame :: frames) :
    (a.close frame frames).IsWellFormed := by
  have hall := ha.frames
  rw [hframes] at hall
  cases hall with
  | cons htag hattributes hdepth houter hrest =>
    refine ⟨?_, hrest⟩
    simp only [Assembly.close, List.mem_cons, forall_eq_or_imp]
    refine ⟨?_, houter⟩
    have hroom : maxDepth - frames.length = maxDepth - a.frames.length + 1 := by
      rw [hframes, List.length_cons]
      omega
    rw [hroom]
    exact .braced htag hattributes fun item hitem => ha.items item (List.mem_reverse.mp hitem)

theorem IsWellFormed.readBody {a b : Assembly} {frame : Frame} {cs rest : List Char}
    (h : a.readBody frame cs = .ok (b, rest)) (ha : AreFrames (frame :: a.frames))
    (houter : frame.outer = a.items) : b.IsWellFormed := by
  cases ha with
  | cons htag hattributes hdepth hitems hframes =>
    cases cs with
    | nil => cases h
    | cons c cs =>
      rw [Assembly.readBody] at h
      split at h
      · split at h
        · cases h
        · cases h
          exact ⟨by simp, .cons htag hattributes hdepth hitems hframes⟩
      · split at h
        · rename_i hbare
          split at h
          · cases h
          · cases h
            refine ⟨?_, hframes⟩
            simp only [Assembly.push, List.mem_cons, forall_eq_or_imp]
            rw [houter] at hitems
            refine ⟨?_, hitems⟩
            obtain ⟨room, hroom⟩ := Nat.exists_eq_add_one_of_ne_zero (Nat.sub_ne_zero_of_lt hdepth)
            rw [hroom]
            simp only [Bool.and_eq_true] at hbare
            exact .bare htag hattributes hbare.2
        · cases h

theorem IsWellFormed.readElement {a b : Assembly} {cs rest : List Char} (ha : a.IsWellFormed)
    (h : a.readElement cs = .ok (b, rest)) : b.IsWellFormed := by
  rw [Assembly.readElement] at h
  split at h
  · cases h
  · rename_i hdepth
    split at h
    · cases h
    · rename_i hname
      split at h
      · cases h
      · rename_i hattributes
        exact IsWellFormed.readBody h
          (.cons (isTag_ofName (readIdentifier_eq_ok hname).1)
            (areEntries_of_readAttributes? hattributes) (Nat.not_le.mp hdepth) ha.items ha.frames)
          rfl

theorem IsWellFormed.readItem {a b : Assembly} {cs rest : List Char} (ha : a.IsWellFormed)
    (h : a.readItem cs = .ok (b, rest)) : b.IsWellFormed := by
  cases cs with
  | nil => cases h
  | cons c cs =>
    rw [Assembly.readItem] at h
    split at h
    · obtain ⟨text, -, rfl⟩ := Reading.map_eq_ok h
      exact ha.push (.string text)
    · obtain ⟨x, -, rfl⟩ := Reading.map_eq_ok h
      exact ha.push (.number x)
    · exact ha.readElement h
    · cases h

theorem IsWellFormed.step {a b : Assembly} {cs rest : List Char} (ha : a.IsWellFormed)
    (h : a.step cs = .ok (.next b rest)) : b.IsWellFormed := by
  rw [Assembly.step] at h
  split at h
  · split at h <;> cases h
  · split at h
    · split at h
      · cases h
      · rename_i hframes
        cases h
        exact ha.close hframes
    · split at h
      · cases h
      · rename_i hitem
        cases h
        exact ha.readItem hitem

/-- A document ends only where no element is open. -/
theorem step_eq_done {a : Assembly} {cs : List Char} {items : List Node}
    (h : a.step cs = .ok (.done items)) : a.frames = [] ∧ items = a.items.reverse := by
  rw [Assembly.step] at h
  split at h
  · split at h
    · rename_i hframes
      cases h
      exact ⟨hframes, rfl⟩
    · cases h
  · split at h
    · split at h <;> cases h
    · split at h <;> cases h

theorem IsWellFormed.run {a : Assembly} {cs : List Char} {items : List Node} (ha : a.IsWellFormed)
    (h : a.run cs = .ok items) : ∀ item ∈ items, IsItem maxDepth item := by
  fun_induction Assembly.run a cs with
  | case1 => cases h
  | case2 a cs items' hstep =>
    cases h
    obtain ⟨hframes, rfl⟩ := step_eq_done hstep
    intro item hitem
    have hitem := ha.items item (List.mem_reverse.mp hitem)
    rwa [hframes] at hitem
  | case3 _ _ _ _ hstep ih => exact ih (ha.step hstep) h

end Assembly

theorem eq_ok_of_toOption {ε α : Type} {result : Except ε α} {value : α}
    (h : result.toOption = some value) : result = .ok value := by
  cases result with
  | ok _ =>
    cases h
    rfl
  | error _ => cases h

/-- What is read depends on the characters only. To evaluate it for a long source, the characters are
better given: taking them one by one from the bytes takes most of the time. -/
theorem read_of_toList {source : String} {cs : List Char} (h : source.toList = cs) :
    read source =
      match Assembly.empty.run cs with
      | .ok items => .ok (.ofItems items)
      | .error e => .error (Stop.error cs e) := by
  rw [← h]
  rfl

theorem read_eq_ok {source : String} {tree : Node} (h : read source = .ok tree) :
    ∃ items, Assembly.empty.run source.toList = .ok items ∧ tree = .ofItems items := by
  rw [read] at h
  split at h
  · rename_i items hrun
    cases h
    exact ⟨items, hrun, rfl⟩
  · cases h

/-- Everything that is read is a document of the grammar. -/
theorem isDocument_of_read {source : String} {tree : Node} (h : read source = .ok tree) :
    IsDocument tree := by
  obtain ⟨items, hrun, rfl⟩ := read_eq_ok h
  exact ⟨items, rfl, Assembly.isWellFormed_empty.run hrun⟩

end ChatMarkup.Source

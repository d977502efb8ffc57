import ChatMarkup.Proofs.Source.Extension
import ChatMarkup.Proofs.Source.RoundTrip

/-!
# Source that spells items

Source spells items if reading goes over it as over the items, in any body and whatever comes
behind; where the body has no room for elements nested so deep, reading stops. Spellings can be put
one behind the other, with blanks between them, and in the braces of an element. The head of the
element need not be one that the writer makes: it is enough that it is read as one attribute list.

* `Spells.append`, `Spells.element`: the two ways of putting spellings together;
* `SpellsTrimmed`: spellings that blanks at the end do not belong to, closed in the same ways;
* `SpellsTrimmed.read_trim`: what is left of such source without the blanks at its ends is read as
  the document of the items, or refused if these are nested too deep.
-/

namespace ChatMarkup

namespace Node

theorem renumberAll_append (next : Nat) (xs ys : List Node) :
    renumberAll next (xs ++ ys) =
      ((renumberAll next xs).1 ++ (renumberAll (renumberAll next xs).2 ys).1,
        (renumberAll (renumberAll next xs).2 ys).2) := by
  induction xs generalizing next with
  | nil => simp [renumberAll]
  | cons x xs ih => simp [renumberAll, ih]

theorem renumbered_ofItems (items : List Node) :
    (ofItems items).renumbered = ofItems (renumberAll 0 items).1 := rfl

mutual

/-- How many elements are nested in a node of a tree. -/
def nesting : Node → Nat
  | elements items => nestingAll items
  | block items => nestingAll items
  | element _ _ _ none => 1
  | element _ _ _ (some body) => nesting body + 1
  | _ => 0

def nestingAll : List Node → Nat
  | [] => 0
  | node :: nodes => max (nesting node) (nestingAll nodes)

end

theorem nestingAll_append (xs ys : List Node) :
    nestingAll (xs ++ ys) = max (nestingAll xs) (nestingAll ys) := by
  induction xs with
  | nil => simp [nestingAll]
  | cons x xs ih => simp [nestingAll, ih, Nat.max_assoc]

@[simp]
theorem nestingAll_singleton (node : Node) : nestingAll [node] = node.nesting := by
  simp [nestingAll]

theorem nesting_element_block (tag : Tag) (id : Nat) (attributes : Option (List Attribute))
    (items : List Node) :
    nesting (.element tag id attributes (some (.block items))) = nestingAll items + 1 := by
  simp [nesting]

end Node

namespace Source

/-! ## Blanks at the end -/

theorem trimEnd_append (cs ds : List Char) :
    trimEnd (cs ++ ds) = if trimEnd ds = [] then trimEnd cs else cs ++ trimEnd ds := by
  simp only [trimEnd, List.reverse_append, List.dropWhile_append, List.reverse_eq_nil_iff,
    List.isEmpty_iff]
  split <;> simp

theorem trimEnd_of_last {cs : List Char} {c : Char} (hc : isBlank c = false) :
    trimEnd (cs ++ [c]) = cs ++ [c] := by
  simp [trimEnd, hc]

theorem trimEnd_blanks {blanks : List Char} (h : ∀ c ∈ blanks, isBlank c = true) :
    trimEnd blanks = [] := by
  have hall : ∀ c ∈ blanks.reverse, isBlank c = true := fun c hc => h c (List.mem_reverse.mp hc)
  rw [trimEnd, List.dropWhile_eq_nil_iff.mpr hall, List.reverse_nil]

theorem trimEnd_append_blanks (cs : List Char) :
    ∃ blanks, cs = trimEnd cs ++ blanks ∧ ∀ c ∈ blanks, isBlank c = true := by
  refine ⟨(cs.reverse.takeWhile isBlank).reverse, ?_, fun c hc => ?_⟩
  · rw [trimEnd, ← List.reverse_append, List.takeWhile_append_dropWhile, List.reverse_reverse]
  · exact List.mem_takeWhile_imp (List.mem_reverse.mp hc)

theorem trimStart_append_blanks (cs : List Char) :
    ∃ blanks, cs = blanks ++ trimStart cs ∧ ∀ c ∈ blanks, isBlank c = true :=
  ⟨cs.takeWhile isBlank, (List.takeWhile_append_dropWhile).symm,
    fun _ hc => List.mem_takeWhile_imp hc⟩

/-! ## Spellings -/

/-- An assembly with more items in its innermost body, their elements numbered. -/
def Assembly.pushAll (a : Assembly) (items : List Node) : Assembly where
  items := (Node.renumberAll a.nextId items).1.reverse ++ a.items
  frames := a.frames
  nextId := (Node.renumberAll a.nextId items).2

theorem Assembly.pushAll_append (a : Assembly) (xs ys : List Node) :
    a.pushAll (xs ++ ys) = (a.pushAll xs).pushAll ys := by
  simp [pushAll, Node.renumberAll_append]

/-- Reading goes over the source as over these items, whatever comes behind. It may only stop where
there is no room for elements nested so deep. -/
def Spells (cs : List Char) (items : List Node) : Prop :=
  ∀ (a : Assembly) (rest : List Char),
    a.run (cs ++ rest) = (a.pushAll items).run rest ∨
      maxDepth < Node.nestingAll items + a.frames.length ∧ ∃ e, a.run (cs ++ rest) = .error e

variable {cs ds : List Char} {xs ys : List Node}

theorem spells_nil : Spells [] [] :=
  fun _ _ => .inl rfl

theorem Spells.append (hx : Spells cs xs) (hy : Spells ds ys) : Spells (cs ++ ds) (xs ++ ys) := by
  intro a rest
  rw [List.append_assoc, Node.nestingAll_append]
  rcases hx a (ds ++ rest) with hrun | ⟨hdeep, hstop⟩
  · rw [hrun, Assembly.pushAll_append]
    rcases hy (a.pushAll xs) rest with hrun | ⟨hdeep, hstop⟩
    · exact .inl hrun
    · have hdeep' : maxDepth < Node.nestingAll ys + a.frames.length := hdeep
      exact .inr ⟨by omega, hstop⟩
  · exact .inr ⟨by omega, hstop⟩

theorem Assembly.run_blanks (a : Assembly) {blanks : List Char}
    (h : ∀ c ∈ blanks, isBlank c = true) (rest : List Char) :
    a.run (blanks ++ rest) = a.run rest :=
  a.run_congr (skipTrivia_blanks h rest)

theorem spells_blanks {blanks : List Char} (h : ∀ c ∈ blanks, isBlank c = true) :
    Spells blanks [] :=
  fun a rest => .inl (a.run_blanks h rest)

theorem spells_quote (value : String) : Spells (quote value).toList [.string value] :=
  fun a rest => .inl (a.run_quote value rest)

theorem spells_quoteCode (value : String) : Spells (quoteCode value).toList [.string value] :=
  fun a rest => .inl (a.run_quoteCode value rest)

/-! ## Elements -/

/-- What stands behind a tag is nothing, or one attribute list. -/
inductive IsHead : List Char → Option (List Attribute) → Prop
  | absent : IsHead [] none
  | list {cs : List Char} {entries : List Attribute} :
      readAttributes ('[' :: cs) = .ok (entries, []) → IsHead ('[' :: cs) (some entries)

theorem IsHead.isIdentifierChar {head : List Char} {attributes : Option (List Attribute)}
    (h : IsHead head attributes) (more : List Char) :
    ∀ c ∈ (head ++ ' ' :: more).head?, isIdentifierChar c = false := by
  intro c hc
  cases h <;> cases hc <;> decide

theorem IsHead.readAttributes? {head : List Char} {attributes : Option (List Attribute)}
    (h : IsHead head attributes) (more : List Char) :
    ∃ rest, Assembly.readAttributes? (skipTrivia (head ++ ' ' :: '{' :: more)) =
      .ok (attributes, rest) ∧ skipTrivia rest = '{' :: more := by
  have hopen : skipTrivia ('{' :: more) = '{' :: more := skipTrivia_token (by decide) (by decide)
  cases h with
  | absent =>
    refine ⟨'{' :: more, ?_, hopen⟩
    rw [List.nil_append, skipTrivia_blank _ (by decide), hopen]
    rfl
  | @list cs entries hread =>
    refine ⟨' ' :: '{' :: more, ?_, by rw [skipTrivia_blank _ (by decide), hopen]⟩
    have hread' := readAttributes_extend hread (' ' :: '{' :: more)
    rw [List.cons_append] at hread' ⊢
    rw [skipTrivia_token (by decide) (by decide), Assembly.readAttributes?, hread']
    rfl

/-- The body of an element is open. -/
def Assembly.enter (a : Assembly) (tag : Tag) (attributes : Option (List Attribute)) : Assembly :=
  ⟨[], ⟨tag, a.nextId, attributes, a.items⟩ :: a.frames, a.nextId + 1⟩

/-- Where a brace stands reading goes into the body. -/
theorem Assembly.run_enter {a : Assembly} {tag : Tag} (htag : IsTag tag)
    (hdepth : a.frames.length < maxDepth) {head rest more : List Char}
    (hends : ∀ c ∈ head.head?, isIdentifierChar c = false)
    {attributes : Option (List Attribute)}
    (hread : readAttributes? (skipTrivia head) = .ok (attributes, rest))
    (hskip : skipTrivia rest = '{' :: more) :
    a.run (tag.name.toList ++ head) = (a.enter tag attributes).run more := by
  rw [a.run_tag htag hdepth hends hread, hskip, readBody, if_pos rfl,
    expect_cons (by decide) (by decide)]
  rfl

/-- Out of its body the element is one more item. -/
theorem Assembly.run_leave (a : Assembly) (tag : Tag) (id : Nat)
    (attributes : Option (List Attribute)) (items : List Node) (rest : List Char) :
    ((a.enter tag attributes).pushAll items).run ('}' :: rest) =
      (a.pushAll [.element tag id attributes (some (.block items))]).run rest := by
  rw [run_close rfl]
  simp [enter, pushAll, close, Node.renumberAll, Node.renumber, Node.renumberBody]

/-- Reading stops at an element for which there is no room. -/
theorem Assembly.run_tooDeep {a : Assembly} (hdepth : maxDepth ≤ a.frames.length) {tag : Tag}
    (htag : IsTag tag) (more : List Char) : a.run (tag.name.toList ++ more) = .error .tooDeep := by
  rw [a.run_element htag.isName, readElement, if_pos hdepth]
  rfl

/-- The source of an element around the source of its body. -/
def elementText (name : List Char) (head body : List Char) : List Char :=
  name ++ (head ++ ' ' :: '{' :: (body ++ ['}']))

/-- The items of the body are spelled inside the braces, and the element is one level deeper. -/
theorem Spells.element (h : Spells cs xs) {tag : Tag} (htag : IsTag tag) {head : List Char}
    {attributes : Option (List Attribute)} (hhead : IsHead head attributes) :
    Spells (elementText tag.name.toList head cs)
      [.element tag 0 attributes (some (.block xs))] := by
  intro a rest
  have hsplit : elementText tag.name.toList head cs ++ rest =
      tag.name.toList ++ (head ++ ' ' :: '{' :: (cs ++ '}' :: rest)) := by
    simp [elementText]
  rw [hsplit, Node.nestingAll_singleton, Node.nesting_element_block]
  by_cases hdepth : a.frames.length < maxDepth
  · -- The body is read one level deeper, so that it stops only where the element would be too deep.
    obtain ⟨behind, hread, hskip⟩ := hhead.readAttributes? (cs ++ '}' :: rest)
    rw [Assembly.run_enter htag hdepth (hhead.isIdentifierChar _) hread hskip]
    rcases h (a.enter tag attributes) ('}' :: rest) with hrun | ⟨hdeep, hstop⟩
    · left
      rw [hrun, a.run_leave tag 0]
    · right
      have hframes : (a.enter tag attributes).frames.length = a.frames.length + 1 := rfl
      exact ⟨by omega, hstop⟩
  · -- The element itself has no room, whatever is in it.
    have hfull : maxDepth ≤ a.frames.length := Nat.le_of_not_lt hdepth
    exact .inr ⟨by omega, _, Assembly.run_tooDeep hfull htag _⟩

/-! ## Spellings without the blanks at their ends -/

/-- The source without the blanks at its end spells the items. -/
def SpellsTrimmed (cs : List Char) (items : List Node) : Prop :=
  Spells (trimEnd cs) items

theorem SpellsTrimmed.spells (h : SpellsTrimmed cs xs) : Spells cs xs := by
  obtain ⟨blanks, hcs, hblanks⟩ := trimEnd_append_blanks cs
  have hall := Spells.append h (spells_blanks hblanks)
  rwa [← hcs, List.append_nil] at hall

theorem SpellsTrimmed.append (hx : SpellsTrimmed cs xs) (hy : SpellsTrimmed ds ys) :
    SpellsTrimmed (cs ++ ds) (xs ++ ys) := by
  rw [SpellsTrimmed, trimEnd_append]
  split
  · rename_i hnil
    rw [SpellsTrimmed, hnil] at hy
    have hall := Spells.append hx hy
    rwa [List.append_nil] at hall
  · exact hx.spells.append hy

theorem spellsTrimmed_blanks {blanks : List Char} (h : ∀ c ∈ blanks, isBlank c = true) :
    SpellsTrimmed blanks [] := by
  rw [SpellsTrimmed, trimEnd_blanks h]
  exact spells_nil

theorem spellsTrimmed_nil : SpellsTrimmed [] [] :=
  spells_nil

/-- Source that ends in a character which is no blank has none at its end. -/
theorem Spells.trimmed {c : Char} (h : Spells (cs ++ [c]) xs) (hc : isBlank c = false) :
    SpellsTrimmed (cs ++ [c]) xs := by
  rwa [SpellsTrimmed, trimEnd_of_last hc]

theorem spellsTrimmed_quote (value : String) :
    SpellsTrimmed (quote value).toList [.string value] := by
  have h := spells_quote value
  rw [toList_quote, ← List.cons_append] at h ⊢
  exact h.trimmed (by decide)

theorem spellsTrimmed_quoteCode (value : String) :
    SpellsTrimmed (quoteCode value).toList [.string value] := by
  have h := spells_quoteCode value
  rw [toList_quoteCode, ← List.cons_append] at h ⊢
  exact h.trimmed (by decide)

theorem SpellsTrimmed.element (h : SpellsTrimmed cs xs) {tag : Tag} (htag : IsTag tag)
    {head : List Char} {attributes : Option (List Attribute)} (hhead : IsHead head attributes) :
    SpellsTrimmed (elementText tag.name.toList head cs)
      [.element tag 0 attributes (some (.block xs))] := by
  have hclosed := h.spells.element htag hhead
  have hsplit : elementText tag.name.toList head cs =
      (tag.name.toList ++ (head ++ ' ' :: '{' :: cs)) ++ ['}'] := by
    simp [elementText]
  rw [hsplit] at hclosed ⊢
  exact hclosed.trimmed (by decide)

/-! ## Documents -/

theorem toList_trim (text : String) : (trim text).toList = trimEnd (trimStart text.toList) := by
  simp [trim]

/-- A document whose source is gone over as over some items is read as that of these items. -/
theorem read_of_run {source : String} {items : List Node}
    (h : Assembly.empty.run source.toList = (Assembly.empty.pushAll items).run []) :
    read source = .ok (Node.ofItems items).renumbered := by
  rw [read, h, Assembly.run_end rfl]
  simp [Assembly.pushAll, Assembly.empty, Node.renumbered_ofItems]

/-- Source that spells items is read as their document, unless they are nested too deep. -/
theorem Spells.read {text : String} (h : Spells text.toList xs)
    (hdepth : Node.nestingAll xs ≤ maxDepth) :
    Source.read text = .ok (Node.ofItems xs).renumbered := by
  have hrun := h .empty []
  rw [List.append_nil] at hrun
  rcases hrun with hrun | ⟨hdeep, -⟩
  · exact read_of_run hrun
  · have hnone : Assembly.empty.frames.length = 0 := rfl
    omega

/-- Source that spells items is read as their document once the blanks at both its ends are gone.
It is refused only if the items are nested too deep. -/
theorem SpellsTrimmed.read_trim {text : String} (h : SpellsTrimmed text.toList xs) :
    read (trim text) = .ok (Node.ofItems xs).renumbered ∨
      maxDepth < Node.nestingAll xs ∧ ∃ e, read (trim text) = .error e := by
  obtain ⟨blanks, hsplit, hblanks⟩ := trimStart_append_blanks text.toList
  have hstart : Assembly.empty.run (trimEnd text.toList) =
      Assembly.empty.run (trimEnd (trimStart text.toList)) := by
    rw [hsplit, trimEnd_append, ← hsplit]
    split
    · rename_i hnil
      rw [hnil, trimEnd_blanks hblanks]
    · rw [Assembly.run_blanks _ hblanks]
  have hrun := h .empty []
  rw [List.append_nil, hstart, ← toList_trim] at hrun
  rcases hrun with hrun | ⟨hdeep, e, hstop⟩
  · exact .inl (read_of_run hrun)
  · right
    rw [read, hstop]
    exact ⟨hdeep, _, rfl⟩

end Source

end ChatMarkup

import ChatMarkup.Proofs.Html.AttributeList

/-!
# Attribute lists that stay as they are

An attribute list that came back from a page is kept as it is by everything after that: it is read
as attributes whose source it is, and a page does not change it any more.

* `IsKeptList.entriesOf`: the attributes in such a list have the list as their source;
* `isKeptList_codeAttributes`: the attributes of a code block are such a list once they were saved.
-/

namespace ChatMarkup.Html

open Source

/-- An attribute list that is written as its attributes are, with something in it and without line
ends and tabs. -/
structure IsKeptList (text : String) : Prop where
  written : ∃ entries : List Attribute, (∀ entry ∈ entries, IsEntry entry) ∧
    (∀ x ∈ Node.numbersOfEntries entries, x.isFinite = true) ∧ text = listText entries
  spaced : spacedValue text = text
  notBlank : isBlankText text = false

theorem isFinite_of_same {x y : Number} (h : x.same y = true) (hy : y.isFinite = true) :
    x.isFinite = true := by
  cases x <;> cases y <;> first | rfl | cases h | cases hy

/-- Values that are the same have finite numbers together. -/
theorem isFinite_of_sameValue {x y : Node} (hx : IsValue x) (h : Node.same x y = true)
    (hfinite : ∀ z ∈ y.numbers, z.isFinite = true) : ∀ z ∈ x.numbers, z.isFinite = true := by
  cases hx with
  | number value =>
    cases y with
    | number value' =>
      rw [Node.same] at h
      rw [Node.numbers, List.forall_mem_singleton] at hfinite ⊢
      exact isFinite_of_same h hfinite
    | _ => simp [Node.same] at h
  | _ => simp [Node.numbers]

theorem isFinite_of_sameAttributes {xs ys : List Attribute} (h : ∀ entry ∈ xs, IsEntry entry)
    (hsame : Node.sameAttributes xs ys = true)
    (hfinite : ∀ x ∈ Node.numbersOfEntries ys, x.isFinite = true) :
    ∀ x ∈ Node.numbersOfEntries xs, x.isFinite = true := by
  induction xs generalizing ys with
  | nil => nofun
  | cons x xs ih =>
    rw [List.forall_mem_cons] at h
    obtain ⟨key, value⟩ := x
    cases ys with
    | nil => simp [Node.sameAttributes] at hsame
    | cons y ys =>
      obtain ⟨key', value'⟩ := y
      simp only [Node.sameAttributes, Bool.and_eq_true] at hsame
      rw [Node.numbersOfEntries, List.forall_mem_append] at hfinite ⊢
      exact ⟨isFinite_of_sameValue h.1.value hsame.1.2 hfinite.1, ih h.2 hsame.2 hfinite.2⟩

/-- The attributes in a list that is kept. -/
theorem IsKeptList.entriesOf {text : String} (h : IsKeptList text) :
    (∀ entry ∈ entriesOf text, IsEntry entry) ∧ listText (Html.entriesOf text) = text ∧
      attributeSource (Html.entriesOf text) = .ok text := by
  obtain ⟨entries, hentries, hfinite, rfl⟩ := h.written
  obtain ⟨back, hread, hsame, htexts, hback⟩ := readAttributes_listText hentries hfinite
  have htext : listText back = listText entries := by rw [listText, htexts, listText]
  rw [entriesOf_eq hread]
  refine ⟨hback, htext, ?_⟩
  rw [attributeSource_eq hback (isFinite_of_sameAttributes hback hsame hfinite), htext]

theorem isKeptList_lang (lang : String) (h : spacedValue lang = lang) :
    IsKeptList ("lang=" ++ quote lang) := by
  have hlang : IsName "lang" := isName_of_chars (by decide)
  have htext : "lang=" ++ quote lang = entryText ⟨"lang", .string lang⟩ := rfl
  have hentry : IsEntry ⟨"lang", .string lang⟩ := ⟨hlang, .string lang⟩
  refine ⟨⟨[⟨"lang", .string lang⟩], ?_, ?_, ?_⟩, ?_, ?_⟩
  · exact List.forall_mem_singleton.mpr hentry
  · simp [Node.numbersOfEntries, Node.numbers]
  · rw [htext, listText, List.map_singleton, String.intercalate_singleton]
  · rw [htext, spacedValue_entryText hentry (by simp [Node.numbers]), spacedEntry, spacedNode, h]
  · simp [isBlankText, show isBlank 'l' = false by decide]

/-- The attributes of a code block are a list that is kept once they were saved. -/
theorem isKeptList_codeAttributes {id : Nat} {attributes : Option (List Attribute)}
    {body : Option Node} {source : CodeSource} (h : AreEntries attributes)
    (hfinite : ∀ x ∈ Node.numbersOfHead attributes, x.isFinite = true)
    (hsource : View.codeSource id attributes body = .ok source)
    {page : List (String × String)}
    (hpage : attribute? page "data-attr" = some (spacedValue source.attributes)) :
    IsKeptList (codeAttributes .default page) := by
  rw [codeAttributes, hpage]
  dsimp only
  split
  · exact isKeptList_lang "lugha" (by decide)
  · rename_i hblank
    obtain ⟨entries, -, htext, hentries, hnumbers⟩ := attributes_codeSource h hfinite hsource
    refine ⟨⟨entries.map spacedEntry, forall_isEntry_spaced hentries, ?_, ?_⟩, spacedValue_idem _,
      Bool.eq_false_iff.mpr hblank⟩
    · rwa [numbersOfEntries_spaced]
    · rw [htext, spacedValue_listText hentries hnumbers]

/-- A list that is kept is saved as it is. -/
theorem codeAttributes_of_isKeptList {text : String} (h : IsKeptList text)
    {page : List (String × String)} (hpage : attribute? page "data-attr" = some (spacedValue text)) :
    codeAttributes .default page = text := by
  rw [codeAttributes, hpage, h.spaced]
  exact if_neg (by rw [h.notBlank]; exact Bool.false_ne_true)

/-! ## Characters -/

theorem mem_listText {entries : List Attribute} {entry : Attribute} (h : entry ∈ entries) {c : Char}
    (hc : c ∈ (entryText entry).toList) : c ∈ (listText entries).toList := by
  induction entries with
  | nil => cases h
  | cons first entries ih =>
    rw [toList_listText_cons, List.mem_append]
    rcases List.mem_cons.mp h with rfl | hmem
    · exact .inl hc
    · have hne : entries ≠ [] := List.ne_nil_of_mem hmem
      rw [if_neg hne]
      exact .inr (List.mem_cons_of_mem _ (List.mem_cons_of_mem _ (ih hmem)))

/-- The text of a value is written with all its characters. -/
theorem mem_valueText {value : Node} (h : IsValue value) {scalar : Scalar}
    (hscalar : value.scalar? = some scalar) {c : Char} (hc : c ∈ scalar.text.toList) :
    c ∈ (valueText value).toList := by
  cases h with
  | string value =>
    cases hscalar
    rw [valueText, toList_quote]
    refine List.mem_cons_of_mem _ (List.mem_append_left _ ?_)
    refine List.mem_flatMap.mpr ⟨c, hc, ?_⟩
    unfold quoteChar
    split
    · simp_all
    · split <;> simp_all
  | boolean value =>
    cases hscalar
    cases value <;> exact hc
  | number | name | call =>
    cases hscalar
    exact hc

/-- A text among the attributes of a list is written in the list with all its characters. -/
theorem mem_of_attributeText {entries : List Attribute} (h : ∀ entry ∈ entries, IsEntry entry)
    {key text : String} (htext : View.attributeText? (some entries) key = some text) {c : Char}
    (hc : c ∈ text.toList) : c ∈ (listText entries).toList := by
  obtain ⟨scalar, hscalar, rfl⟩ := Option.map_eq_some_iff.mp htext
  rw [Option.bind_some, Attributes.scalar?_eq_findSome?] at hscalar
  obtain ⟨entry, hentry, hvalue⟩ := List.exists_of_findSome?_eq_some hscalar
  rw [List.mem_reverse] at hentry
  split at hvalue
  · refine mem_listText hentry ?_
    rw [entryText, String.toList_append, List.mem_append]
    exact .inr (mem_valueText (h entry hentry).value hvalue hc)
  · cases hvalue

end ChatMarkup.Html

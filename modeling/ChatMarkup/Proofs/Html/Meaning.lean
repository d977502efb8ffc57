import ChatMarkup.Html.Import
import ChatMarkup.Proofs.Source.Spelling

/-!
# What imported HTML means

The source that is made of an HTML tree spells the items that the tree stands for: texts, programs,
and the elements of the constructs that its markers name. An attribute list that a marked element
brings with it has to be one.

* `elementSource_of_construct`, `elementSource_of_none`: an element with a construct is spelled by its
  head and its content in braces, one without is spelled by its content;
* `spells_source`: what is imported spells what is meant, by induction over the tree;
* `nestingAll_meanings_le`: elements stand for no more than one level of elements each;
* `read_or_refuse_importNodes`: an imported tree is read as the document of what it means, or refused
  if that is nested too deep; `read_importNodes`, `eq_of_read_importNodes`: if it is not nested too
  deep, and if it is not refused.
-/

namespace ChatMarkup

namespace Html

open Source

/-! ## Constructs -/

/-- The constructs that elements with this name can stand for, if their marker says so. -/
def constructsOf (name : String) : List String :=
  match name.map Char.toLower with
  | "h1" | "h2" | "h3" | "h4" | "h5" | "h6" => headingNames
  | "p" => ["p"]
  | "strong" | "b" => ["b"]
  | "em" | "i" => ["i"]
  | "code" => ["c"]
  | "ul" => ["ul"]
  | "ol" => ["ol"]
  | "li" => ["li"]
  | "div" | "span" => ["reason", "answer", "code"]
  | _ => []

/-- The construct that an element stands for. An anchor is a link whatever its marker says. -/
def construct? (options : ImportOptions) (name : String) (attributes : List (String × String)) :
    Option String :=
  if name.map Char.toLower = "a" then if options.keepLinks then some "link" else none
  else if (constructsOf name).contains (marker attributes) then some (marker attributes) else none

/-- The attributes of a link. -/
def linkEntries (attributes : List (String × String)) : List Attribute :=
  ⟨"href", .string ((attribute? attributes "href").getD "")⟩ ::
    if marker attributes = "link" then []
    else (attribute? attributes "title").toList.map fun title => ⟨"title", .string title⟩

/-- Whether a text is an attribute list between its brackets. -/
def IsAttributeList (text : String) : Prop :=
  ∃ entries, Source.readAttributes ('[' :: (text.toList ++ [']'])) = .ok (entries, [])

/-- The attributes in an attribute list without its brackets. -/
def entriesOf (text : String) : List Attribute :=
  match Source.readAttributes ('[' :: (text.toList ++ [']'])) with
  | .ok (entries, []) => entries
  | _ => []

/-- The attributes of a construct. -/
def constructAttributes (options : ImportOptions) (name : String)
    (attributes : List (String × String)) : Option (List Attribute) :=
  if name.map Char.toLower = "a" then some (linkEntries attributes)
  else if isCodeContainer name attributes then some (entriesOf (codeAttributes options attributes))
  else none

/-- The attributes of a construct as they are written behind its name. -/
def constructHead (options : ImportOptions) (name : String)
    (attributes : List (String × String)) : List Char :=
  if name.map Char.toLower = "a" then
    '[' :: ((String.intercalate ", " ((linkEntries attributes).map entryText)).toList ++ [']'])
  else if isCodeContainer name attributes then
    '[' :: ((codeAttributes options attributes).toList ++ [']'])
  else []

/-! ## What a tree means -/

/-- A text as it is kept; nothing if no more than a space is left of it. -/
def keptText (options : ImportOptions) (value : String) : String :=
  let text := if options.keepBlanks then value else String.ofList (foldBlanks value.toList)
  if text = " " then "" else text

mutual

/-- All texts in a node. -/
def plainText : Html → String
  | .text value => value
  | .element _ _ children => plainTexts children
  | .aside => ""

def plainTexts : List Html → String
  | [] => ""
  | node :: nodes => plainText node ++ plainTexts nodes

end

/-- The program in the frame of a code block: the texts in its code elements. -/
def programText : List Html → String
  | [] => ""
  | .element name _ children :: nodes =>
    (if name.map Char.toLower = "code" then plainTexts children else "") ++ programText nodes
  | _ :: nodes => programText nodes

mutual

/-- The items that a node stands for, their elements without numbers. -/
def meaning (options : ImportOptions) : Html → List Node
  | .text value =>
    if keptText options value = "" then [] else [.string (keptText options value)]
  | .element name attributes children =>
    if name.map Char.toLower = "pre" ∧ isCodeText attributes then [.string (programText children)]
    else if name.map Char.toLower = "br" then []
    else
      let items := meanings options (isCodeContainer name attributes) children
      match construct? options name attributes with
      | none => items
      | some tag =>
        [.element (.ofName tag) 0 (constructAttributes options name attributes)
          (some (.block items))]
  | .aside => []

/-- The items that nodes stand for; parts of a frame may be left out. -/
def meanings (options : ImportOptions) (dropFrame : Bool) : List Html → List Node
  | [] => []
  | node :: nodes =>
    if dropFrame && isFrame node then meanings options dropFrame nodes
    else meaning options node ++ meanings options dropFrame nodes

end

mutual

/-- How many elements are nested in a node. -/
def depth : Html → Nat
  | .text _ => 0
  | .element _ _ children => depths children + 1
  | .aside => 0

def depths : List Html → Nat
  | [] => 0
  | node :: nodes => max (depth node) (depths nodes)

end

mutual

/-- The attribute lists that the frames of code blocks bring with them. -/
def broughtLists : Html → List String
  | .text _ => []
  | .element name attributes children =>
    (if isCodeContainer name attributes then (attribute? attributes "data-attr").toList else []) ++
      broughtListsOfAll children
  | .aside => []

def broughtListsOfAll : List Html → List String
  | [] => []
  | node :: nodes => broughtLists node ++ broughtListsOfAll nodes

end

mutual

/-- The attribute lists that an import looks at: those brought by frames that are not in a program. -/
def usedLists : Html → List String
  | .text _ => []
  | .element name attributes children =>
    if name.map Char.toLower = "pre" ∧ isCodeText attributes then []
    else
      (if isCodeContainer name attributes then (attribute? attributes "data-attr").toList else []) ++
        usedListsOfAll children
  | .aside => []

def usedListsOfAll : List Html → List String
  | [] => []
  | node :: nodes => usedLists node ++ usedListsOfAll nodes

end

mutual

/-- The elements that an import walks, in their order: not those in a program, in a line break, or
in a part of the frame of a code block. -/
def walked : Html → List (String × List (String × String))
  | .text _ => []
  | .element name attributes children =>
    (name, attributes) ::
      if (name.map Char.toLower = "pre" ∧ isCodeText attributes) ∨ name.map Char.toLower = "br"
      then []
      else walkedAll (isCodeContainer name attributes) children
  | .aside => []

/-- The elements among nodes that an import walks; parts of a frame may be left out. -/
def walkedAll (dropFrame : Bool) : List Html → List (String × List (String × String))
  | [] => []
  | node :: nodes =>
    if dropFrame && isFrame node then walkedAll dropFrame nodes
    else walked node ++ walkedAll dropFrame nodes

end

/-! ## Texts -/

theorem textSource_eq (options : ImportOptions) (value : String) :
    textSource options value =
      if keptText options value = "" then "" else Source.quote (keptText options value) := by
  have hsplit : ∀ text : String, (if text = "" ∨ text = " " then "" else Source.quote text) =
      if (if text = " " then "" else text) = "" then ""
      else Source.quote (if text = " " then "" else text) := by
    intro text
    by_cases hspace : text = " " <;> simp [hspace]
  exact hsplit _

/-- What two steps give if both succeed. -/
theorem bind_eq_ok {ε α β : Type} {x : Except ε α} {f : α → Except ε β} {b : β}
    (h : (x >>= f) = .ok b) : ∃ a, x = .ok a ∧ f a = .ok b := by
  cases x with
  | error e => cases h
  | ok a => exact ⟨a, rfl, h⟩

mutual

theorem plainText_of_colouredText {text : String} :
    ∀ node : Html, colouredText node = .ok text → text = plainText node
  | .text value, h => by
    cases h
    rfl
  | .element name attributes children, h => by
    rw [colouredText] at h
    split at h
    · exact plainTexts_of_colouredTexts children h
    · cases h
  | .aside, h => by
    cases h
    rfl

theorem plainTexts_of_colouredTexts {text : String} :
    ∀ nodes : List Html, colouredTexts nodes = .ok text → text = plainTexts nodes
  | [], h => by
    cases h
    rfl
  | node :: nodes, h => by
    obtain ⟨first, hfirst, h⟩ := bind_eq_ok h
    obtain ⟨others, hothers, h⟩ := bind_eq_ok h
    cases h
    rw [plainTexts, plainText_of_colouredText node hfirst,
      plainTexts_of_colouredTexts nodes hothers]

end

theorem programText_of_codeText {nodes : List Html} {text : String} (h : codeText nodes = .ok text) :
    text = programText nodes := by
  induction nodes generalizing text with
  | nil =>
    cases h
    rfl
  | cons node nodes ih =>
    cases node with
    | text value => exact ih h
    | aside => exact ih h
    | element name attributes children =>
      rw [codeText] at h
      rw [programText]
      split at h
      · rename_i hcode
        obtain ⟨first, hfirst, h⟩ := bind_eq_ok h
        obtain ⟨others, hothers, h⟩ := bind_eq_ok h
        cases h
        rw [if_pos hcode, ih hothers, plainTexts_of_colouredTexts children hfirst]
      · rename_i hcode
        obtain ⟨first, hfirst, h⟩ := bind_eq_ok h
        obtain ⟨others, hothers, h⟩ := bind_eq_ok h
        cases hfirst
        cases h
        rw [if_neg hcode, ih hothers]

/-! ## Heads -/

theorem isTag_of_construct? {options : ImportOptions} {name tag : String}
    {attributes : List (String × String)} (h : construct? options name attributes = some tag) :
    IsTag (.ofName tag) := by
  refine isTag_ofName (isName_of_chars ?_)
  have hnames : ∀ tag ∈ headingNames, (tag.toList.head?.any isIdentifierStart &&
      tag.toList.tail.all isIdentifierChar) = true := by
    decide
  have hothers : ∀ tag ∈ ["link", "p", "b", "i", "c", "ul", "ol", "li", "reason", "answer", "code"],
      (tag.toList.head?.any isIdentifierStart && tag.toList.tail.all isIdentifierChar) = true := by
    decide
  rw [construct?] at h
  split at h
  · split at h <;> cases h
    exact hothers _ (by simp)
  · split at h
    · rename_i hmarked
      cases h
      have hmem := List.contains_iff_mem.mp hmarked
      generalize marker attributes = tag at hmem
      unfold constructsOf at hmem
      split at hmem
      case h_1 | h_2 | h_3 | h_4 | h_5 | h_6 => exact hnames tag hmem
      all_goals
        simp only [List.mem_cons, List.not_mem_nil, or_false] at hmem
      all_goals exact hothers tag (by simp [hmem])
    · cases h

/-- Attributes with nothing but strings are the same only as themselves. -/
theorem eq_of_sameAttributes {xs ys : List Attribute} (h : Node.sameAttributes xs ys = true)
    (hys : ∀ y ∈ ys, ∃ value, y.value = .string value) : xs = ys := by
  induction ys generalizing xs with
  | nil =>
    cases xs with
    | nil => rfl
    | cons x xs => simp [Node.sameAttributes] at h
  | cons y ys ih =>
    rw [List.forall_mem_cons] at hys
    obtain ⟨value, hvalue⟩ := hys.1
    obtain ⟨key, _⟩ := y
    cases hvalue
    cases xs with
    | nil => simp [Node.sameAttributes] at h
    | cons x xs =>
      obtain ⟨key', value'⟩ := x
      simp only [Node.sameAttributes, Bool.and_eq_true, decide_eq_true_eq] at h
      obtain ⟨⟨rfl, hsame⟩, hrest⟩ := h
      rw [ih hrest hys.2]
      cases value' <;> simp [Node.same] at hsame
      rw [hsame]

/-- Strings under names are written as an attribute list that is read as them. -/
theorem readAttributes_strings {entries : List Attribute}
    (h : ∀ entry ∈ entries, IsName entry.key ∧ ∃ value, entry.value = .string value) :
    Source.readAttributes
        ('[' :: ((String.intercalate ", " (entries.map entryText)).toList ++ [']'])) =
      .ok (entries, []) := by
  have hentries : ∀ entry ∈ entries, IsEntry entry := by
    intro entry hentry
    obtain ⟨hkey, value, hvalue⟩ := h entry hentry
    exact ⟨hkey, hvalue ▸ .string value⟩
  have hfinite : ∀ x ∈ Node.numbersOfEntries entries, x.isFinite = true := by
    have hnone : Node.numbersOfEntries entries = [] := by
      clear hentries
      induction entries with
      | nil => rfl
      | cons entry entries ih =>
        rw [List.forall_mem_cons] at h
        obtain ⟨⟨-, value, hvalue⟩, hrest⟩ := h
        obtain ⟨key, _⟩ := entry
        cases hvalue
        rw [Node.numbersOfEntries, ih hrest]
        rfl
    simp [hnone]
  obtain ⟨back, hread, hsame, -⟩ := readAttributes_entries hentries hfinite []
  have hback := eq_of_sameAttributes hsame fun entry hentry => (h entry hentry).2
  rw [hread, hback]

theorem readAttributes_linkEntries (attributes : List (String × String)) :
    Source.readAttributes
        ('[' :: ((String.intercalate ", " ((linkEntries attributes).map entryText)).toList ++
          [']'])) = .ok (linkEntries attributes, []) := by
  refine readAttributes_strings fun entry hentry => ?_
  have hhref : IsName "href" := isName_of_chars (by decide)
  have htitle : IsName "title" := isName_of_chars (by decide)
  rcases List.mem_cons.mp hentry with rfl | hentry
  · exact ⟨hhref, _, rfl⟩
  · split at hentry
    · cases hentry
    · obtain ⟨title, -, rfl⟩ := List.mem_map.mp hentry
      exact ⟨htitle, _, rfl⟩

theorem entriesOf_eq {text : String} {entries : List Attribute}
    (h : Source.readAttributes ('[' :: (text.toList ++ [']'])) = .ok (entries, [])) :
    entriesOf text = entries := by
  rw [entriesOf, h]

/-- The attributes that a code block is given if it has lost its own. -/
theorem readAttributes_lang (lang : String) :
    Source.readAttributes ('[' :: (("lang=" ++ Source.quote lang).toList ++ [']'])) =
      .ok ([⟨"lang", .string lang⟩], []) := by
  have hlang : IsName "lang" := isName_of_chars (by decide)
  have hentries : ∀ entry ∈ [(⟨"lang", .string lang⟩ : Attribute)],
      IsName entry.key ∧ ∃ value, entry.value = .string value := by
    intro entry hentry
    rw [List.mem_singleton.mp hentry]
    exact ⟨hlang, _, rfl⟩
  have htext : "lang=" ++ Source.quote lang =
      String.intercalate ", " ([(⟨"lang", .string lang⟩ : Attribute)].map entryText) := by
    rw [List.map_singleton, String.intercalate_singleton]
    rfl
  rw [htext]
  exact readAttributes_strings hentries

/-- An attribute list that is brought is left out or is one. -/
def IsBrought (text : String) : Prop :=
  isBlankText text = true ∨ IsAttributeList text

/-- An element that is the frame of a code block brings an attribute list that is left out or is one,
if it brings any. -/
def BringsList (element : String × List (String × String)) : Prop :=
  isCodeContainer element.1 element.2 = true →
    ∀ text, attribute? element.2 "data-attr" = some text → IsBrought text

theorem readAttributes_codeAttributes {options : ImportOptions}
    {attributes : List (String × String)}
    (h : ∀ text, attribute? attributes "data-attr" = some text → IsBrought text) :
    Source.readAttributes ('[' :: ((codeAttributes options attributes).toList ++ [']'])) =
      .ok (entriesOf (codeAttributes options attributes), []) := by
  have hlang := readAttributes_lang options.codeLang
  have hgiven : IsAttributeList (codeAttributes options attributes) := by
    rw [codeAttributes]
    split
    · rename_i text htext
      split
      · exact ⟨_, hlang⟩
      · rename_i hblank
        exact (h text htext).resolve_left hblank
    · exact ⟨_, hlang⟩
  obtain ⟨entries, hread⟩ := hgiven
  rw [entriesOf_eq hread, hread]

/-- The head of a construct is read as its attributes. -/
theorem isHead_constructHead (options : ImportOptions) {name : String}
    {attributes : List (String × String)} (h : BringsList (name, attributes)) :
    IsHead (constructHead options name attributes) (constructAttributes options name attributes) := by
  rw [constructHead, constructAttributes]
  split
  · exact .list (readAttributes_linkEntries attributes)
  · split
    · rename_i hcode
      exact .list (readAttributes_codeAttributes (h hcode))
    · exact .absent

/-! ## Elements -/

/-- The blanks between the braces of a construct and its content. -/
def gapOf (tag : String) : List Char :=
  if ["ul", "ol", "reason", "answer", "code"].contains tag then ['\n'] else [' ']

/-- The blanks behind a construct. -/
def trailOf (tag : String) : List Char :=
  if headingNames.contains tag || ["p", "reason", "answer"].contains tag then ['\n'] else []

theorem toList_linkSource (attributes : List (String × String)) (content : String) :
    (linkSource attributes content).toList =
      elementText "link".toList
        ('[' :: ((String.intercalate ", " ((linkEntries attributes).map entryText)).toList ++ [']']))
        (' ' :: (content.toList ++ [' '])) := by
  rw [linkSource, linkEntries]
  cases attribute? attributes "title" with
  | none => simp [inlineSource, elementText, entryText, valueText]
  | some title =>
    by_cases hmarker : marker attributes = "link"
    · simp [hmarker, inlineSource, elementText, entryText, valueText]
    · simp [hmarker, inlineSource, elementText, entryText, valueText, String.intercalate_cons_cons]

/-- An element that is marked as a construct for which it can stand. -/
theorem elementSource_marked {options : ImportOptions} {name tag : String}
    {attributes : List (String × String)} (hlink : name.map Char.toLower ≠ "a")
    (htag : tag ∈ constructsOf name) (hmarker : marker attributes = tag) (content : String) :
    (elementSource options name attributes content).toList =
      elementText tag.toList (constructHead options name attributes)
        (gapOf tag ++ (content.toList ++ gapOf tag)) ++ trailOf tag := by
  have hall : ∀ tag ∈ constructsOf name, marker attributes = tag →
      (elementSource options name attributes content).toList =
        elementText tag.toList (constructHead options name attributes)
          (gapOf tag ++ (content.toList ++ gapOf tag)) ++ trailOf tag := by
    unfold constructsOf
    split <;> rename_i hname <;>
      simp +contextual [headingNames, elementSource, hname, constructHead, isCodeContainer,
        ifMarked, inlineSource, blockSource, elementText, gapOf, trailOf]
  exact hall tag htag hmarker

theorem elementSource_of_construct {options : ImportOptions} {name tag : String}
    {attributes : List (String × String)} (h : construct? options name attributes = some tag)
    (content : String) :
    (elementSource options name attributes content).toList =
      elementText tag.toList (constructHead options name attributes)
        (gapOf tag ++ (content.toList ++ gapOf tag)) ++ trailOf tag := by
  rw [construct?] at h
  split at h
  · rename_i hname
    split at h
    · rename_i hlinks
      cases h
      simp [elementSource, hname, hlinks, constructHead, toList_linkSource, gapOf, trailOf,
        headingNames]
    · cases h
  · rename_i hlink
    split at h
    · rename_i hmarked
      cases h
      exact elementSource_marked hlink (List.contains_iff_mem.mp hmarked) rfl content
    · cases h

theorem elementSource_of_none {options : ImportOptions} {name : String}
    {attributes : List (String × String)} (h : construct? options name attributes = none)
    (content : String) :
    (elementSource options name attributes content).toList =
      content.toList ++ if name.map Char.toLower = "p" then ['\n', '\n'] else [] := by
  rw [construct?, constructsOf] at h
  unfold elementSource
  split <;> simp_all [ifMarked]

/-! ## Nodes -/

theorem spells_text (options : ImportOptions) (value : String) :
    SpellsTrimmed (textSource options value).toList (meaning options (.text value)) := by
  rw [textSource_eq, meaning]
  split
  · exact spellsTrimmed_nil
  · exact spellsTrimmed_quote _

/-- An element spells its items, or the element of its construct around them. -/
theorem spells_element {options : ImportOptions} {name content : String}
    {attributes : List (String × String)} {items : List Node}
    (hbrings : BringsList (name, attributes)) (h : SpellsTrimmed content.toList items) :
    SpellsTrimmed (elementSource options name attributes content).toList
      (match construct? options name attributes with
      | none => items
      | some tag =>
        [.element (.ofName tag) 0 (constructAttributes options name attributes)
          (some (.block items))]) := by
  cases hconstruct : construct? options name attributes with
  | none =>
    rw [elementSource_of_none hconstruct]
    have htrail : SpellsTrimmed (if name.map Char.toLower = "p" then ['\n', '\n'] else []) [] := by
      split
      · exact spellsTrimmed_blanks (by decide)
      · exact spellsTrimmed_nil
    have hall := h.append htrail
    rwa [List.append_nil] at hall
  | some tag =>
    have hgap : SpellsTrimmed (gapOf tag) [] := by
      refine spellsTrimmed_blanks ?_
      unfold gapOf
      split <;> decide
    have htrail : SpellsTrimmed (trailOf tag) [] := by
      refine spellsTrimmed_blanks ?_
      unfold trailOf
      split <;> decide
    have hbody := hgap.append (h.append hgap)
    have hall := (hbody.element (isTag_of_construct? hconstruct)
      (isHead_constructHead options hbrings)).append htrail
    rw [Tag.name_ofName, List.append_nil, List.nil_append, List.append_nil] at hall
    rw [elementSource_of_construct hconstruct]
    exact hall

theorem toList_intercalate_cons (first : String) (others : List String) :
    (String.intercalate "\n" (first :: others)).toList =
      first.toList ++ ((if others = [] then [] else ['\n']) ++
        (String.intercalate "\n" others).toList) := by
  cases others with
  | nil => simp
  | cons second others => simp [String.intercalate_cons_cons]

/-- Items are spelled one behind the other, each on lines of its own; what spells nothing takes no
line. -/
theorem spells_cons {first : String} {others : List String} {xs ys : List Node}
    (hfirst : SpellsTrimmed first.toList xs)
    (hothers : SpellsTrimmed (String.intercalate "\n" others).toList ys) :
    SpellsTrimmed
      (String.intercalate "\n" (if first = "" then others else first :: others)).toList
      (xs ++ ys) := by
  split
  · rename_i hempty
    rw [hempty] at hfirst
    exact hfirst.append hothers
  · have hline : SpellsTrimmed (if others = [] then [] else ['\n']) [] := by
      split
      · exact spellsTrimmed_nil
      · exact spellsTrimmed_blanks (by decide)
    rw [toList_intercalate_cons]
    exact hfirst.append (hline.append hothers)

mutual

/-- What is imported for a node spells what the node means. -/
theorem spells_source (options : ImportOptions) :
    ∀ (node : Html) {imported : String}, (∀ element ∈ walked node, BringsList element) →
      source options node = .ok imported →
      SpellsTrimmed imported.toList (meaning options node)
  | .text value, _, _, h => by
    cases h
    exact spells_text options value
  | .element name attributes children, _, hwalked, h => by
    rw [walked, List.forall_mem_cons] at hwalked
    rw [source] at h
    rw [meaning]
    split at h
    · rename_i hprogram
      rw [if_pos hprogram]
      cases hcode : codeText children with
      | error e =>
        rw [hcode] at h
        cases h
      | ok program =>
        rw [hcode] at h
        cases h
        rw [← programText_of_codeText hcode]
        exact spellsTrimmed_quoteCode program
    · rename_i hprogram
      rw [if_neg hprogram]
      split at h
      · rename_i hbreak
        cases h
        rw [if_pos hbreak]
        exact spellsTrimmed_blanks (by decide)
      · rename_i hbreak
        rw [if_neg hbreak]
        obtain ⟨parts, hparts, h⟩ := bind_eq_ok h
        cases h
        rw [if_neg (not_or.mpr ⟨hprogram, hbreak⟩)] at hwalked
        exact spells_element hwalked.1
          (spells_sources options (isCodeContainer name attributes) children hwalked.2 hparts)
  | .aside, _, _, h => by
    cases h
    exact spellsTrimmed_nil

theorem spells_sources (options : ImportOptions) (dropFrame : Bool) :
    ∀ (nodes : List Html) {parts : List String},
      (∀ element ∈ walkedAll dropFrame nodes, BringsList element) →
      sources options dropFrame nodes = .ok parts →
      SpellsTrimmed (String.intercalate "\n" parts).toList (meanings options dropFrame nodes)
  | [], _, _, h => by
    cases h
    exact spellsTrimmed_nil
  | node :: nodes, parts, hwalked, h => by
    rw [walkedAll] at hwalked
    rw [sources] at h
    rw [meanings]
    split at h
    · rename_i hframe
      rw [if_pos hframe] at hwalked ⊢
      exact spells_sources options dropFrame nodes hwalked h
    · rename_i hframe
      rw [if_neg hframe, List.forall_mem_append] at hwalked
      rw [if_neg hframe]
      obtain ⟨first, hfirst, h⟩ := bind_eq_ok h
      obtain ⟨others, hothers, h⟩ := bind_eq_ok h
      cases h
      exact spells_cons (spells_source options node hwalked.1 hfirst)
        (spells_sources options dropFrame nodes hwalked.2 hothers)

end

/-- An imported tree is read as the document of the items that it means, if the attribute lists that
it brings are attribute lists. It is refused only if the items are nested too deep. -/
theorem read_or_refuse_importNodes {options : ImportOptions} {nodes : List Html} {text : String}
    (hwalked : ∀ element ∈ walkedAll false nodes, BringsList element)
    (h : importNodes options nodes = .ok text) :
    Source.read text = .ok (Node.ofItems (meanings options false nodes)).renumbered ∨
      maxDepth < Node.nestingAll (meanings options false nodes) ∧
        ∃ e, Source.read text = .error e := by
  rw [importNodes] at h
  cases hparts : sources options false nodes with
  | error e =>
    rw [hparts] at h
    cases h
  | ok parts =>
    rw [hparts] at h
    cases h
    exact (spells_sources options false nodes hwalked hparts).read_trim

/-- If the source that was imported is read, it is read as the document of what the tree means. -/
theorem eq_of_read_importNodes {options : ImportOptions} {nodes : List Html} {text : String}
    {tree : Node} (hwalked : ∀ element ∈ walkedAll false nodes, BringsList element)
    (h : importNodes options nodes = .ok text) (hread : Source.read text = .ok tree) :
    tree = (Node.ofItems (meanings options false nodes)).renumbered := by
  rcases read_or_refuse_importNodes hwalked h with hmeant | ⟨-, e, hrefused⟩
  · exact Except.ok.inj (hread.symm.trans hmeant)
  · cases hread.symm.trans hrefused

mutual

/-- The lists that an import looks at are those of the elements that it walks, and of others that it
leaves out. -/
theorem bringsList_of_usedLists :
    ∀ node : Html, (∀ list ∈ usedLists node, IsBrought list) →
      ∀ element ∈ walked node, BringsList element
  | .text _, _ => by simp [walked]
  | .element name attributes children, hused => by
    rw [walked, List.forall_mem_cons]
    rw [usedLists] at hused
    split at hused
    · rename_i hprogram
      rw [if_pos (.inl hprogram)]
      have hpre : isCodeContainer name attributes = false := by
        simp [isCodeContainer, hprogram.1]
      exact ⟨fun hcode => absurd hcode (by simp [hpre]), by simp⟩
    · rename_i hprogram
      rw [List.forall_mem_append] at hused
      refine ⟨fun hcode list hlist => hused.1 list ?_, ?_⟩
      · rw [if_pos hcode, hlist]
        exact List.mem_cons_self
      · split
        · simp
        · exact bringsList_of_usedListsOfAll _ children hused.2
  | .aside, _ => by simp [walked]

theorem bringsList_of_usedListsOfAll (dropFrame : Bool) :
    ∀ nodes : List Html, (∀ list ∈ usedListsOfAll nodes, IsBrought list) →
      ∀ element ∈ walkedAll dropFrame nodes, BringsList element
  | [], _ => by simp [walkedAll]
  | node :: nodes, hused => by
    rw [usedListsOfAll, List.forall_mem_append] at hused
    have hnodes := bringsList_of_usedListsOfAll dropFrame nodes hused.2
    rw [walkedAll]
    split
    · exact hnodes
    · exact List.forall_mem_append.mpr ⟨bringsList_of_usedLists node hused.1, hnodes⟩

end

/-- An imported tree is read as the document of the items that it means, if these are not nested too
deep and the attribute lists that it brings are attribute lists. -/
theorem read_importNodes {options : ImportOptions} {nodes : List Html} {text : String}
    (hdepth : Node.nestingAll (meanings options false nodes) ≤ maxDepth)
    (hused : ∀ list ∈ usedListsOfAll nodes, IsBrought list)
    (h : importNodes options nodes = .ok text) :
    Source.read text = .ok (Node.ofItems (meanings options false nodes)).renumbered :=
  (read_or_refuse_importNodes (bringsList_of_usedListsOfAll false nodes hused) h).resolve_right
    fun hdeep => absurd hdeep.1 (Nat.not_lt.mpr hdepth)

mutual

theorem usedLists_subset : ∀ node : Html, usedLists node ⊆ broughtLists node
  | .text _ => List.Subset.refl _
  | .element name attributes children => by
    rw [usedLists, broughtLists]
    split
    · exact List.nil_subset _
    · exact List.append_subset.mpr ⟨fun list hlist => List.mem_append_left _ hlist,
        fun list hlist => List.mem_append_right _ (usedListsOfAll_subset children hlist)⟩
  | .aside => List.Subset.refl _

theorem usedListsOfAll_subset : ∀ nodes : List Html, usedListsOfAll nodes ⊆ broughtListsOfAll nodes
  | [] => List.Subset.refl _
  | node :: nodes => by
    rw [usedListsOfAll, broughtListsOfAll]
    exact List.append_subset.mpr
      ⟨fun list hlist => List.mem_append_left _ (usedLists_subset node hlist),
        fun list hlist => List.mem_append_right _ (usedListsOfAll_subset nodes hlist)⟩

end

/-! ## Levels -/

mutual

/-- An element means at most one more level of elements. -/
theorem nestingAll_meaning_le (options : ImportOptions) :
    ∀ node : Html, Node.nestingAll (meaning options node) ≤ depth node
  | .text value => by
    rw [meaning]
    split <;> simp [Node.nestingAll, Node.nesting]
  | .element name attributes children => by
    have hchildren := nestingAll_meanings_le options (isCodeContainer name attributes) children
    rw [meaning, depth]
    split
    · simp [Node.nesting]
    · split
      · simp [Node.nestingAll]
      · cases construct? options name attributes with
        | none => exact Nat.le_succ_of_le hchildren
        | some tag =>
          simp only [Node.nestingAll_singleton, Node.nesting_element_block]
          exact Nat.succ_le_succ hchildren
  | .aside => Nat.zero_le _

theorem nestingAll_meanings_le (options : ImportOptions) (dropFrame : Bool) :
    ∀ nodes : List Html, Node.nestingAll (meanings options dropFrame nodes) ≤ depths nodes
  | [] => Nat.zero_le _
  | node :: nodes => by
    have hnodes := nestingAll_meanings_le options dropFrame nodes
    rw [meanings, depths]
    split
    · exact Nat.le_trans hnodes (Nat.le_max_right _ _)
    · rw [Node.nestingAll_append]
      exact Nat.max_le.mpr ⟨Nat.le_trans (nestingAll_meaning_le options node) (Nat.le_max_left _ _),
        Nat.le_trans hnodes (Nat.le_max_right _ _)⟩

end

end Html

end ChatMarkup

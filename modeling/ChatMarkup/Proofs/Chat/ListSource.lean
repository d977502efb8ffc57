import ChatMarkup.Proofs.Chat.Revision
import ChatMarkup.Proofs.View.ReturnedLists

/-!
# Attribute lists as source

A code block carries the attributes of its element as source without the brackets: the written list,
from which brackets are trimmed at both ends. A list that was read starts with the name of an
attribute and ends in a value, and neither starts or ends in a bracket of its own that could be
trimmed with the others, file names stamped on it included. So the brackets put back around it make
a list that is read as the one it was.

* `attributeSource_of_entries`: only the brackets of the list are trimmed;
* `Revised.areEntries`: the lists that a chat can meet;
* `readAttributes_attributeSource`: such a list comes back from its source, whatever follows.
-/

namespace ChatMarkup

open Html Source

/-- The source of a list is what stands between the brackets when the list is written. -/
theorem attributeSource_of_entries {entries : List Attribute} (h : ∀ entry ∈ entries, IsEntry entry)
    (hfinite : ∀ x ∈ Node.numbersOfEntries entries, x.isFinite = true) :
    attributeSource entries = .ok (listText entries) ∧
      (writeHead "" (some entries)).result = .ok ("[" ++ listText entries ++ "] ") :=
  ⟨attributeSource_eq h hfinite, writeHead_eq "" (areEntries_some.mpr h)⟩

/-- The attributes in a revised tree are those of the grammar. -/
theorem Revised.areEntries {tree node : Node} (h : Revised tree) (hnode : node ∈ tree.walk)
    {entries : List Attribute} (hentries : node.attributes? = some entries) :
    ∀ entry ∈ entries, IsEntry entry :=
  areEntries_some.mp (hentries ▸ h.isDocument.areEntries node hnode)

/-- An attribute list of a tree that was read, and stamped with file names, is trimmed of nothing
but its brackets. Its source between brackets is read up to the closing one, whatever follows, and
what is read are the same keys with the same values. -/
theorem readAttributes_attributeSource {tree node : Node} (h : Revised tree)
    (hnode : node ∈ tree.walk) {entries : List Attribute}
    (hentries : node.attributes? = some entries)
    (hfinite : ∀ x ∈ Node.numbersOfEntries entries, x.isFinite = true) :
    ∃ text, attributeSource entries = .ok text ∧
      (writeHead "" (some entries)).result = .ok ("[" ++ text ++ "] ") ∧
      ∀ rest, ∃ back,
        Source.readAttributes ('[' :: (text.toList ++ ']' :: rest)) = .ok (back, rest) ∧
          Node.sameAttributes back entries = true := by
  have hgrammar := h.areEntries hnode hentries
  obtain ⟨hsource, hwritten⟩ := attributeSource_of_entries hgrammar hfinite
  refine ⟨listText entries, hsource, hwritten, fun rest => ?_⟩
  obtain ⟨back, hread, hsame, -, -⟩ := readAttributes_entries hgrammar hfinite rest
  exact ⟨back, hread, hsame⟩

/-- A list with brackets, commas, quotes and parentheses inside its values. -/
def bracketedSource : String :=
  "code[call=f(\"](\", '[', g(])), width=2.50, tail=`a], b=[`] \x7b `x` \x7d"

/-- The list once the element is stamped with a file name, as source. -/
def bracketedText : String :=
  "call=f(\"](\", '[', g(])), width=2.5, tail=`a], b=[`, filename=`[r].py]`"

theorem readAttributes_attributeSource_bracketed :
    ∃ tree node entries, Revised tree ∧ node ∈ tree.walk ∧ node.attributes? = some entries ∧
      attributeSource entries = .ok bracketedText ∧
      ∃ back, Source.readAttributes ('[' :: (bracketedText.toList ++ "], x]".toList)) =
          .ok (back, ", x]".toList) ∧ Node.sameAttributes back entries = true := by
  have hrun : ((Source.read bracketedSource).toOption.bind fun tree =>
      tree.stamp 0 "[r].py]").any (fun tree => tree.walk.any fun node =>
        node.attributes?.any fun entries =>
          (attributeSource entries).toOption = some bracketedText &&
            (Node.numbersOfEntries entries).all Number.isFinite) = true := by
    decide +kernel
  simp only [Option.any_eq_true, Option.bind_eq_some_iff, List.any_eq_true, Bool.and_eq_true,
    decide_eq_true_eq, List.all_eq_true] at hrun
  obtain ⟨tree, ⟨first, hread, hstamp⟩, node, hnode, entries, hentries, hsource, hfinite⟩ := hrun
  have hrevised : Revised tree := .stamp (.read (eq_ok_of_toOption hread)) hstamp
  obtain ⟨text, htext, -, hback⟩ :=
    readAttributes_attributeSource hrevised hnode hentries hfinite
  have hsame : text = bracketedText :=
    Except.ok.inj (htext.symm.trans (eq_ok_of_toOption hsource))
  subst hsame
  obtain ⟨back, hread, hsame⟩ := hback ", x]".toList
  exact ⟨tree, node, entries, hrevised, hnode, hentries, htext, back, hread, hsame⟩

end ChatMarkup

import ChatMarkup.Proofs.Source.Tracking
import ChatMarkup.Proofs.Source.WrittenAttributes

/-!
# Faults that never happen

Some faults are named for places that a reader never comes to, since whoever calls it has looked at
the next character before: a string that starts with nothing, an identifier that starts with no
letter, a body or a list that does not open, a parenthesis that closes none, two surrogates that
make no character. No reader stops for one of them where it is called, and no other fault has the
message of one.

* `Fault.message_ne`: the message says whether a fault is one of them;
* `IsHonest`: a result that does not stop for one of them, and the readers that give such results;
* `scalarOfNat?_joinSurrogates`, `toNat_joinWords`: two surrogates always make a character, also
  where words of 32 bits are reckoned with.
-/

namespace ChatMarkup

/-- A fault that no source has. -/
def Fault.isDefensive : Fault → Bool
  | expected (.blockOf _) _ | expected .attributes _ => true
  | expectedIdentifier | expectedString | endOfInput | unbalancedCall | invalidSurrogatePair => true
  | _ => false

/-! ## Messages -/

/-- What the text of an expectation starts with. -/
def Expectation.lead : Expectation → String
  | bodyAfter _ => "'\x7b' after '"
  | blockOf _ => "'\x7b' to open '"
  | closeOf _ => "'\x7d' to close '"
  | attributes => "'[' to open attributes"
  | closeOfAttributes => "']' to close attributes"
  | valueOf _ => "'=' after attribute '"
  | attributeValue => "attribute value"

/-- What the message of a fault starts with. -/
def Fault.lead : Fault → String
  | expected what _ => "expected " ++ what.lead
  | character _ => "unexpected character '"
  | characterInAttributes _ | characterInValue _ => "unexpected '"
  | invalidNumber _ => "invalid number '"
  | cause => cause.message

/-- What the messages of faults that no source has start with. -/
def defensiveLeads : List String :=
  ["expected '\x7b' to open '", "expected '[' to open attributes", "expected identifier",
    "expected string", "unexpected end of input", "unbalanced ')' in attribute value",
    "invalid surrogate pair"]

/-- What those of all others start with. -/
def otherLeads : List String :=
  ["expected '\x7b' after '", "expected '\x7d' to close '", "expected ']' to close attributes",
    "expected '=' after attribute '", "expected attribute value", "unexpected character '",
    "unexpected '", "unexpected '\x7d' at top level", "unterminated '(' in attribute value",
    "invalid number '", "unterminated string literal", "invalid \\u escape"]

theorem lead_prefix_append (lead more : String) : lead.toList <+: (lead ++ more).toList := by
  rw [String.toList_append]
  exact List.prefix_append _ _

theorem lead_prefix_append₂ (lead more more' : String) :
    lead.toList <+: (lead ++ more ++ more').toList := by
  rw [String.append_assoc]
  exact lead_prefix_append _ _

theorem Expectation.lead_prefix (what : Expectation) : what.lead.toList <+: what.text.toList := by
  cases what with
  | bodyAfter | blockOf | closeOf | valueOf => exact lead_prefix_append₂ _ _ _
  | attributes | closeOfAttributes | attributeValue => exact List.prefix_refl _

theorem Fault.lead_prefix (cause : Fault) : cause.lead.toList <+: cause.message.toList := by
  cases cause with
  | expected what found =>
    have htext : ("expected " ++ what.lead).toList <+: ("expected " ++ what.text).toList := by
      rw [String.toList_append, String.toList_append, List.prefix_append_right_inj]
      exact what.lead_prefix
    cases found with
    | none => exact htext.trans (lead_prefix_append _ _)
    | some c =>
      refine htext.trans ?_
      show _ <+: (_ ++ " but found '" ++ c.toString ++ "'").toList
      rw [String.append_assoc]
      exact lead_prefix_append₂ _ _ _
  | character c => exact lead_prefix_append₂ "unexpected character '" c.toString "'"
  | characterInAttributes c =>
    exact lead_prefix_append₂ "unexpected '" c.toString "' in attribute list"
  | characterInValue c => exact lead_prefix_append₂ "unexpected '" c.toString "' in attribute value"
  | invalidNumber text => exact lead_prefix_append₂ "invalid number '" (String.ofList text) "'"
  | _ => exact List.prefix_refl _

theorem Fault.lead_mem (cause : Fault) :
    cause.lead ∈ if cause.isDefensive then defensiveLeads else otherLeads := by
  cases cause with
  | expected what found => cases what <;> exact of_decide_eq_true rfl
  | _ => exact of_decide_eq_true rfl

theorem leads_apart : ∀ lead ∈ defensiveLeads, ∀ other ∈ otherLeads,
    ¬ lead.toList <+: other.toList ∧ ¬ other.toList <+: lead.toList := by
  decide

/-- No other fault has the message of one that no source has. -/
theorem Fault.message_ne {cause other : Fault} (hcause : cause.isDefensive = true)
    (hother : other.isDefensive = false) : cause.message ≠ other.message := by
  intro h
  have hmem := cause.lead_mem
  have hmem' := other.lead_mem
  rw [hcause, if_pos rfl] at hmem
  rw [hother, if_neg Bool.false_ne_true] at hmem'
  obtain ⟨hne, hne'⟩ := leads_apart _ hmem _ hmem'
  -- both leads are prefixes of one text, so that one of them is a prefix of the other
  have hlead := cause.lead_prefix
  rw [h] at hlead
  rcases List.prefix_or_prefix_of_prefix hlead other.lead_prefix with hle | hle
  · exact hne hle
  · exact hne' hle

namespace Source

/-! ## Results that stop for no such fault -/

variable {α β : Type}

/-- A result that is no stop for a fault that no source has. -/
def IsHonest (result : Except Stop α) : Prop :=
  ∀ cause rest, result = .error (.fault cause rest) → cause.isDefensive = false

theorem isHonest_ok (a : α) : IsHonest (.ok a) := by
  rintro _ _ ⟨⟩

theorem isHonest_tooDeep : IsHonest (.error .tooDeep : Except Stop α) := by
  rintro _ _ ⟨⟩

theorem isHonest_stop {cause : Fault} (h : cause.isDefensive = false) (rest : List Char) :
    IsHonest (stop cause rest : Except Stop α) := by
  rintro _ _ ⟨⟩
  exact h

/-- What stops for the same is as good. -/
theorem IsHonest.of_error {result : Except Stop α} (h : IsHonest result) {e : Stop}
    (heq : result = .error e) : IsHonest (.error e : Except Stop β) := by
  rintro cause rest ⟨⟩
  exact h cause rest heq

theorem IsHonest.map {reading : Reading α} (h : IsHonest reading) (f : α → β) :
    IsHonest (reading.map f) := by
  cases hreading : reading with
  | ok read => exact isHonest_ok _
  | error e => exact h.of_error hreading

/-! ## Strings -/

/-- Two surrogates, as words of 32 bits join them. -/
def joinWords (high low : UInt32) : UInt32 :=
  0x10000 + (high - 0xd800) <<< (10 : UInt32) + ((low - 0xdc00) &&& 0x3ff)

theorem joinSurrogates_bounds (high low : Nat) :
    0x10000 ≤ joinSurrogates high low ∧ joinSurrogates high low ≤ 0x10ffff := by
  rw [joinSurrogates]
  omega

/-- Words of 32 bits join surrogates as numbers do, whatever stands behind the high one. -/
theorem toNat_joinWords {high : UInt32} (hhigh : isHighSurrogate high.toNat = true)
    (low : UInt32) : (joinWords high low).toNat = joinSurrogates high.toNat low.toNat := by
  obtain ⟨hle, hlt⟩ := isHighSurrogate_iff.mp hhigh
  have hlow : ((low - 0xdc00) &&& 0x3ff).toNat = low.toNat % 0x400 := by
    have hmask : ((low - 0xdc00) &&& 0x3ff).toNat = (low - 0xdc00).toNat &&& (2 ^ 10 - 1) := rfl
    rw [hmask, Nat.and_two_pow_sub_one_eq_mod, UInt32.toNat_sub]
    simp only [UInt32.reduceToNat]
    omega
  have hshift : ((high - 0xd800) <<< (10 : UInt32)).toNat = (high.toNat - 0xd800) * 0x400 := by
    rw [UInt32.toNat_shiftLeft, UInt32.toNat_sub]
    simp only [UInt32.reduceToNat, Nat.shiftLeft_eq, Nat.reduceMod, Nat.reducePow] at hle hlt ⊢
    omega
  rw [joinWords, UInt32.toNat_add, UInt32.toNat_add, hlow, hshift, joinSurrogates]
  simp only [UInt32.reduceToNat] at hle hlt ⊢
  omega

/-- Two surrogates are always a character. -/
theorem scalarOfNat?_joinSurrogates (high low : Nat) :
    ∃ c, scalarOfNat? (joinSurrogates high low) = some c := by
  obtain ⟨hle, hge⟩ := joinSurrogates_bounds high low
  rw [scalarOfNat?, dif_pos (.inr ⟨by omega, by omega⟩)]
  exact ⟨_, rfl⟩

theorem isHonest_readHex (count acc : Nat) (cs : List Char) : IsHonest (readHex count acc cs) := by
  fun_induction readHex count acc cs with
  | case1 => exact isHonest_ok _
  | case2 | case4 => exact isHonest_stop rfl _
  | case3 _ _ _ _ _ _ ih => exact ih

theorem isHonest_readUnicodeEscape (cs : List Char) : IsHonest (readUnicodeEscape cs) := by
  rw [readUnicodeEscape]
  split
  · rename_i hread
    exact (isHonest_readHex 4 0 cs).of_error hread
  · split
    · split
      · rename_i hread
        exact (isHonest_readHex 4 0 _).of_error hread
      · split
        · exact isHonest_ok _
        · rename_i hnone
          obtain ⟨c, hc⟩ := scalarOfNat?_joinSurrogates _ _
          rw [hc] at hnone
          cases hnone
    · exact isHonest_ok _

theorem isHonest_readStringTail (quote : Char) (opening acc cs : List Char) :
    IsHonest (readStringTail quote opening acc cs) := by
  fun_induction readStringTail quote opening acc cs with
  | case1 | case3 => exact isHonest_stop rfl _
  | case2 => exact isHonest_ok _
  | case4 _ _ _ _ _ _ ih => exact ih
  | case5 _ _ _ herror => exact (isHonest_readUnicodeEscape _).of_error herror
  | case6 _ _ _ _ _ ih => exact ih
  | case7 _ _ _ _ _ ih => exact ih

theorem isHonest_readString (quote : Char) (rest : List Char) :
    IsHonest (readString (quote :: rest)) := by
  rw [readString]
  split
  · exact isHonest_ok _
  · rename_i herror
    exact (isHonest_readStringTail _ _ _ _).of_error herror

/-! ## Other tokens -/

theorem isHonest_readNumber (cs : List Char) : IsHonest (readNumber cs) := by
  rw [readNumber]
  split
  · exact isHonest_ok _
  · exact isHonest_stop rfl _

theorem isHonest_readIdentifier {c : Char} (hc : isIdentifierStart c = true) (rest : List Char) :
    IsHonest (readIdentifier (c :: rest)) := by
  rw [readIdentifier, if_pos hc]
  exact isHonest_ok _

/-- Asking for a character is refused for what was expected. -/
theorem isHonest_expect {what : Expectation}
    (h : ∀ found, (Fault.expected what found).isDefensive = false) (c : Char) (cs : List Char) :
    IsHonest (expect c what cs) := by
  rw [expect]
  split
  · exact isHonest_stop (h none) _
  · split
    · exact isHonest_ok _
    · exact isHonest_stop (h _) _

theorem isHonest_readValue {cs : List Char} (h : cs.head?.map Start.of ≠ some .identifier) :
    IsHonest (readValue cs) := by
  cases cs with
  | nil => exact isHonest_stop rfl _
  | cons c rest =>
    rw [readValue]
    split
    · exact (isHonest_readString c rest).map _
    · exact (isHonest_readNumber _).map _
    · rename_i hstart
      exact absurd (congrArg some hstart) h
    · exact isHonest_stop rfl _

/-! ## Elements -/

namespace Assembly

theorem isHonest_readBody (a : Assembly) (frame : Frame) (cs : List Char) :
    IsHonest (a.readBody frame cs) := by
  cases cs with
  | nil => exact isHonest_stop rfl _
  | cons c rest =>
    rw [readBody]
    split
    · rename_i hopen
      subst hopen
      rw [expect_cons (by decide) (by decide)]
      exact isHonest_ok _
    · split
      · have hstring := isHonest_readString c rest
        split
        · rename_i herror
          exact hstring.of_error herror
        · exact isHonest_ok _
      · exact isHonest_stop rfl _

theorem isHonest_readItem (a : Assembly) {c : Char} {rest : List Char}
    (h : Start.of c ≠ .identifier) : IsHonest (a.readItem (c :: rest)) := by
  rw [readItem]
  split
  · exact (isHonest_readString c rest).map _
  · exact (isHonest_readNumber _).map _
  · rename_i hstart
    exact absurd hstart h
  · exact isHonest_stop rfl _

/-- Where no item starts, a body is closed, or all ends. -/
theorem isHonest_step (a : Assembly) {cs : List Char}
    (h : ∀ c rest, skipTrivia cs = c :: rest → c = '}') : IsHonest (a.step cs) := by
  rw [step]
  split
  · split
    · exact isHonest_ok _
    · exact isHonest_stop rfl _
  · rename_i c rest hskip
    rw [if_pos (h c rest hskip)]
    split
    · exact isHonest_stop rfl _
    · exact isHonest_ok _

end Assembly

end Source

end ChatMarkup

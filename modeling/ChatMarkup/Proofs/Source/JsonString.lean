import ChatMarkup.Json.Reader
import ChatMarkup.Proofs.Source.Lexeme

/-!
# JSON strings in markup source

A JSON string literal denotes a text by way of UTF-16: what stands between its quotes denotes code
units, and the text is the one that these units encode. A code unit is written by its character, by
one of the short escapes, or in four hexadecimal digits of either case; only the last can split a
character, so that each surrogate needs its partner. The markup reads every such literal as JSON
does.

* `Denotes`, `Paired`: the code units between the quotes, and when they encode a text;
* `exists_jsonSpelled`: then the literal spells that text character by character;
* `readString_json`: the reader of the markup goes over the literal and no further, and answers the
  text that the units encode, as the reader of JSON does.
-/

namespace ChatMarkup.Source

/-! ## Code units -/

/-- The UTF-16 code units of a character: one, or two surrogates. -/
def charUnits (c : Char) : List Nat :=
  if c.toNat < 0x10000 then [c.toNat]
  else [0xd800 + (c.toNat - 0x10000) / 0x400, 0xdc00 + (c.toNat - 0x10000) % 0x400]

/-- The UTF-16 code units of a text. -/
def textUnits (text : List Char) : List Nat :=
  text.flatMap charUnits

/-- Code units in which every high surrogate has a low one behind it, and every low one a high one
in front. -/
inductive Paired : List Nat → Prop
  | nil : Paired []
  | single {unit : Nat} {units : List Nat} : unit < 0xd800 ∨ 0xe000 ≤ unit ∧ unit < 0x10000 →
      Paired units → Paired (unit :: units)
  | pair {high low : Nat} {units : List Nat} : 0xd800 ≤ high ∧ high < 0xdc00 →
      0xdc00 ≤ low ∧ low < 0xe000 → Paired units → Paired (high :: low :: units)

theorem charUnits_low {c : Char} (h : c.toNat < 0x10000) : charUnits c = [c.toNat] :=
  if_pos h

/-- A character that needs two units has the two surrogates that say how far it is behind the
others. -/
theorem charUnits_high {c : Char} {k : Nat} (h : c.toNat = 0x10000 + k) :
    charUnits c = [0xd800 + k / 0x400, 0xdc00 + k % 0x400] := by
  rw [charUnits, if_neg (by omega), h, Nat.add_sub_cancel_left]

theorem textUnits_cons (c : Char) (text : List Char) :
    textUnits (c :: text) = charUnits c ++ textUnits text :=
  List.flatMap_cons

/-- Apart from the surrogates, a code unit is a character. -/
theorem exists_char_single {unit : Nat} (h : unit < 0xd800 ∨ 0xe000 ≤ unit ∧ unit < 0x10000) :
    ∃ c : Char, c.toNat = unit ∧ charUnits c = [unit] := by
  have hvalid : unit.isValidChar := by
    rcases h with h | h
    · exact .inl h
    · exact .inr ⟨by omega, by omega⟩
  have hc : (Char.ofNatAux unit hvalid).toNat = unit := rfl
  refine ⟨_, hc, ?_⟩
  rw [charUnits_low (by omega), hc]

/-- A high surrogate and a low one are a character. -/
theorem exists_char_pair {high low : Nat} (hhigh : 0xd800 ≤ high ∧ high < 0xdc00)
    (hlow : 0xdc00 ≤ low ∧ low < 0xe000) :
    ∃ (c : Char) (k : Nat), c.toNat = 0x10000 + k ∧ 0xd800 + k / 0x400 = high ∧
      0xdc00 + k % 0x400 = low ∧ charUnits c = [high, low] := by
  obtain ⟨k, hk⟩ : ∃ k, k = (high - 0xd800) * 0x400 + (low - 0xdc00) := ⟨_, rfl⟩
  have hvalid : (0x10000 + k).isValidChar := .inr ⟨by omega, by omega⟩
  have hc : (Char.ofNatAux _ hvalid).toNat = 0x10000 + k := rfl
  have hh : 0xd800 + k / 0x400 = high := by omega
  have hl : 0xdc00 + k % 0x400 = low := by omega
  refine ⟨_, k, hc, hh, hl, ?_⟩
  rw [charUnits_high hc, hh, hl]

/-- A character has one unit, which is no surrogate, or a high surrogate and another unit. -/
theorem charUnits_cases (c : Char) :
    (∃ unit, charUnits c = [unit] ∧ (unit < 0xd800 ∨ 0xe000 ≤ unit)) ∨
      ∃ high low, charUnits c = [high, low] ∧ 0xd800 ≤ high ∧ high < 0xdc00 := by
  have hvalid : c.toNat.isValidChar := c.valid
  by_cases hc : c.toNat < 0x10000
  · refine .inl ⟨c.toNat, charUnits_low hc, ?_⟩
    rcases hvalid with h | h <;> omega
  · refine .inr ⟨_, _, charUnits_high (Nat.add_sub_of_le (Nat.le_of_not_lt hc)).symm, ?_⟩
    rcases hvalid with h | h <;> omega

theorem charUnits_ne_nil (c : Char) : charUnits c ≠ [] := by
  rw [charUnits]
  split <;> exact List.cons_ne_nil _ _

/-- The units of a character say which it is, and where they end. -/
theorem charUnits_append_inj {c d : Char} {xs ys : List Nat}
    (h : charUnits c ++ xs = charUnits d ++ ys) : c = d ∧ xs = ys := by
  have hsame : c.toNat = d.toNat → c = d := Char.toNat_inj.mp
  have hvalid : c.toNat.isValidChar := c.valid
  have hvalid' : d.toNat.isValidChar := d.valid
  by_cases hc : c.toNat < 0x10000 <;> by_cases hd : d.toNat < 0x10000
  · rw [charUnits_low hc, charUnits_low hd] at h
    obtain ⟨heq, htail⟩ := List.cons_eq_cons.mp h
    exact ⟨hsame heq, htail⟩
  · -- one unit is no surrogate, the first of two is one
    exfalso
    rw [charUnits_low hc, charUnits, if_neg hd] at h
    have heq := (List.cons_eq_cons.mp h).1
    rcases hvalid with h | h <;> rcases hvalid' with h' | h' <;> omega
  · exfalso
    rw [charUnits_low hd, charUnits, if_neg hc] at h
    have heq := (List.cons_eq_cons.mp h).1
    rcases hvalid with h | h <;> rcases hvalid' with h' | h' <;> omega
  · rw [charUnits, if_neg hc, charUnits, if_neg hd] at h
    obtain ⟨hhigh, hrest⟩ := List.cons_eq_cons.mp h
    obtain ⟨hlow, htail⟩ := List.cons_eq_cons.mp hrest
    exact ⟨hsame (by omega), htail⟩

/-- A text is known by its code units. -/
theorem textUnits_injective : Function.Injective textUnits := by
  intro text other h
  induction text generalizing other with
  | nil =>
    cases other with
    | nil => rfl
    | cons d other => exact absurd (List.append_eq_nil_iff.mp h.symm).1 (charUnits_ne_nil d)
  | cons c text ih =>
    cases other with
    | nil => exact absurd (List.append_eq_nil_iff.mp h).1 (charUnits_ne_nil c)
    | cons d other =>
      rw [textUnits_cons, textUnits_cons] at h
      obtain ⟨rfl, htail⟩ := charUnits_append_inj h
      rw [ih htail]

/-! ## Literals -/

/-- The hexadecimal digits, in either case, and their values. -/
def hexDigits : List (Char × Nat) :=
  "0123456789abcdef".toList.zipIdx ++ "0123456789ABCDEF".toList.zipIdx

/-- The short escapes of JSON, and the characters that they stand for. -/
def jsonEscapes : List (Char × Char) :=
  [('"', '"'), ('\\', '\\'), ('/', '/'), ('b', '\x08'), ('f', '\x0c'), ('n', '\n'), ('r', '\r'),
    ('t', '\t')]

/-- The characters that stand for themselves between the quotes of a JSON literal: all but the
quote, the backslash and the control characters. -/
def isUnescaped (c : Char) : Bool :=
  0x20 ≤ c.toNat && c ≠ '"' && c ≠ '\\'

/-- What stands between the quotes of a JSON literal, and the code units that it denotes. -/
inductive Denotes : List Char → List Nat → Prop
  | nil : Denotes [] []
  | unescaped {c : Char} {source : List Char} {units : List Nat} : isUnescaped c = true →
      Denotes source units → Denotes (c :: source) (charUnits c ++ units)
  | short {e c : Char} {source : List Char} {units : List Nat} : (e, c) ∈ jsonEscapes →
      Denotes source units → Denotes ('\\' :: e :: source) (c.toNat :: units)
  | unit {a b c d : Char} {i j k l : Nat} {source : List Char} {units : List Nat} :
      (a, i) ∈ hexDigits → (b, j) ∈ hexDigits → (c, k) ∈ hexDigits → (d, l) ∈ hexDigits →
      Denotes source units →
      Denotes ('\\' :: 'u' :: a :: b :: c :: d :: source)
        ((0x1000 * i + 0x100 * j + 0x10 * k + l) :: units)

theorem hexDigit?_of_mem : ∀ digit ∈ hexDigits, hexDigit? digit.1 = some digit.2 := by
  decide

theorem isHex_of_mem {a b c d : Char} {i j k l : Nat} (ha : (a, i) ∈ hexDigits)
    (hb : (b, j) ∈ hexDigits) (hc : (c, k) ∈ hexDigits) (hd : (d, l) ∈ hexDigits) :
    IsHex [a, b, c, d] (0x1000 * i + 0x100 * j + 0x10 * k + l) :=
  .digits (hexDigit?_of_mem _ ha) (hexDigit?_of_mem _ hb) (hexDigit?_of_mem _ hc)
    (hexDigit?_of_mem _ hd)

/-- What is short for a character is no surrogate, and is read alike in the markup and in JSON. -/
theorem short_of_mem : ∀ escape ∈ jsonEscapes, escape.2.toNat < 0xd800 ∧ escape ∈ shortEscapes ∧
    Json.unescape? escape.1 = some escape.2 := by
  decide

/-! ## Texts -/

/-- A text, and what stands between the quotes of a JSON literal for it, character by character. -/
inductive JsonSpelled : List Char → List Char → Prop
  | nil : JsonSpelled [] []
  | unescaped {c : Char} {text source : List Char} : isUnescaped c = true →
      JsonSpelled text source → JsonSpelled (c :: text) (c :: source)
  | short {e c : Char} {text source : List Char} : (e, c) ∈ jsonEscapes →
      JsonSpelled text source → JsonSpelled (c :: text) ('\\' :: e :: source)
  | single {c : Char} {hex text source : List Char} : IsHex hex c.toNat →
      JsonSpelled text source → JsonSpelled (c :: text) ('\\' :: 'u' :: (hex ++ source))
  | pair {c : Char} {k : Nat} {high low text source : List Char} : c.toNat = 0x10000 + k →
      IsHex high (0xd800 + k / 0x400) → IsHex low (0xdc00 + k % 0x400) →
      JsonSpelled text source →
      JsonSpelled (c :: text) ('\\' :: 'u' :: (high ++ '\\' :: 'u' :: (low ++ source)))

/-- What a literal starts with: a character of one unit or of two, however it is written, or a unit
in hexadecimal digits. -/
theorem Denotes.of_cons {source : List Char} {unit : Nat} {units : List Nat}
    (h : Denotes source (unit :: units)) :
    (∃ c rest more, charUnits c ++ more = unit :: units ∧ Denotes rest more ∧
        ∀ text, JsonSpelled text rest → JsonSpelled (c :: text) source) ∨
      ∃ hex rest, source = '\\' :: 'u' :: (hex ++ rest) ∧ IsHex hex unit ∧ Denotes rest units := by
  generalize hall : unit :: units = all at h
  cases h with
  | nil => cases hall
  | unescaped hc hrest => exact .inl ⟨_, _, _, rfl, hrest, fun _ => .unescaped hc⟩
  | @short e c _ _ hmem hrest =>
    have hlow : c.toNat < 0xd800 := (short_of_mem _ hmem).1
    refine .inl ⟨_, _, _, ?_, hrest, fun _ => .short hmem⟩
    rw [charUnits_low (by omega), List.singleton_append]
  | unit ha hb hc hd hrest =>
    cases hall
    exact .inr ⟨_, _, rfl, isHex_of_mem ha hb hc hd, hrest⟩

theorem Denotes.of_nil {source : List Char} (h : Denotes source []) : source = [] := by
  generalize hall : ([] : List Nat) = all at h
  cases h with
  | nil => rfl
  | @unescaped c => exact absurd (List.append_eq_nil_iff.mp hall.symm).1 (charUnits_ne_nil c)
  | _ => cases hall

/-- A literal whose surrogates are paired spells the text that its units encode. -/
theorem exists_jsonSpelled {units : List Nat} (hpaired : Paired units) {source : List Char}
    (h : Denotes source units) : ∃ text, textUnits text = units ∧ JsonSpelled text source := by
  induction hpaired generalizing source with
  | nil => exact ⟨[], rfl, h.of_nil ▸ .nil⟩
  | @single unit units hunit _ ih =>
    rcases h.of_cons with ⟨c, rest, more, happend, hrest, hspell⟩ | ⟨hex, rest, rfl, hhex, hrest⟩
    · rcases charUnits_cases c with ⟨_, hc, -⟩ | ⟨high, _, hc, hhigh⟩
      · rw [hc] at happend
        obtain ⟨rfl, rfl⟩ := List.cons_eq_cons.mp happend
        obtain ⟨text, htext, hspelled⟩ := ih hrest
        exact ⟨c :: text, by rw [textUnits_cons, hc, htext]; rfl, hspell text hspelled⟩
      · rw [hc] at happend
        cases happend
        omega
    · obtain ⟨c, rfl, hc⟩ := exists_char_single hunit
      obtain ⟨text, htext, hspelled⟩ := ih hrest
      exact ⟨c :: text, by rw [textUnits_cons, hc, htext]; rfl, .single hhex hspelled⟩
  | @pair high low units hhigh hlow _ ih =>
    rcases h.of_cons with ⟨c, rest, more, happend, hrest, hspell⟩ | ⟨hex, rest, rfl, hhex, hrest⟩
    · rcases charUnits_cases c with ⟨_, hc, hunit⟩ | ⟨_, _, hc, -⟩
      · rw [hc] at happend
        cases happend
        omega
      · rw [hc] at happend
        cases happend
        obtain ⟨text, htext, hspelled⟩ := ih hrest
        exact ⟨c :: text, by rw [textUnits_cons, hc, htext]; rfl, hspell text hspelled⟩
    · -- a low surrogate behind an escaped one has to be escaped as well
      rcases hrest.of_cons with ⟨c, _, _, happend, -⟩ | ⟨second, more, rfl, hsecond, hmore⟩
      · exfalso
        rcases charUnits_cases c with ⟨_, hc, hunit⟩ | ⟨_, _, hc, hunit⟩ <;>
        · rw [hc] at happend
          cases happend
          omega
      · obtain ⟨c, k, hk, rfl, rfl, hc⟩ := exists_char_pair hhigh hlow
        obtain ⟨text, htext, hspelled⟩ := ih hmore
        exact ⟨c :: text, by rw [textUnits_cons, hc, htext]; rfl, .pair hk hhex hsecond hspelled⟩

/-! ## Readers -/

theorem unescaped_spec {c : Char} (h : isUnescaped c = true) :
    0x20 ≤ c.toNat ∧ c ≠ '"' ∧ c ≠ '\\' := by
  simpa [isUnescaped, and_assoc] using h

/-- What is spelled as JSON is spelled in the markup, between double quotes. -/
theorem JsonSpelled.spelled {text source : List Char} (h : JsonSpelled text source) :
    Spelled '"' text source := by
  induction h with
  | nil => exact .nil
  | unescaped hc _ ih => exact .plain (unescaped_spec hc).2.1 (unescaped_spec hc).2.2 ih
  | short hmem _ ih => exact .escape (short_of_mem _ hmem).2.1 ih
  | single hhex _ ih => exact .unicode hhex ih
  | pair hc hhigh hlow _ ih => exact .pair hc hhigh hlow ih

/-- A text read so far in which no surrogate waits for its partner or has missed it. -/
def sound (acc : List Char) : Json.Text :=
  ⟨acc, none, true⟩

theorem IsHex.hexValue? {hex : List Char} {n : Nat} (h : IsHex hex n) :
    ∃ a b c d, hex = [a, b, c, d] ∧ Json.hexValue? a b c d = some n := by
  obtain ⟨ha, hb, hc, hd⟩ := h
  refine ⟨_, _, _, _, rfl, ?_⟩
  simp only [Json.hexValue?, ha, hb, hc, hd, Option.some.injEq]
  omega

theorem readJsonTail_unit {hex : List Char} {n : Nat} (h : IsHex hex n) (t : Json.Text)
    (rest : List Char) :
    Json.readStringTail t ('\\' :: 'u' :: (hex ++ rest)) =
      Json.readStringTail (t.pushUnit n) rest := by
  obtain ⟨a, b, c, d, rfl, hvalue⟩ := h.hexValue?
  simp only [List.cons_append, List.nil_append, Json.readStringTail, hvalue]

theorem push_sound (acc : List Char) (c : Char) : (sound acc).push c = sound (c :: acc) := rfl

theorem pushUnit_single (acc : List Char) (c : Char) :
    (sound acc).pushUnit c.toNat = sound (c :: acc) := by
  simp [sound, Json.Text.pushUnit, scalarOfNat?_toNat, Json.Text.push]

/-- The two surrogates of a character are put together. -/
theorem pushUnit_pair (acc : List Char) {c : Char} {k : Nat} (hc : c.toNat = 0x10000 + k) :
    ((sound acc).pushUnit (0xd800 + k / 0x400)).pushUnit (0xdc00 + k % 0x400) =
      sound (c :: acc) := by
  have hk : k < 0x100000 := by
    have hvalid : c.toNat.isValidChar := c.valid
    rw [hc] at hvalid
    rcases hvalid with h | h <;> omega
  obtain ⟨hhigh, hjoin⟩ := joinSurrogates_split hk
  have hlow : Json.isLowSurrogate (0xdc00 + k % 0x400) = true := by
    rw [Json.isLowSurrogate, decide_eq_true_eq]
    omega
  have hnone : scalarOfNat? (0xd800 + k / 0x400) = none := scalarOfNat?_surrogate (by omega)
  simp only [sound, Json.Text.pushUnit, hnone, hhigh, if_true, hlow, hjoin, ← hc,
    scalarOfNat?_toNat]

theorem JsonSpelled.read_json {text source : List Char} (h : JsonSpelled text source)
    (acc rest : List Char) :
    Json.readStringTail (sound acc) (source ++ '"' :: rest) =
      some (some (String.ofList (acc.reverse ++ text)), rest) := by
  induction h generalizing acc with
  | nil => simp [Json.readStringTail, Json.Text.value?, sound]
  | unescaped hc _ ih =>
    obtain ⟨hcontrol, hquote, hslash⟩ := unescaped_spec hc
    rw [List.cons_append, Json.readStringTail, if_neg (by omega), push_sound, ih]
    · simp
    · exact hquote
    · exact fun _ _ _ _ _ heq _ => hslash heq
    · exact fun _ _ heq _ => hslash heq
  | @short e c text source hmem _ ih =>
    obtain ⟨-, hshort, hescape⟩ := short_of_mem _ hmem
    have hu : e ≠ 'u' := (unescape_short _ hshort).2
    rw [List.cons_append, List.cons_append, Json.readStringTail]
    · rw [hescape]
      dsimp only
      rw [push_sound, ih]
      simp
    · exact fun _ _ _ _ _ heq _ => hu heq
  | single hhex _ ih =>
    rw [List.cons_append, List.cons_append, List.append_assoc, readJsonTail_unit hhex,
      pushUnit_single, ih]
    simp
  | pair hc hhigh hlow _ ih =>
    rw [List.cons_append, List.cons_append, List.append_assoc, List.cons_append, List.cons_append,
      List.append_assoc, readJsonTail_unit hhigh, readJsonTail_unit hlow, pushUnit_pair _ hc, ih]
    simp

/-! ## The text of a literal -/

/-- A literal of JSON, and the code units that it denotes. -/
def IsJsonLiteral (literal : List Char) (units : List Nat) : Prop :=
  ∃ source, literal = '"' :: (source ++ ['"']) ∧ Denotes source units

/-- The reader of the markup goes over a JSON literal and no further, whatever follows, and answers
the one text that its code units encode. So does the reader of JSON. -/
theorem readString_json {literal : List Char} {units : List Nat}
    (h : IsJsonLiteral literal units) (hpaired : Paired units) :
    ∃ text : String, textUnits text.toList = units ∧
      (∀ other : String, textUnits other.toList = units → other = text) ∧
      ∀ rest, readString (literal ++ rest) = .ok (text, rest) ∧
        Json.readScalar (literal ++ rest) = some (.string text, rest) := by
  obtain ⟨source, rfl, hdenotes⟩ := h
  obtain ⟨text, htext, hspelled⟩ := exists_jsonSpelled hpaired hdenotes
  refine ⟨String.ofList text, by rw [String.toList_ofList, htext], fun other hother => ?_,
    fun rest => ⟨?_, ?_⟩⟩
  · rw [← textUnits_injective (hother.trans htext.symm), String.ofList_toList]
  · rw [List.cons_append, List.append_assoc, List.singleton_append, readString,
      hspelled.spelled.read (by decide), List.reverse_nil, List.nil_append]
  · have hread := hspelled.read_json [] rest
    rw [List.reverse_nil, List.nil_append] at hread
    rw [List.cons_append, List.append_assoc, List.singleton_append, Json.readScalar]
    show (Json.readStringTail (sound []) _).map _ = _
    rw [hread]
    rfl

/-- What stands between the quotes of a literal in which the same character stands as two escaped
surrogates and as it is. -/
def mixedSource : List Char :=
  ['a', '\\', '/', '\\', 'u', '0', '0', 'E', '9', '\\', 'u', 'D', '8', '3', 'd',
    '\\', 'u', 'D', 'e', '0', '0', '😀']

/-- The literal with its quotes. -/
def mixedLiteral : List Char :=
  '"' :: (mixedSource ++ ['"'])

/-- The code units of that literal. -/
def mixedUnits : List Nat :=
  [0x61, 0x2f, 0xe9, 0xd83d, 0xde00, 0xd83d, 0xde00]

theorem readString_json_mixedLiteral :
    IsJsonLiteral mixedLiteral mixedUnits ∧ Paired mixedUnits ∧
      ∀ rest, readString (mixedLiteral ++ rest) = .ok ("a/é😀😀", rest) := by
  have hdenotes : Denotes mixedSource mixedUnits :=
    .unescaped (c := 'a') (by decide) <| .short (c := '/') (by decide) <|
      .unit (i := 0) (j := 0) (k := 14) (l := 9) (by decide) (by decide) (by decide) (by decide) <|
      .unit (i := 13) (j := 8) (k := 3) (l := 13) (by decide) (by decide) (by decide) (by decide) <|
      .unit (i := 13) (j := 14) (k := 0) (l := 0) (by decide) (by decide) (by decide) (by decide) <|
      .unescaped (c := '😀') (by decide) .nil
  have hliteral : IsJsonLiteral mixedLiteral mixedUnits := ⟨mixedSource, rfl, hdenotes⟩
  have hpaired : Paired mixedUnits :=
    .single (by decide) <| .single (by decide) <| .single (by decide) <|
      .pair (by decide) (by decide) <| .pair (by decide) (by decide) .nil
  obtain ⟨text, -, honly, hread⟩ := readString_json hliteral hpaired
  have htext : "a/é😀😀" = text := honly _ (by decide)
  exact ⟨hliteral, hpaired, fun rest => htext ▸ (hread rest).1⟩

end ChatMarkup.Source

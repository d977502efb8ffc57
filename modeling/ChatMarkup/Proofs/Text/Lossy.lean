import ChatMarkup.Proofs.Text.Encoding

/-!
# Decoding in chunks is lossy decoding of the whole

* `Lossy`: what bytes become, said of encodings only: a character for its encoding, and elsewhere
  one replacement character for the longest bytes that an encoding starts with, or for one byte;
* `lossy_iff`: the decoder that takes all bytes at once follows it, and nothing else does;
* `decodeAll_append`: reading the carried bytes again before the next ones changes nothing;
* `decodeChunks_lossy`: however the bytes are cut into chunks, they become the same text, and what
  is carried between two chunks is the start of one character.
-/

namespace ChatMarkup.Utf8

/-! ## Lossy decoding -/

/-- The bytes that become one replacement character at the front of bytes. -/
structure Replaced (bad rest : List UInt8) : Prop where
  ne_nil : bad ≠ []
  no_char : ∀ c, ¬ String.utf8EncodeChar c <+: bad ++ rest
  one_or_begins : bad.length = 1 ∨ Begins bad
  longest : ∀ longer, longer <+: bad ++ rest → Begins longer → longer.length ≤ bad.length

/-- The text that bytes become. -/
inductive Lossy : List UInt8 → List Char → Prop where
  | nil : Lossy [] []
  | char (c : Char) {rest : List UInt8} {text : List Char} :
    Lossy rest text → Lossy (String.utf8EncodeChar c ++ rest) (c :: text)
  | replaced {bad rest : List UInt8} {text : List Char} :
    Replaced bad rest → Lossy rest text → Lossy (bad ++ rest) ('\ufffd' :: text)

theorem Replaced.length_le {bad rest bad' rest' : List UInt8} (h : Replaced bad rest)
    (h' : Replaced bad' rest') (heq : bad ++ rest = bad' ++ rest') : bad.length ≤ bad'.length := by
  rcases h.one_or_begins with hone | hbegins
  · rw [hone]
    exact List.length_pos_iff.mpr h'.ne_nil
  · exact h'.longest bad (heq ▸ List.prefix_append bad rest) hbegins

/-- How many bytes become one replacement character is settled by the bytes. -/
theorem Replaced.unique {bad rest bad' rest' : List UInt8} (h : Replaced bad rest)
    (h' : Replaced bad' rest') (heq : bad ++ rest = bad' ++ rest') : bad = bad' ∧ rest = rest' :=
  List.append_inj heq (Nat.le_antisymm (h.length_le h' heq) (h'.length_le h heq.symm))

theorem exists_front_char {bytes : List UInt8} {c : Char}
    (h : String.utf8EncodeChar c <+: bytes) : ∃ rest, front bytes = .char c rest := by
  obtain ⟨rest, rfl⟩ := h
  exact ⟨rest, front_char_iff.mpr rfl⟩

theorem replaced_of_front_incomplete {bytes : List UInt8} (h : front bytes = .incomplete) :
    Replaced bytes [] := by
  obtain ⟨hne, hbegins⟩ := front_incomplete_iff.mp h
  refine ⟨hne, fun c hc => ?_, .inr hbegins, fun longer hlonger _ => ?_⟩
  · rw [List.append_nil] at hc
    obtain ⟨rest, hrest⟩ := exists_front_char hc
    rw [h] at hrest
    cases hrest
  · simpa using hlonger.length_le

theorem replaced_of_front_invalid {bytes rest : List UInt8} (h : front bytes = .invalid rest) :
    ∃ bad, bytes = bad ++ rest ∧ Replaced bad rest := by
  obtain ⟨bad, rfl, hne, hbad, hmore⟩ := front_invalid h
  refine ⟨bad, rfl, hne, fun c hc => ?_, ?_, fun longer hlonger hbegins => ?_⟩
  · obtain ⟨rest', hrest⟩ := exists_front_char hc
    rw [h] at hrest
    cases hrest
  · exact hbad.imp_right fun hbad => (front_incomplete_iff.mp hbad).2
  · -- Anything longer has the byte that makes the bad bytes invalid.
    refine Nat.le_of_not_lt fun hlt => ?_
    obtain ⟨more, rfl⟩ : bad <+: longer :=
      List.prefix_of_prefix_length_le (List.prefix_append bad rest) hlonger (by omega)
    have hwithin : more <+: rest := (List.prefix_append_right_inj bad).mp hlonger
    have hnonempty : more ≠ [] := by
      rintro rfl
      simp at hlt
    have hfront : front (bad ++ more) = .incomplete :=
      front_incomplete_iff.mpr ⟨by simp [hne], hbegins⟩
    rw [hmore more ?_] at hfront
    · cases hfront
    · obtain ⟨byte, more, rfl⟩ := List.exists_cons_of_ne_nil hnonempty
      obtain ⟨rest, rfl⟩ := hwithin
      exact ⟨more, rfl⟩

/-! ## One character or replacement at a time -/

/-- Induction on what stands at the front of bytes. -/
@[elab_as_elim]
theorem front_induction {motive : List UInt8 → Prop} (nil : motive [])
    (char : ∀ bytes c rest, front bytes = .char c rest → motive rest → motive bytes)
    (invalid : ∀ bytes rest, front bytes = .invalid rest → motive rest → motive bytes)
    (incomplete : ∀ bytes, front bytes = .incomplete → motive bytes) (bytes : List UInt8) :
    motive bytes := by
  induction hlength : bytes.length using Nat.strongRecOn generalizing bytes with
  | _ n ih =>
    subst hlength
    cases h : front bytes with
    | done => exact eq_nil_of_front_done h ▸ nil
    | char c rest => exact char bytes c rest h (ih _ (length_lt_of_front_char h) rest rfl)
    | invalid rest => exact invalid bytes rest h (ih _ (length_lt_of_front_invalid h) rest rfl)
    | incomplete => exact incomplete bytes h

section

variable {bytes rest : List UInt8} {c : Char}

theorem validate_of_char (h : front bytes = .char c rest) :
    validate bytes = (c :: (validate rest).1, (validate rest).2) := by
  rw [validate]
  split <;> simp_all

theorem validate_of_invalid (h : front bytes = .invalid rest) :
    validate bytes = ([], .invalid rest) := by
  rw [validate]
  split <;> simp_all

theorem validate_of_incomplete (h : front bytes = .incomplete) :
    validate bytes = ([], .incomplete bytes) := by
  rw [validate]
  split <;> simp_all

theorem decodeAll_eq (bytes : List UInt8) :
    decodeAll bytes =
      match validate bytes with
      | (text, .done) => (text, [])
      | (text, .invalid rest) => (text ++ replacementChar :: (decodeAll rest).1, (decodeAll rest).2)
      | (text, .incomplete carried) => (text, carried) := by
  rw [decodeAll]
  split <;> simp_all

theorem lossy_eq (bytes : List UInt8) :
    lossy bytes =
      match validate bytes with
      | (text, .done) => text
      | (text, .invalid rest) => text ++ replacementChar :: lossy rest
      | (text, .incomplete _) => text ++ [replacementChar] := by
  rw [lossy]
  split <;> simp_all

theorem decodeAll_nil : decodeAll [] = ([], []) := by
  rw [decodeAll_eq, validate]
  rfl

theorem decodeAll_of_char (h : front bytes = .char c rest) :
    decodeAll bytes = (c :: (decodeAll rest).1, (decodeAll rest).2) := by
  rw [decodeAll_eq, validate_of_char h, decodeAll_eq rest]
  rcases validate rest with ⟨text, _ | _ | _⟩ <;> rfl

theorem decodeAll_of_invalid (h : front bytes = .invalid rest) :
    decodeAll bytes = (replacementChar :: (decodeAll rest).1, (decodeAll rest).2) := by
  rw [decodeAll_eq, validate_of_invalid h]
  rfl

theorem decodeAll_of_incomplete (h : front bytes = .incomplete) : decodeAll bytes = ([], bytes) := by
  rw [decodeAll_eq, validate_of_incomplete h]

theorem lossy_nil : lossy [] = [] := by
  rw [lossy_eq, validate]
  rfl

theorem lossy_of_char (h : front bytes = .char c rest) : lossy bytes = c :: lossy rest := by
  rw [lossy_eq, validate_of_char h, lossy_eq rest]
  rcases validate rest with ⟨text, _ | _ | _⟩ <;> rfl

theorem lossy_of_invalid (h : front bytes = .invalid rest) :
    lossy bytes = replacementChar :: lossy rest := by
  rw [lossy_eq, validate_of_invalid h]
  rfl

theorem lossy_of_incomplete (h : front bytes = .incomplete) : lossy bytes = [replacementChar] := by
  rw [lossy_eq, validate_of_incomplete h]
  rfl

end

/-! ## The decoder that takes all bytes at once -/

theorem lossy_lossy (bytes : List UInt8) : Lossy bytes (lossy bytes) := by
  induction bytes using front_induction with
  | nil => exact lossy_nil ▸ .nil
  | char bytes c rest h ih =>
    rw [lossy_of_char h, front_char_iff.mp h]
    exact .char c ih
  | invalid bytes rest h ih =>
    obtain ⟨bad, rfl, hbad⟩ := replaced_of_front_invalid h
    rw [lossy_of_invalid h]
    exact .replaced hbad ih
  | incomplete bytes h =>
    rw [lossy_of_incomplete h, ← List.append_nil bytes]
    exact .replaced (replaced_of_front_incomplete h) .nil

theorem lossy_replaced {bad rest : List UInt8} (h : Replaced bad rest) :
    lossy (bad ++ rest) = replacementChar :: lossy rest := by
  cases hfront : front (bad ++ rest) with
  | done => exact absurd (List.append_eq_nil_iff.mp (eq_nil_of_front_done hfront)).1 h.ne_nil
  | char c rest' => exact absurd ⟨rest', (front_char_iff.mp hfront).symm⟩ (h.no_char c)
  | invalid rest' =>
    obtain ⟨bad', heq, hbad'⟩ := replaced_of_front_invalid hfront
    rw [lossy_of_invalid hfront, (h.unique hbad' heq).2]
  | incomplete =>
    have hall := replaced_of_front_incomplete hfront
    rw [lossy_of_incomplete hfront, (h.unique hall (List.append_nil _).symm).2, lossy_nil]

theorem Lossy.eq_lossy {bytes : List UInt8} {text : List Char} (h : Lossy bytes text) :
    text = lossy bytes := by
  induction h with
  | nil => rw [lossy_nil]
  | char c _ ih => rw [lossy_of_char (front_char_iff.mpr rfl), ← ih]
  | replaced hbad _ ih =>
    rw [lossy_replaced hbad, ← ih]
    rfl

theorem lossy_iff (bytes : List UInt8) (text : List Char) :
    Lossy bytes text ↔ text = lossy bytes :=
  ⟨Lossy.eq_lossy, fun h => h ▸ lossy_lossy bytes⟩

/-! ## The decoder that takes chunks -/

theorem decodeAll_append (bytes more : List UInt8) :
    decodeAll (bytes ++ more) =
      ((decodeAll bytes).1 ++ (decodeAll ((decodeAll bytes).2 ++ more)).1,
        (decodeAll ((decodeAll bytes).2 ++ more)).2) := by
  induction bytes using front_induction with
  | nil => simp [decodeAll_nil]
  | char bytes c rest h ih =>
    rw [decodeAll_of_char (front_append_char h more), decodeAll_of_char h, ih]
    rfl
  | invalid bytes rest h ih =>
    rw [decodeAll_of_invalid (front_append_invalid h more), decodeAll_of_invalid h, ih]
    rfl
  | incomplete bytes h => simp [decodeAll_of_incomplete h]

/-- What is carried is the start of one character. -/
theorem begins_decodeAll (bytes : List UInt8) : Begins (decodeAll bytes).2 := by
  induction bytes using front_induction with
  | nil => exact decodeAll_nil ▸ ⟨'a', [0x61], by simp, rfl⟩
  | char bytes c rest h ih => rwa [decodeAll_of_char h]
  | invalid bytes rest h ih => rwa [decodeAll_of_invalid h]
  | incomplete bytes h => exact decodeAll_of_incomplete h ▸ (front_incomplete_iff.mp h).2

/-- The end of the bytes adds what the carried ones become. -/
theorem lossy_eq_decodeAll_flush (bytes : List UInt8) :
    lossy bytes = (decodeAll bytes).1 ++ flush (decodeAll bytes).2 := by
  induction bytes using front_induction with
  | nil => rw [decodeAll_nil, flush, List.nil_append]
  | char bytes c rest h ih => rw [lossy_of_char h, decodeAll_of_char h, ih, List.cons_append]
  | invalid bytes rest h ih => rw [lossy_of_invalid h, decodeAll_of_invalid h, ih, List.cons_append]
  | incomplete bytes h => rw [decodeAll_of_incomplete h, flush, List.nil_append]

/-- Takes chunks one after the other: what they become together, and what is carried on. -/
def decodeChunks (carried : List UInt8) : List (List UInt8) → List Char × List UInt8
  | [] => ([], carried)
  | chunk :: chunks =>
    let (text, carried) := decode carried chunk
    let (others, carried) := decodeChunks carried chunks
    (text ++ others, carried)

theorem decodeChunks_eq (before : List UInt8) (chunks : List (List UInt8)) :
    decodeAll (before ++ chunks.flatten) =
      ((decodeAll before).1 ++ (decodeChunks (decodeAll before).2 chunks).1,
        (decodeChunks (decodeAll before).2 chunks).2) := by
  induction chunks generalizing before with
  | nil => simp [decodeChunks]
  | cons chunk chunks ih =>
    rw [List.flatten_cons, ← List.append_assoc, ih, decodeAll_append before chunk, decodeChunks,
      decode, List.append_assoc]

theorem decodeChunks_nil (chunks : List (List UInt8)) :
    decodeChunks [] chunks = decodeAll chunks.flatten := by
  have h := decodeChunks_eq [] chunks
  rw [decodeAll_nil] at h
  exact h.symm

/-- However bytes are cut into chunks, they become the text that they become at once, which is the
only one that lossy decoding allows. After each chunk, what is carried are at most three bytes that
the encoding of some character starts with and goes on. -/
theorem decodeChunks_lossy (chunks : List (List UInt8)) :
    (decodeChunks [] chunks).1 ++ flush (decodeChunks [] chunks).2 = lossy chunks.flatten ∧
      (∀ text, Lossy chunks.flatten text ↔ text = lossy chunks.flatten) ∧
      ∀ n, (decodeChunks [] (chunks.take n)).2.length ≤ 3 ∧
        Begins (decodeChunks [] (chunks.take n)).2 := by
  refine ⟨?_, lossy_iff chunks.flatten, fun n => ?_⟩
  · rw [decodeChunks_nil, ← lossy_eq_decodeAll_flush]
  · rw [decodeChunks_nil]
    have hbegins := begins_decodeAll (chunks.take n).flatten
    exact ⟨hbegins.length_le, hbegins⟩

/-- Each of an unfinished character, the first byte of a surrogate and its second is replaced. -/
example : (decodeChunks [] [[0x61, 0xf0], [0x90, 0xed], [], [0xa0, 0x62]]).1 =
    ['a', replacementChar, replacementChar, replacementChar, 'b'] := by decide +kernel

end ChatMarkup.Utf8

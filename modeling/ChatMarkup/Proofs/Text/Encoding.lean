import ChatMarkup.Text.Decoder

/-!
# The front of bytes and the encodings of characters

What `Utf8.front` finds, against the encoding of each character, `String.utf8EncodeChar`:

* `front_char_iff`: it finds a character exactly where the bytes start with its encoding;
* `front_incomplete_iff`: it finds bytes incomplete exactly if some encoding starts with them and
  goes on;
* `front_append_char`, `front_append_invalid`: more bytes at the end change nothing else.
-/

namespace ChatMarkup.Utf8

/-! ## Bytes as numbers -/

theorem lengthFrom_spec (lead : UInt8) :
    (lengthFrom lead = 1 ↔ lead.toNat < 0x80) ∧
      (lengthFrom lead = 2 ↔ 0xc2 ≤ lead.toNat ∧ lead.toNat ≤ 0xdf) ∧
      (lengthFrom lead = 3 ↔ 0xe0 ≤ lead.toNat ∧ lead.toNat ≤ 0xef) ∧
      (lengthFrom lead = 4 ↔ 0xf0 ≤ lead.toNat ∧ lead.toNat ≤ 0xf4) ∧
      lengthFrom lead ≤ 4 := by
  simp only [lengthFrom, UInt8.lt_iff_toNat_lt, UInt8.le_iff_toNat_le, Bool.and_eq_true,
    decide_eq_true_eq, UInt8.reduceToNat]
  repeat' split
  all_goals omega

theorem isContinuation_iff (byte : UInt8) :
    isContinuation byte = true ↔ 0x80 ≤ byte.toNat ∧ byte.toNat ≤ 0xbf := by
  simp [isContinuation, UInt8.le_iff_toNat_le]

theorem isSecond_iff (lead byte : UInt8) :
    isSecond lead byte = true ↔
      (0x80 ≤ byte.toNat ∧ byte.toNat ≤ 0xbf) ∧
        (lead.toNat ≠ 0xe0 ∨ 0xa0 ≤ byte.toNat) ∧ (lead.toNat ≠ 0xed ∨ byte.toNat ≤ 0x9f) ∧
        (lead.toNat ≠ 0xf0 ∨ 0x90 ≤ byte.toNat) ∧ (lead.toNat ≠ 0xf4 ∨ byte.toNat ≤ 0x8f) := by
  simp [isSecond, isContinuation_iff, UInt8.le_iff_toNat_le, ← UInt8.toNat_inj, and_assoc]

/-! ## Bytes of a character -/

/-- Each of the bytes continues the character of those before it. -/
def Follows : List UInt8 → List UInt8 → Prop
  | _, [] => True
  | taken, byte :: more => continues taken byte = true ∧ Follows (taken ++ [byte]) more

theorem scan_of_follows {taken more : List UInt8} (h : Follows taken more) (missing : Nat)
    (rest : List UInt8) :
    scan taken (more.length + missing) (more ++ rest) = scan (taken ++ more) missing rest := by
  induction more generalizing taken with
  | nil => simp
  | cons byte more ih =>
    obtain ⟨hbyte, hmore⟩ := h
    rw [List.length_cons, Nat.succ_add, List.cons_append, scan, if_pos hbyte, ih hmore,
      List.append_assoc, List.singleton_append]

theorem exists_follows_of_scan_char {taken bytes rest : List UInt8} {missing : Nat} {c : Char}
    (h : scan taken missing bytes = .char c rest) :
    ∃ more, bytes = more ++ rest ∧ more.length = missing ∧ Follows taken more ∧
      c = charOf (taken ++ more) := by
  fun_induction scan taken missing bytes with
  | case1 taken bytes =>
    obtain ⟨rfl, rfl⟩ := Front.char.inj h
    exact ⟨[], rfl, rfl, trivial, by simp⟩
  | case2 => cases h
  | case3 taken missing byte bytes hbyte ih =>
    obtain ⟨more, rfl, rfl, hmore, rfl⟩ := ih h
    exact ⟨byte :: more, rfl, rfl, ⟨hbyte, hmore⟩, by simp⟩
  | case4 => cases h

/-- The bytes are those of one character. -/
def WellFormed : List UInt8 → Prop
  | [] => False
  | lead :: more => lengthFrom lead = more.length + 1 ∧ Follows [lead] more

theorem front_of_wellFormed {bytes : List UInt8} (h : WellFormed bytes) (rest : List UInt8) :
    front (bytes ++ rest) = .char (charOf bytes) rest := by
  cases bytes with
  | nil => exact h.elim
  | cons lead more =>
    obtain ⟨hlength, hmore⟩ := h
    rw [List.cons_append, front, hlength]
    show scan [lead] (more.length + 0) (more ++ rest) = .char (charOf ([lead] ++ more)) rest
    rw [scan_of_follows hmore, scan]

theorem wellFormed_of_front_char {bytes rest : List UInt8} {c : Char}
    (h : front bytes = .char c rest) :
    ∃ first, bytes = first ++ rest ∧ WellFormed first ∧ c = charOf first := by
  cases bytes with
  | nil => cases h
  | cons lead bytes =>
    simp only [front] at h
    split at h
    · cases h
    · rename_i hlength
      obtain ⟨more, rfl, rfl, hmore, rfl⟩ := exists_follows_of_scan_char h
      exact ⟨lead :: more, rfl, ⟨hlength, hmore⟩, rfl⟩

/-! ## The encoding of a character -/

theorem val_ofNat {n : Nat} (h : n.isValidChar) : (Char.ofNat n).val.toNat = n := by
  rw [Char.ofNat, dif_pos h]
  rfl

theorem leadBits_eq (lead : UInt8) :
    leadBits lead =
      if lead.toNat < 0xe0 then lead.toNat - 0xc0
      else if lead.toNat < 0xf0 then lead.toNat - 0xe0
      else lead.toNat - 0xf0 := by
  simp [leadBits, UInt8.lt_iff_toNat_lt]

theorem encode_one {a : UInt8} (h : WellFormed [a]) :
    String.utf8EncodeChar (charOf [a]) = [a] := by
  have ha := lengthFrom_spec a
  have hlength : lengthFrom a = 1 := h.1
  have hval : (charOf [a]).val.toNat = a.toNat := val_ofNat (.inl (by omega))
  simp only [String.utf8EncodeChar, hval]
  rw [if_pos (by omega), UInt8.ofNat_toNat]

theorem encode_two {a b : UInt8} (h : WellFormed [a, b]) :
    String.utf8EncodeChar (charOf [a, b]) = [a, b] := by
  have ha := lengthFrom_spec a
  have hlength : lengthFrom a = 2 := h.1
  have hb := (isSecond_iff a b).mp h.2.1
  have hval : (charOf [a, b]).val.toNat = (a.toNat - 0xc0) * 64 + (b.toNat - 0x80) := by
    simp only [charOf, List.foldl, leadBits_eq]
    rw [if_pos (by omega)]
    exact val_ofNat (.inl (by omega))
  simp only [String.utf8EncodeChar, hval]
  rw [if_neg (by omega), if_pos (by omega)]
  simp only [List.cons.injEq, ← UInt8.toNat_inj, UInt8.toNat_ofNat', and_true]
  omega

theorem encode_three {a b c : UInt8} (h : WellFormed [a, b, c]) :
    String.utf8EncodeChar (charOf [a, b, c]) = [a, b, c] := by
  have ha := lengthFrom_spec a
  have hlength : lengthFrom a = 3 := h.1
  have hb := (isSecond_iff a b).mp h.2.1
  have hc := (isContinuation_iff c).mp h.2.2.1
  have hval : (charOf [a, b, c]).val.toNat =
      ((a.toNat - 0xe0) * 64 + (b.toNat - 0x80)) * 64 + (c.toNat - 0x80) := by
    simp only [charOf, List.foldl, leadBits_eq]
    rw [if_neg (by omega), if_pos (by omega)]
    -- The second byte rules out the surrogates.
    exact val_ofNat (by rw [Nat.isValidChar]; omega)
  simp only [String.utf8EncodeChar, hval]
  rw [if_neg (by omega), if_neg (by omega), if_pos (by omega)]
  simp only [List.cons.injEq, ← UInt8.toNat_inj, UInt8.toNat_ofNat', and_true]
  omega

theorem encode_four {a b c d : UInt8} (h : WellFormed [a, b, c, d]) :
    String.utf8EncodeChar (charOf [a, b, c, d]) = [a, b, c, d] := by
  have ha := lengthFrom_spec a
  have hlength : lengthFrom a = 4 := h.1
  have hb := (isSecond_iff a b).mp h.2.1
  have hc := (isContinuation_iff c).mp h.2.2.1
  have hd := (isContinuation_iff d).mp h.2.2.2.1
  have hval : (charOf [a, b, c, d]).val.toNat =
      (((a.toNat - 0xf0) * 64 + (b.toNat - 0x80)) * 64 + (c.toNat - 0x80)) * 64 +
        (d.toNat - 0x80) := by
    simp only [charOf, List.foldl, leadBits_eq]
    rw [if_neg (by omega), if_neg (by omega)]
    exact val_ofNat (.inr (by omega))
  simp only [String.utf8EncodeChar, hval]
  rw [if_neg (by omega), if_neg (by omega), if_neg (by omega)]
  simp only [List.cons.injEq, ← UInt8.toNat_inj, UInt8.toNat_ofNat', and_true]
  omega

theorem encode_charOf {bytes : List UInt8} (h : WellFormed bytes) :
    String.utf8EncodeChar (charOf bytes) = bytes := by
  match bytes with
  | [] => exact h.elim
  | [a] => exact encode_one h
  | [a, b] => exact encode_two h
  | [a, b, c] => exact encode_three h
  | [a, b, c, d] => exact encode_four h
  | a :: b :: c :: d :: e :: more =>
    have ha := lengthFrom_spec a
    have hlength : lengthFrom a = more.length + 5 := h.1
    omega

theorem wellFormed_encode (c : Char) : WellFormed (String.utf8EncodeChar c) := by
  have hvalid : c.val.toNat < 0xd800 ∨ 0xdfff < c.val.toNat ∧ c.val.toNat < 0x110000 := c.valid
  simp only [String.utf8EncodeChar]
  generalize c.val.toNat = v at hvalid
  repeat' split
  all_goals
    simp only [WellFormed, Follows, continues, isSecond_iff, isContinuation_iff, List.length,
      List.nil_append, List.cons_append, UInt8.toNat_ofNat', and_true]
  · have hlead := lengthFrom_spec (UInt8.ofNat v)
    rw [UInt8.toNat_ofNat'] at hlead
    omega
  · have hlead := lengthFrom_spec (UInt8.ofNat (v / 64 % 0x20 + 0xc0))
    rw [UInt8.toNat_ofNat'] at hlead
    omega
  · have hlead := lengthFrom_spec (UInt8.ofNat (v / 4096 % 0x10 + 0xe0))
    rw [UInt8.toNat_ofNat'] at hlead
    omega
  · have hlead := lengthFrom_spec (UInt8.ofNat (v / 262144 % 0x08 + 0xf0))
    rw [UInt8.toNat_ofNat'] at hlead
    omega

theorem utf8EncodeChar_inj {c c' : Char}
    (h : String.utf8EncodeChar c = String.utf8EncodeChar c') : c = c' := by
  have hc := ByteArray.utf8DecodeChar?_utf8EncodeChar_append (b := .empty) (c := c)
  rw [h, ByteArray.utf8DecodeChar?_utf8EncodeChar_append] at hc
  exact (Option.some.inj hc).symm

theorem scan_ne_done (taken : List UInt8) (missing : Nat) (bytes : List UInt8) :
    scan taken missing bytes ≠ .done := by
  fun_induction scan taken missing bytes with
  | case1 | case2 | case4 => simp
  | case3 taken missing byte bytes _ ih => exact ih

theorem eq_nil_of_front_done {bytes : List UInt8} (h : front bytes = .done) : bytes = [] := by
  cases bytes with
  | nil => rfl
  | cons lead bytes =>
    simp only [front] at h
    split at h
    · cases h
    · exact absurd h (scan_ne_done _ _ _)

theorem front_char_iff {bytes rest : List UInt8} {c : Char} :
    front bytes = .char c rest ↔ bytes = String.utf8EncodeChar c ++ rest := by
  constructor
  · intro h
    obtain ⟨first, rfl, hfirst, rfl⟩ := wellFormed_of_front_char h
    rw [encode_charOf hfirst]
  · rintro rfl
    have hc := wellFormed_encode c
    rw [front_of_wellFormed hc, utf8EncodeChar_inj (encode_charOf hc)]

theorem front_append_char {bytes rest : List UInt8} {c : Char} (h : front bytes = .char c rest)
    (more : List UInt8) : front (bytes ++ more) = .char c (rest ++ more) := by
  rw [front_char_iff] at h ⊢
  rw [h, List.append_assoc]

/-! ## Bytes that no character starts with -/

theorem scan_invalid {taken bytes rest : List UInt8} {missing : Nat}
    (h : scan taken missing bytes = .invalid rest) :
    ∃ good byte, bytes = good ++ rest ∧ rest.head? = some byte ∧
      scan taken missing good = .incomplete ∧
      ∀ more, scan taken missing (good ++ byte :: more) = .invalid (byte :: more) := by
  fun_induction scan taken missing bytes with
  | case1 => cases h
  | case2 => cases h
  | case3 taken missing byte bytes hbyte ih =>
    obtain ⟨good, bad, rfl, hhead, hgood, hbad⟩ := ih h
    refine ⟨byte :: good, bad, rfl, hhead, ?_, fun more => ?_⟩
    · rw [scan, if_pos hbyte, hgood]
    · rw [List.cons_append, scan, if_pos hbyte, hbad]
  | case4 taken missing byte bytes hbyte =>
    obtain rfl := Front.invalid.inj h
    exact ⟨[], byte, rfl, rfl, by rw [scan], fun more => by rw [List.nil_append, scan, if_neg hbyte]⟩

/-- Invalid bytes are one byte or the bytes of an unfinished character, and what makes them invalid
is the byte after them, if any. -/
theorem front_invalid {bytes rest : List UInt8} (h : front bytes = .invalid rest) :
    ∃ bad, bytes = bad ++ rest ∧ bad ≠ [] ∧ (bad.length = 1 ∨ front bad = .incomplete) ∧
      ∀ more, rest.take 1 <+: more → front (bad ++ more) = .invalid more := by
  cases bytes with
  | nil => cases h
  | cons lead bytes =>
    simp only [front] at h
    split at h
    · rename_i hlength
      obtain rfl := Front.invalid.inj h
      refine ⟨[lead], rfl, by simp, .inl rfl, fun more _ => ?_⟩
      simp only [List.singleton_append, front, hlength]
    · rename_i missing hlength
      obtain ⟨good, byte, rfl, hhead, hgood, hbad⟩ := scan_invalid h
      obtain ⟨rest, rfl⟩ := List.head?_eq_some_iff.mp hhead
      refine ⟨lead :: good, rfl, by simp, .inr ?_, fun more hmore => ?_⟩
      · simp only [front, hlength, hgood]
      · obtain ⟨more, rfl⟩ := hmore
        rw [List.take_succ_cons, List.take_zero, List.singleton_append]
        simpa only [List.cons_append, front, hlength] using hbad more

theorem front_append_invalid {bytes rest : List UInt8} (h : front bytes = .invalid rest)
    (more : List UInt8) : front (bytes ++ more) = .invalid (rest ++ more) := by
  obtain ⟨bad, rfl, -, -, hbad⟩ := front_invalid h
  rw [List.append_assoc]
  have hfirst : rest.take 1 <+: rest ++ more :=
    .trans ( List.take_prefix 1 rest) (List.prefix_append rest more)
  exact hbad _ hfirst

/-! ## Bytes of an unfinished character -/

theorem exists_continues (taken : List UInt8) : ∃ byte, continues taken byte = true := by
  rcases taken with _ | ⟨lead, _ | ⟨second, taken⟩⟩
  · exact ⟨0x80, rfl⟩
  · by_cases he : lead = 0xe0
    · exact ⟨0xa0, by rw [he]; rfl⟩
    · by_cases hf : lead = 0xf0
      · exact ⟨0x90, by rw [hf]; rfl⟩
      · exact ⟨0x80, by simp [continues, isSecond, isContinuation, he, hf]⟩
  · exact ⟨0x80, rfl⟩

theorem exists_follows (taken : List UInt8) (missing : Nat) :
    ∃ more, more.length = missing ∧ Follows taken more := by
  induction missing generalizing taken with
  | zero => exact ⟨[], rfl, trivial⟩
  | succ missing ih =>
    obtain ⟨byte, hbyte⟩ := exists_continues taken
    obtain ⟨more, rfl, hmore⟩ := ih (taken ++ [byte])
    exact ⟨byte :: more, rfl, hbyte, hmore⟩

theorem exists_completion {taken bytes : List UInt8} {missing : Nat}
    (h : scan taken missing bytes = .incomplete) :
    ∃ c more, more ≠ [] ∧ scan taken missing (bytes ++ more) = .char c [] := by
  fun_induction scan taken missing bytes with
  | case1 => cases h
  | case2 taken missing =>
    obtain ⟨more, hlength, hmore⟩ := exists_follows taken (missing + 1)
    refine ⟨charOf (taken ++ more), more, List.ne_nil_of_length_eq_add_one hlength, ?_⟩
    have hscan := scan_of_follows hmore 0 []
    rwa [Nat.add_zero, hlength, List.append_nil, scan] at hscan
  | case3 taken missing byte bytes hbyte ih =>
    obtain ⟨c, more, hmore, hscan⟩ := ih h
    exact ⟨c, more, hmore, by rw [List.cons_append, scan, if_pos hbyte, hscan]⟩
  | case4 => cases h

/-- The encoding of some character starts with these bytes and goes on. -/
def Begins (bytes : List UInt8) : Prop :=
  ∃ c more, more ≠ [] ∧ String.utf8EncodeChar c = bytes ++ more

theorem front_incomplete_iff {bytes : List UInt8} :
    front bytes = .incomplete ↔ bytes ≠ [] ∧ Begins bytes := by
  constructor
  · intro h
    cases bytes with
    | nil => cases h
    | cons lead bytes =>
      refine ⟨List.cons_ne_nil lead bytes, ?_⟩
      simp only [front] at h
      split at h
      · cases h
      · rename_i missing hlength
        obtain ⟨c, more, hmore, hscan⟩ := exists_completion h
        have hfront : front (lead :: bytes ++ more) = .char c [] := by
          simpa only [List.cons_append, front, hlength] using hscan
        exact ⟨c, more, hmore, by simpa using (front_char_iff.mp hfront).symm⟩
  · rintro ⟨hne, c, more, hmore, hc⟩
    have hfront : front (bytes ++ more) = .char c [] := by
      rw [front_char_iff, hc, List.append_nil]
    cases h : front bytes with
    | done => exact absurd (eq_nil_of_front_done h) hne
    | char c' rest =>
      rw [front_append_char h] at hfront
      exact absurd (List.append_eq_nil_iff.mp (Front.char.inj hfront).2).2 hmore
    | invalid rest =>
      rw [front_append_invalid h] at hfront
      cases hfront
    | incomplete => rfl

/-- At most three bytes are of an unfinished character. -/
theorem Begins.length_le {bytes : List UInt8} (h : Begins bytes) : bytes.length ≤ 3 := by
  obtain ⟨c, more, hmore, hc⟩ := h
  have hlength := congrArg List.length hc
  rw [String.length_utf8EncodeChar, List.length_append] at hlength
  have hfour := c.utf8Size_le_four
  have hpos := List.length_pos_iff.mpr hmore
  omega

end ChatMarkup.Utf8

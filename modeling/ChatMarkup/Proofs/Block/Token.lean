import ChatMarkup.Block.Key
import ChatMarkup.Source.Literal
import Mathlib.Logic.Function.Defs

/-!
# What a token tells of its key

The token of a key is a 64-bit hash and a number. The number is told in full, and so is the hash, so
that two tokens are equal exactly if both are. A hash of 64 bits cannot tell all texts apart: where
two keys have one token, two texts have one hash. But no step of the hash loses anything of the word
before it or of its byte, and so texts that differ in one byte only have different hashes.

* `readHex_hexWord`: a word is read back from its digits;
* `token_eq_iff`: what two keys with the same token have in common;
* `hashBytes_ne_of_oneByteApart`: what the hash always tells apart;
* `message_inj`: the text that is hashed tells the language and the code, where the language has no
  zero character.
-/

namespace ChatMarkup

theorem utf8Bytes_injective : Function.Injective utf8Bytes := by
  intro text other h
  have hbytes : (String.ofList text.toList).toByteArray =
      (String.ofList other.toList).toByteArray := congrArg List.toByteArray h
  rwa [String.toByteArray_inj, String.ofList_toList, String.ofList_toList] at hbytes

namespace BlockKey

/-! ## The text that is hashed -/

/-- A language and a code that the zero byte between them tells apart. -/
def IsSeparated (key : BlockKey) : Prop :=
  '\x00' ∉ key.lang.toList

instance (key : BlockKey) : Decidable key.IsSeparated :=
  inferInstanceAs (Decidable (_ ∉ _))

theorem message_eq (key : BlockKey) : key.message = utf8Bytes (key.lang ++ "\x00" ++ key.code) := by
  rw [message, utf8Bytes, utf8Bytes, utf8Bytes, String.toList_append, String.toList_append,
    List.flatMap_append, List.flatMap_append, List.append_assoc]
  rfl

theorem takeWhile_separated {key : BlockKey} (h : key.IsSeparated) :
    (key.lang ++ "\x00" ++ key.code).toList.takeWhile (· ≠ '\x00') = key.lang.toList := by
  have hlang : ∀ c ∈ key.lang.toList, decide (c ≠ '\x00') = true := fun c hc =>
    decide_eq_true fun hzero => h (hzero ▸ hc)
  rw [String.toList_append, String.toList_append, List.append_assoc,
    List.takeWhile_append_of_pos hlang]
  exact List.append_nil key.lang.toList

theorem message_inj {key other : BlockKey} (hkey : key.IsSeparated) (hother : other.IsSeparated) :
    key.message = other.message ↔ key.lang = other.lang ∧ key.code = other.code := by
  refine ⟨fun h => ?_, fun h => by rw [message, message, h.1, h.2]⟩
  rw [message_eq, message_eq] at h
  have htext := utf8Bytes_injective h
  have hlang : key.lang = other.lang := by
    apply String.toList_inj.mp
    rw [← takeWhile_separated hkey, htext, takeWhile_separated hother]
  rw [hlang] at htext
  have hchars := congrArg String.toList htext
  simp only [String.toList_append] at hchars
  exact ⟨hlang, String.toList_inj.mp (List.append_cancel_left hchars)⟩

/-! ## The hash -/

/-- What `absorb` multiplies by has an inverse. -/
theorem prime_mul_inverse : (0x100000001b3 : UInt64) * 0xce965057aff6957b = 1 := by
  decide

theorem mul_prime_injective : Function.Injective fun word : UInt64 => word * 0x100000001b3 := by
  intro word other h
  have hback := congrArg (fun product => product * 0xce965057aff6957b) h
  simpa only [UInt64.mul_assoc, prime_mul_inverse, UInt64.mul_one] using hback

/-- A step of the hash loses nothing of the word before it. -/
theorem absorb_injective (byte : UInt8) : Function.Injective fun hash => absorb hash byte := by
  intro hash other h
  exact (UInt64.xor_left_inj byte.toUInt64).mp (mul_prime_injective h)

/-- A step of the hash loses nothing of its byte. -/
theorem absorb_byte_injective (hash : UInt64) : Function.Injective (absorb hash) := by
  intro byte other h
  exact UInt8.toUInt64_inj.mp ((UInt64.xor_right_inj hash).mp (mul_prime_injective h))

theorem foldl_absorb_injective (bytes : List UInt8) :
    Function.Injective fun hash => bytes.foldl absorb hash := by
  intro hash other h
  induction bytes generalizing hash other with
  | nil => exact h
  | cons byte bytes ih => exact absorb_injective byte (ih h)

/-- Texts of the same length that differ in one byte. -/
def OneByteApart (bytes others : List UInt8) : Prop :=
  ∃ front byte other back, byte ≠ other ∧ bytes = front ++ byte :: back ∧
    others = front ++ other :: back

/-- The hash tells apart what differs in one byte. -/
theorem hashBytes_ne_of_oneByteApart {bytes others : List UInt8} (h : OneByteApart bytes others) :
    hashBytes bytes ≠ hashBytes others := by
  obtain ⟨front, byte, other, back, hne, rfl, rfl⟩ := h
  intro heq
  simp only [hashBytes, List.foldl_append, List.foldl_cons] at heq
  exact hne (absorb_byte_injective _ (foldl_absorb_injective back heq))

/-! ## Tokens -/

theorem hexDigit?_digitChar {k : Nat} (hk : k < 16) :
    Source.hexDigit? (Nat.digitChar k) = some k := by
  decide +revert

theorem readHex_toDigits (n count : Nat) (rest : List Char) :
    Source.readHex ((Nat.toDigits 16 n).length + count) 0 (Nat.toDigits 16 n ++ rest) =
      Source.readHex count n rest := by
  induction n using Nat.strongRecOn generalizing count rest with
  | ind n ih =>
    rw [Nat.toDigits_eq_if (by decide)]
    split
    · rename_i hlt
      rw [List.length_singleton, Nat.add_comm, List.singleton_append, Source.readHex,
        hexDigit?_digitChar hlt]
      simp
    · rename_i hge
      have hlast : n % 16 < 16 := Nat.mod_lt n (by decide)
      rw [List.length_append, List.length_singleton, Nat.add_assoc, List.append_assoc,
        ih _ (Nat.div_lt_self (by omega) (by decide)), Nat.add_comm 1, List.singleton_append,
        Source.readHex, hexDigit?_digitChar hlast]
      simp only [Nat.div_add_mod]

theorem readHex_replicate_zero (zeros count : Nat) (rest : List Char) :
    Source.readHex (zeros + count) 0 (List.replicate zeros '0' ++ rest) =
      Source.readHex count 0 rest := by
  induction zeros with
  | zero => simp
  | succ zeros ih =>
    rw [Nat.succ_add, List.replicate_succ, List.cons_append, Source.readHex]
    exact ih

theorem length_toDigits_le (word : UInt64) : (Nat.toDigits 16 word.toNat).length ≤ 16 :=
  (Nat.length_toDigits_le_iff (by decide) (by decide)).mpr word.toNat_lt

theorem length_hexWord (word : UInt64) : (hexWord word).toList.length = 16 := by
  have hle := length_toDigits_le word
  rw [hexWord, String.toList_ofList, List.length_append, List.length_replicate]
  omega

/-- A word is read back from its digits. -/
theorem readHex_hexWord (word : UInt64) :
    Source.readHex 16 0 (hexWord word).toList = .ok (word.toNat, []) := by
  have hle := length_toDigits_le word
  obtain ⟨zeros, hzeros⟩ := Nat.exists_eq_add_of_le' hle
  calc Source.readHex 16 0 (hexWord word).toList
    _ = Source.readHex (zeros + ((Nat.toDigits 16 word.toNat).length + 0)) 0
          (List.replicate zeros '0' ++ (Nat.toDigits 16 word.toNat ++ [])) := by
        rw [hexWord, String.toList_ofList, List.append_nil, Nat.add_zero, ← hzeros,
          Nat.sub_eq_of_eq_add hzeros]
    _ = Source.readHex 0 word.toNat [] := by rw [readHex_replicate_zero, readHex_toDigits]

theorem hexWord_injective : Function.Injective hexWord := by
  intro word other h
  have hread := readHex_hexWord word
  rw [h, readHex_hexWord] at hread
  exact (UInt64.toNat_inj.mp (Prod.ext_iff.mp (Except.ok.inj hread)).1).symm

theorem toString_injective : Function.Injective fun n : Nat => toString n := by
  intro n other h
  have hdigits : Nat.toDigits 10 n = Nat.toDigits 10 other := String.ofList_inj.mp h
  rw [← Nat.ofDigitChars_ten_toDigits (n := n), hdigits, Nat.ofDigitChars_ten_toDigits]

theorem token_eq_iff (key other : BlockKey) :
    key.token = other.token ↔
      key.occurrence = other.occurrence ∧ hashBytes key.message = hashBytes other.message := by
  refine ⟨fun h => ?_, fun h => by rw [token, token, h.1, h.2]⟩
  have hchars := congrArg String.toList h
  simp only [token, String.toList_append, List.append_assoc] at hchars
  obtain ⟨hword, hnumber⟩ := List.append_inj hchars (by rw [length_hexWord, length_hexWord])
  obtain ⟨-, hcount⟩ := List.append_inj hnumber rfl
  exact ⟨toString_injective (String.toList_inj.mp hcount),
    hexWord_injective (String.toList_inj.mp hword)⟩

end BlockKey

end ChatMarkup

import ChatMarkup.Proofs.Source.Grammar

/-!
# Source that goes on

A reader that has come to its end looks at nothing behind it, unless what it read was a name or a
numeral and the source ended there. So an attribute list that was read with nothing behind it is
read in the same way in front of any source.

* `readStringTail_extend`: a string ends by itself;
* `readAttribute_extend`: an attribute with source behind it ends where it did;
* `readAttributes_extend`: an attribute list ends by itself.
-/

namespace ChatMarkup.Source

/-! ## Trivia -/

/-- A comment that opens opens also in a longer source. -/
theorem opens_extend {c : Char} {cs : List Char}
    (h : (c = '/' && cs.head? = some '/') = true) (more : List Char) :
    (c = '/' && (cs ++ more).head? = some '/') = true := by
  simp only [Bool.and_eq_true, decide_eq_true_eq] at h ⊢
  exact ⟨h.1, by simp [List.head?_append, h.2]⟩

theorem skipTriviaFrom_extend {inComment : Bool} {c : Char} {cs rest : List Char} (hslash : c ≠ '/')
    (h : skipTriviaFrom inComment cs = c :: rest) (more : List Char) :
    skipTriviaFrom inComment (cs ++ more) = c :: (rest ++ more) := by
  induction cs generalizing inComment with
  | nil => cases h
  | cons d cs ih =>
    rw [skipTriviaFrom] at h
    rw [List.cons_append, skipTriviaFrom]
    split at h
    · rename_i hcomment
      rw [if_pos hcomment]
      exact ih h
    · rename_i hcomment
      rw [if_neg hcomment]
      split at h
      · rename_i hblank
        rw [if_pos hblank]
        exact ih h
      · rename_i hblank
        rw [if_neg hblank]
        split at h
        · rename_i hopens
          rw [if_pos (opens_extend hopens more)]
          exact ih h
        · cases h
          rw [if_neg]
          simp [hslash]

theorem skipTrivia_extend {c : Char} {cs rest : List Char} (hslash : c ≠ '/')
    (h : skipTrivia cs = c :: rest) (more : List Char) :
    skipTrivia (cs ++ more) = c :: (rest ++ more) :=
  skipTriviaFrom_extend hslash h more

theorem expect_extend {c : Char} {what : Expectation} {cs rest : List Char} (hslash : c ≠ '/')
    (h : expect c what cs = .ok rest) (more : List Char) :
    expect c what (cs ++ more) = .ok (rest ++ more) := by
  rw [expect] at h
  split at h
  · cases h
  · rename_i d left hskip
    split at h
    · rename_i hd
      cases h
      subst hd
      simp [expect, skipTrivia_extend hslash hskip more]
    · cases h

/-! ## Strings -/

theorem readHex_extend {count acc n : Nat} {cs rest : List Char}
    (h : readHex count acc cs = .ok (n, rest)) (more : List Char) :
    readHex count acc (cs ++ more) = .ok (n, rest ++ more) := by
  induction count generalizing acc cs with
  | zero =>
    cases h
    rfl
  | succ count ih =>
    cases cs with
    | nil => cases h
    | cons c cs =>
      rw [readHex] at h
      rw [List.cons_append, readHex]
      cases hdigit : hexDigit? c with
      | none =>
        rw [hdigit] at h
        cases h
      | some digit =>
        rw [hdigit] at h
        exact ih h

/-- An escape with source behind it ends where it did. A backslash alone does not count as such: it
may be the start of a second escape. -/
theorem readUnicodeEscape_extend {c : Char} {cs rest : List Char}
    (h : readUnicodeEscape cs = .ok (c, rest)) (hrest : rest ≠ []) (hslash : rest ≠ ['\\'])
    (more : List Char) : readUnicodeEscape (cs ++ more) = .ok (c, rest ++ more) := by
  rw [readUnicodeEscape] at h
  split at h
  · cases h
  · rename_i code behind hcode
    rw [readUnicodeEscape, readHex_extend hcode more]
    split at h
    · rename_i left hhigh
      split at h
      · cases h
      · rename_i low last hlow
        simp only [hhigh, List.cons_append, readHex_extend hlow more]
        split at h
        · cases h
          rfl
        · cases h
    · rename_i hlone
      cases h
      cases rest with
      | nil => exact absurd rfl hrest
      | cons d rest =>
        cases rest with
        | nil =>
          have hd : d ≠ '\\' := fun heq => hslash (by rw [heq])
          simp only [List.cons_append]
          split
          · rename_i hpair
            cases hpair
            exact absurd rfl hd
          · rfl
        | cons e rest =>
          simp only [List.cons_append]
          split
          · rename_i left hhigh hpair
            cases hpair
            exact absurd rfl (hlone _ hhigh)
          · rfl

theorem readStringTail_extend {quote : Char} {opening acc value cs rest : List Char}
    (h : readStringTail quote opening acc cs = .ok (value, rest)) (other more : List Char) :
    readStringTail quote other acc (cs ++ more) = .ok (value, rest ++ more) := by
  fun_induction readStringTail quote opening acc cs with
  | case1 | case3 | case5 => cases h
  | case2 acc cs =>
    cases h
    exact readStringTail_close
  | case4 acc digits c left hread hquote ih =>
    have hne : left ≠ [] := by
      rintro rfl
      rw [readStringTail] at h
      cases h
    have hslash : left ≠ ['\\'] := by
      rintro rfl
      rw [readStringTail] at h
      simp only [hquote, ↓reduceIte] at h
      cases h
    have hread' := readUnicodeEscape_extend hread hne hslash more
    exact (readStringTail_unicode hquote hread').trans (ih h)
  | case6 acc escape cs hu hquote ih =>
    exact (readStringTail_escape hquote hu).trans (ih h)
  | case7 acc c cs hquote hslash ih =>
    exact (readStringTail_plain hquote hslash).trans (ih h)

theorem readString_extend {value : String} {cs rest : List Char}
    (h : readString cs = .ok (value, rest)) (more : List Char) :
    readString (cs ++ more) = .ok (value, rest ++ more) := by
  cases cs with
  | nil => cases h
  | cons quote cs =>
    rw [readString] at h
    split at h
    · rename_i hread
      cases h
      rw [List.cons_append, readString, readStringTail_extend hread]
    · cases h

/-! ## Names and numerals -/

theorem head?_extend {cs : List Char} (h : cs ≠ []) (more : List Char) :
    (cs ++ more).head? = cs.head? := by
  cases cs with
  | nil => exact absurd rfl h
  | cons c cs => rfl

theorem takeWhile_extend {p : Char → Bool} {cs : List Char} (h : cs.dropWhile p ≠ [])
    (more : List Char) : (cs ++ more).takeWhile p = cs.takeWhile p := by
  induction cs with
  | nil => exact absurd rfl h
  | cons c cs ih =>
    cases hc : p c with
    | true =>
      rw [List.dropWhile_cons_of_pos hc] at h
      rw [List.cons_append, List.takeWhile_cons_of_pos hc, List.takeWhile_cons_of_pos hc, ih h]
    | false => simp [hc]

theorem dropWhile_extend {p : Char → Bool} {cs : List Char} (h : cs.dropWhile p ≠ [])
    (more : List Char) : (cs ++ more).dropWhile p = cs.dropWhile p ++ more := by
  induction cs with
  | nil => exact absurd rfl h
  | cons c cs ih =>
    cases hc : p c with
    | true =>
      rw [List.dropWhile_cons_of_pos hc] at h
      rw [List.cons_append, List.dropWhile_cons_of_pos hc, List.dropWhile_cons_of_pos hc, ih h]
    | false => simp [hc]

theorem readIdentifier_extend {name : String} {cs rest : List Char}
    (h : readIdentifier cs = .ok (name, rest)) (hrest : rest ≠ []) (more : List Char) :
    readIdentifier (cs ++ more) = .ok (name, rest ++ more) := by
  obtain ⟨hname, rfl, hend⟩ := readIdentifier_eq_ok h
  rw [List.append_assoc]
  refine readIdentifier_append hname fun c hc => hend c ?_
  rwa [head?_extend hrest] at hc

/-- Without a sign in front a numeral is all digits and points. -/
theorem splitNumeral_cons {c : Char} (hc : c ≠ '-') (cs : List Char) :
    splitNumeral (c :: cs) =
      ((c :: cs).takeWhile isNumeralChar, (c :: cs).dropWhile isNumeralChar) := by
  unfold splitNumeral
  split
  · rename_i heq
    cases heq
    exact absurd rfl hc
  · rfl

theorem splitNumeral_extend {cs : List Char} (h : (splitNumeral cs).2 ≠ []) (more : List Char) :
    splitNumeral (cs ++ more) = ((splitNumeral cs).1, (splitNumeral cs).2 ++ more) := by
  cases cs with
  | nil => exact absurd rfl h
  | cons c cs =>
    by_cases hc : c = '-'
    · subst hc
      have hdrop : cs.dropWhile isNumeralChar ≠ [] := h
      simp [splitNumeral, takeWhile_extend hdrop, dropWhile_extend hdrop]
    · rw [splitNumeral_cons hc] at h ⊢
      rw [List.cons_append, splitNumeral_cons hc, ← List.cons_append, takeWhile_extend h,
        dropWhile_extend h]

theorem readNumber_extend {x : Number} {cs rest : List Char} (h : readNumber cs = .ok (x, rest))
    (hrest : rest ≠ []) (more : List Char) : readNumber (cs ++ more) = .ok (x, rest ++ more) := by
  rw [readNumber] at h
  split at h
  · rename_i hread
    cases h
    rw [readNumber, splitNumeral_extend hrest, hread]
  · cases h

theorem readCall_extend {call cs rest : List Char} (h : readCall cs = .ok (call, rest))
    (more : List Char) : readCall (cs ++ more) = .ok (call, rest ++ more) := by
  obtain ⟨hcall, rfl⟩ := readCall_eq_ok h
  rw [List.append_assoc]
  exact readCall_append hcall _

/-! ## Attributes -/

theorem readName_extend {value : Node} {cs rest : List Char} (h : readName cs = .ok (value, rest))
    (hrest : rest ≠ []) (more : List Char) : readName (cs ++ more) = .ok (value, rest ++ more) := by
  rw [readName] at h
  split at h
  · cases h
  · rename_i name left hread
    have hleft : left ≠ [] := by
      rintro rfl
      simp only [List.head?_nil, reduceCtorEq, if_false] at h
      split at h
      · cases h
        exact hrest rfl
      · split at h <;> cases h <;> exact hrest rfl
    rw [readName, readIdentifier_extend hread hleft more]
    simp only [head?_extend hleft more]
    split at h
    · rename_i htrue
      cases h
      rw [if_pos htrue]
    · rename_i htrue
      rw [if_neg htrue]
      split at h
      · rename_i hfalse
        cases h
        rw [if_pos hfalse]
      · rename_i hfalse
        rw [if_neg hfalse]
        split at h
        · rename_i hopen
          rw [if_pos hopen]
          obtain ⟨call, hcall, rfl⟩ := Reading.map_eq_ok h
          rw [readCall_extend hcall]
          rfl
        · rename_i hopen
          cases h
          rw [if_neg hopen]

theorem readValue_extend {value : Node} {cs rest : List Char} (h : readValue cs = .ok (value, rest))
    (hrest : rest ≠ []) (more : List Char) :
    readValue (cs ++ more) = .ok (value, rest ++ more) := by
  cases cs with
  | nil => cases h
  | cons c cs =>
    rw [readValue] at h
    rw [List.cons_append, readValue]
    split at h
    · obtain ⟨text, hread, rfl⟩ := Reading.map_eq_ok h
      have hread' := readString_extend hread more
      rw [List.cons_append] at hread'
      simp only [hread']
      rfl
    · obtain ⟨x, hread, rfl⟩ := Reading.map_eq_ok h
      have hread' := readNumber_extend hread hrest more
      rw [List.cons_append] at hread'
      simp only [hread']
      rfl
    · exact readName_extend h hrest more
    · cases h

/-- An attribute with source behind it ends where it did. -/
theorem readAttribute_extend {entry : Attribute} {cs rest : List Char}
    (h : readAttribute cs = .ok (entry, rest)) (hrest : rest ≠ []) (more : List Char) :
    readAttribute (cs ++ more) = .ok (entry, rest ++ more) := by
  rw [readAttribute] at h
  split at h
  · cases h
  · rename_i key left hkey
    split at h
    · cases h
    · rename_i behind hequals
      have hleft : left ≠ [] := by
        rintro rfl
        cases hequals
      obtain ⟨value, hvalue, rfl⟩ := Reading.map_eq_ok h
      have hskip : skipTrivia (behind ++ more) = skipTrivia behind ++ more := by
        cases hbehind : skipTrivia behind with
        | nil =>
          rw [hbehind] at hvalue
          cases hvalue
        | cons c cs =>
          refine skipTrivia_extend ?_ hbehind more
          -- no value starts with a slash
          rintro rfl
          rw [hbehind] at hvalue
          cases hvalue
      rw [readAttribute, readIdentifier_extend hkey hleft more]
      simp only [expect_extend (show '=' ≠ '/' by decide) hequals more, hskip,
        readValue_extend hvalue hrest more]
      rfl

theorem readAttributesTail_extend {acc entries : List Attribute} {cs rest : List Char}
    (h : readAttributesTail acc cs = .ok (entries, rest)) (more : List Char) :
    readAttributesTail acc (cs ++ more) = .ok (entries, rest ++ more) := by
  fun_induction readAttributesTail acc cs with
  | case1 | case5 | case6 => cases h
  | case2 acc cs left hskip =>
    cases h
    rw [readAttributesTail.eq_def, skipTrivia_extend (by decide) hskip more]
    simp
  | case3 acc cs c left hskip hclose hcomma ih =>
    have hslash : c ≠ '/' := by
      rintro rfl
      exact absurd hcomma (by simp)
    rw [readAttributesTail.eq_def, skipTrivia_extend hslash hskip more]
    simp only [if_neg hclose, if_pos hcomma]
    exact ih h
  | case4 acc cs c left hskip hclose hcomma hstart entry behind hread ih =>
    have hbehind : behind ≠ [] := by
      rintro rfl
      rw [readAttributesTail] at h
      cases h
    have hread' := readAttribute_extend hread hbehind more
    rw [List.cons_append] at hread'
    rw [readAttributesTail.eq_def,
      skipTrivia_extend (ne_of_isIdentifierStart hstart (by decide)) hskip more]
    simp only [if_neg hclose, if_neg hcomma, if_pos hstart]
    split
    · rename_i heq
      cases hread'.symm.trans heq
      exact ih h
    · rename_i heq
      cases hread'.symm.trans heq

/-- An attribute list ends by itself. -/
theorem readAttributes_extend {entries : List Attribute} {cs rest : List Char}
    (h : readAttributes cs = .ok (entries, rest)) (more : List Char) :
    readAttributes (cs ++ more) = .ok (entries, rest ++ more) := by
  rw [readAttributes] at h
  split at h
  · cases h
  · rename_i left hopen
    rw [readAttributes, expect_extend (by decide) hopen more]
    exact readAttributesTail_extend h more

end ChatMarkup.Source

import CSpelling.ArraySize
import CSpelling.Proofs.Numerals

/-!
# Array sizes as integer constants

The size of an array may be an integer constant of C (`IsConstant`): decimal, hexadecimal or octal,
with a suffix and white space around it. It is written in decimal digits, a second time in the same
way, and `arraySize` reads its value back from any spelling whose first bracket it stands in
(`sizeText?_constant`). Other sizes stay as they are, but for a row of decimal digits that begins
with a zero and is not octal: it is no constant, and taken for a decimal one.
-/

namespace CSpelling

open Text CSpelling.Decorations

variable {c mark : Char} {s digits front back suffix size : Text} {v : Nat} {radix : Radix}
  {literal : IntegerLiteral}

/-! ## Integer constants -/

/-- The text is an integer constant without a suffix, which stands for the number. -/
inductive IsConstant : Text → Nat → Prop
  /-- A row of decimal digits without a leading zero. -/
  | decimal {digits : Text} {v : Nat} (h : Radix.decimal.Writes digits v)
    (hzero : digits.head? = some '0' → digits = ['0']) : IsConstant digits v
  /-- A row of hexadecimal digits after `0x` or `0X`. -/
  | hexadecimal {mark : Char} {digits : Text} {v : Nat} (hmark : mark = 'x' ∨ mark = 'X')
    (h : Radix.hexadecimal.Writes digits v) : IsConstant ('0' :: mark :: digits) v
  /-- A row of octal digits after a zero. -/
  | octal {digits : Text} {v : Nat} (h : Radix.octal.Writes digits v) : IsConstant ('0' :: digits) v

theorem isConstant_natText (v : Nat) : IsConstant (natText v) v :=
  .decimal (Radix.writes_natText v) head?_natText

/-- No digit is white space or belongs to a suffix. -/
theorem Radix.not_isBlank (h : radix.isDigit c = true) :
    isBlank c = false ∧ isSuffixChar c = false := by
  have hblank : ∀ n ∈ blanks, asciiDigit? (Char.ofNat n) = none := by decide +kernel
  have hsuffix : ∀ d ∈ ['u', 'U', 'l', 'L'], asciiDigit? d = none := by decide
  have hdigit : asciiDigit? c ≠ none := fun hnone => by simp [Radix.isDigit, hnone] at h
  constructor
  · rw [Bool.eq_false_iff]
    intro hmem
    have hnone := hblank c.toNat (List.contains_iff_mem.1 hmem)
    rw [Char.ofNat_toNat] at hnone
    exact hdigit hnone
  · rw [Bool.eq_false_iff]
    intro hmem
    exact hdigit (hsuffix c (by simpa [isSuffixChar, or_assoc] using hmem))

namespace IsConstant

/-- A constant ends in a digit, and begins with one. -/
theorem exists_ends (h : IsConstant s v) :
    ∃ (radix : Radix) (c d : Char), s.head? = some c ∧ Radix.decimal.isDigit c = true ∧
      s.getLast? = some d ∧ radix.isDigit d = true := by
  have hzero : Radix.decimal.isDigit '0' = true := by decide
  cases h with
  | decimal h _ =>
    have hhead := List.head?_eq_some_head h.ne_nil
    have hlast := List.getLast?_eq_some_getLast h.ne_nil
    exact ⟨.decimal, _, _, hhead, h.digit _ (List.mem_of_head? hhead), hlast,
      h.digit _ (List.mem_of_getLast? hlast)⟩
  | hexadecimal _ h =>
    have hlast := List.getLast?_eq_some_getLast h.ne_nil
    refine ⟨.hexadecimal, '0', _, rfl, hzero, ?_, h.digit _ (List.mem_of_getLast? hlast)⟩
    rw [List.getLast?_cons_cons, List.getLast?_cons_of_ne_nil h.ne_nil, hlast]
  | octal h =>
    have hlast := List.getLast?_eq_some_getLast h.ne_nil
    refine ⟨.octal, '0', _, rfl, hzero, ?_, h.digit _ (List.mem_of_getLast? hlast)⟩
    rw [List.getLast?_cons_of_ne_nil h.ne_nil, hlast]

end IsConstant

/-! ## Reading constants -/

theorem ofText?_hexadecimal (hmark : mark = 'x' ∨ mark = 'X') (digits : Text) :
    IntegerLiteral.ofText? ('0' :: mark :: digits) =
      [⟨.hexadecimal, digits⟩].find? IntegerLiteral.wellFormed := by
  rcases hmark with rfl | rfl <;> rfl

/-- After a zero without a mark, octal digits are tried first. -/
theorem ofText?_zero (hx : digits.head? ≠ some 'x') (hX : digits.head? ≠ some 'X') :
    IntegerLiteral.ofText? ('0' :: digits) =
      [⟨.octal, digits⟩, ⟨.decimal, '0' :: digits⟩].find? IntegerLiteral.wellFormed := by
  unfold IntegerLiteral.ofText?
  split <;> simp_all

theorem ofText?_of_head? (h : s.head? ≠ some '0') :
    IntegerLiteral.ofText? s = [⟨.decimal, s⟩].find? IntegerLiteral.wellFormed := by
  unfold IntegerLiteral.ofText?
  split <;> simp_all

theorem Radix.Writes.find?_wellFormed (h : radix.Writes digits v) (rest : List IntegerLiteral) :
    (⟨radix, digits⟩ :: rest).find? IntegerLiteral.wellFormed = some ⟨radix, digits⟩ :=
  List.find?_cons_of_pos h.wellFormed

/-- A digit is no mark of a radix. -/
theorem head?_ne_of_digits (h : ∀ c ∈ digits, Radix.decimal.isDigit c = true) :
    digits.head? ≠ some 'x' ∧ digits.head? ≠ some 'X' := by
  have hmark : ∀ mark ∈ ['x', 'X'], Radix.decimal.isDigit mark = false := by decide
  have hne (mark : Char) (hmem : mark ∈ ['x', 'X']) : digits.head? ≠ some mark := by
    intro hhead
    have hdigit := h mark (List.mem_of_head? hhead)
    rw [hmark mark hmem] at hdigit
    cases hdigit
  exact ⟨hne 'x' (by simp), hne 'X' (by simp)⟩

/-- An octal digit is a decimal digit. -/
theorem isDigit_decimal_of_octal (h : Radix.octal.isDigit c = true) :
    Radix.decimal.isDigit c = true := by
  obtain ⟨d, hd, hlt⟩ := (Option.any_eq_true ..).1 h
  have hlt : d < 8 := of_decide_eq_true hlt
  rw [Radix.isDigit, hd, Option.any_some, decide_eq_true_eq, Radix.base]
  omega

/-- **A constant is read as the number that it stands for**, in the numeral of this number if it is
decimal. -/
theorem IsConstant.exists_ofText? (h : IsConstant s v) :
    ∃ literal, IntegerLiteral.ofText? s = some literal ∧ literal.value = v ∧
      (literal.radix = .decimal → literal.digits = natText v) := by
  cases h with
  | decimal h hzero =>
    refine ⟨⟨.decimal, s⟩, ?_, h.value_eq, fun _ => h.eq_natText hzero⟩
    by_cases hhead : s.head? = some '0'
    · obtain rfl := hzero hhead
      rfl
    · rw [ofText?_of_head? hhead, h.find?_wellFormed]
  | hexadecimal hmark h =>
    refine ⟨_, ?_, h.value_eq, fun hradix => by cases hradix⟩
    rw [ofText?_hexadecimal hmark, h.find?_wellFormed]
  | octal h =>
    refine ⟨_, ?_, h.value_eq, fun hradix => by cases hradix⟩
    obtain ⟨hx, hX⟩ := head?_ne_of_digits fun c hc => isDigit_decimal_of_octal (h.digit c hc)
    rw [ofText?_zero hx hX, h.find?_wellFormed]

/-- What is read as a constant is one, or a row of decimal digits. -/
theorem isConstant_of_ofText? (h : IntegerLiteral.ofText? s = some literal) :
    IsConstant s literal.value ∨ Radix.decimal.Writes s literal.value := by
  unfold IntegerLiteral.ofText? at h
  have hmem := List.mem_of_find?_eq_some h
  obtain ⟨radix, digits⟩ := literal
  have hwrites := Radix.writes_of_wellFormed (List.find?_some h)
  split at hmem
  · cases List.mem_singleton.1 hmem
    exact .inl (.hexadecimal (.inl rfl) hwrites)
  · cases List.mem_singleton.1 hmem
    exact .inl (.hexadecimal (.inr rfl) hwrites)
  · rcases List.mem_pair.1 hmem with heq | heq
    · cases heq
      exact .inl (.octal hwrites)
    · cases heq
      exact .inr hwrites
  · cases List.mem_singleton.1 hmem
    exact .inr hwrites

/-- A row of decimal digits that is no constant is read as a decimal one. -/
theorem ofText?_of_writes (h : Radix.decimal.Writes s v) (hnot : ∀ u, ¬IsConstant s u) :
    IntegerLiteral.ofText? s = some ⟨.decimal, s⟩ := by
  have hzero : s.head? = some '0' := by
    by_contra hhead
    exact hnot v (.decimal h fun hzero => absurd hzero hhead)
  obtain ⟨digits, rfl⟩ := List.head?_eq_some_iff.1 hzero
  obtain ⟨hx, hX⟩ := head?_ne_of_digits fun c hc => h.digit c (List.mem_cons_of_mem _ hc)
  have hoctal : ¬(⟨.octal, digits⟩ : IntegerLiteral).wellFormed = true := fun hwell =>
    hnot _ (.octal (Radix.writes_of_wellFormed hwell))
  rw [ofText?_zero hx hX, List.find?_cons_of_neg hoctal, h.find?_wellFormed]

/-! ## Sizes -/

/-- The size without the white space around it and without the suffix of a constant. -/
def bareSize (size : Text) : Text := dropEndWhile isSuffixChar (strip size)

theorem bareSize_eq (h : IsConstant s v) (hsuffix : ∀ c ∈ suffix, isSuffixChar c = true)
    (hfront : IsGap front) (hback : IsGap back) :
    bareSize (front ++ (s ++ suffix) ++ back) = s := by
  have hblank : ∀ c ∈ ['u', 'U', 'l', 'L'], isBlank c = false := by decide
  obtain ⟨radix, first, last, hfirst, hfirstDigit, hlast, hlastDigit⟩ := h.exists_ends
  have htrimmed : Trimmed (s ++ suffix) := by
    refine ⟨fun c hc => ?_, fun c hc => ?_⟩
    · rw [List.head?_append, hfirst] at hc
      cases hc
      exact (Radix.not_isBlank hfirstDigit).1
    · rw [List.getLast?_append] at hc
      rcases Option.or_eq_some_iff.1 hc with hc | ⟨-, hc⟩
      · exact hblank c (by simpa [isSuffixChar, or_assoc] using hsuffix c (List.mem_of_getLast? hc))
      · cases hlast.symm.trans hc
        exact (Radix.not_isBlank hlastDigit).1
  rw [bareSize, strip_gaps hfront htrimmed hback, dropEndWhile_append_of_all hsuffix]
  refine dropEndWhile_of_getLast? fun c hc => ?_
  cases hlast.symm.trans hc
  exact (Radix.not_isBlank hlastDigit).2

/-- **A constant is written as the numeral of its number.** -/
theorem sizeText?_of_isConstant (h : IsConstant (bareSize size) v)
    (hv : (natText v).length ≤ maxDigits) : sizeText? size = some (natText v) := by
  obtain ⟨literal, hliteral, hvalue, hdigits⟩ := h.exists_ofText?
  have hread : sizeLiteral? size = some literal := hliteral
  have hnumber : literal.number? = some v := by
    rw [IntegerLiteral.number?, if_neg, hvalue]
    rintro ⟨hradix, hlong⟩
    rw [hdigits hradix] at hlong
    omega
  simp only [sizeText?, hread, hnumber, Option.bind_some, numeral?, if_pos hv]

theorem sizeText?_of_writes (h : Radix.decimal.Writes (bareSize size) v)
    (hnot : ∀ u, ¬IsConstant (bareSize size) u) (hlength : (bareSize size).length ≤ maxDigits) :
    sizeText? size = some (natText v) := by
  have hread : sizeLiteral? size = some ⟨.decimal, bareSize size⟩ := ofText?_of_writes h hnot
  have hnumber : (⟨.decimal, bareSize size⟩ : IntegerLiteral).number? = some v := by
    rw [IntegerLiteral.number?, if_neg, h.value_eq]
    rintro ⟨-, hlong⟩
    dsimp only at hlong
    omega
  have hv : (natText v).length ≤ maxDigits := h.length_natText_le.trans hlength
  simp only [sizeText?, hread, hnumber, Option.bind_some, numeral?, if_pos hv]

theorem sizeText?_of_not (hnot : ∀ u, ¬IsConstant (bareSize size) u)
    (hrow : ∀ u, ¬Radix.decimal.Writes (bareSize size) u) : sizeText? size = some size := by
  have hread : sizeLiteral? size = none := by
    refine Option.eq_none_iff_forall_ne_some.2 fun literal hliteral => ?_
    rcases isConstant_of_ofText? hliteral with h | h
    · exact hnot _ h
    · exact hrow _ h
  simp only [sizeText?, hread]

/-! ## Sizes in spellings -/

theorem firstGroupDigits?_append (hs : '[' ∉ s) (t : Text) :
    firstGroupDigits? (s ++ t) = firstGroupDigits? t := by
  induction s with
  | nil => rfl
  | cons c rest ih =>
    have hc : c ≠ '[' := fun heq => hs (by rw [heq]; exact List.mem_cons_self ..)
    have hnone : groupDigits? (c :: (rest ++ t)) = none := by
      unfold groupDigits?
      split
      · next heq => exact absurd (List.cons.inj heq).1 hc
      · rfl
    rw [List.cons_append, firstGroupDigits?, hnone]
    exact ih fun hmem => hs (List.mem_cons_of_mem _ hmem)

/-- **The number in the first brackets of a spelling is read.** -/
theorem arraySize_append (hs : '[' ∉ s) (hv : (natText v).length ≤ maxDigits) (t : Text) :
    arraySize (s ++ bracketed (natText v) ++ t) = .ok v := by
  have hdigit : ∀ c ∈ natText v, c.isDigit = true := fun c hc => isDigit_of_mem_natText hc
  have hgroup : groupDigits? (bracketed (natText v) ++ t) = some (natText v) :=
    groupDigits?_bracketed (natText_ne_nil v) hdigit t
  have hfirst : firstGroupDigits? (s ++ bracketed (natText v) ++ t) = some (natText v) := by
    rw [List.append_assoc, firstGroupDigits?_append hs]
    rw [bracketed, List.cons_append] at hgroup ⊢
    rw [firstGroupDigits?, hgroup]
  have hvalue : decimalValue (natText v) = v :=
    (decimalValue_eq hdigit).trans (Radix.writes_natText v).value_eq
  simp only [arraySize, hfirst, decimalNumber?, if_pos hv, hvalue]

/-- **Constant sizes keep their value**: the size of an array is written as the numeral of the
number that it stands for, a numeral is written as it is, and the number is read back from the first
brackets of any spelling. Every other size is written as it is, if it is no row of decimal digits;
such a row begins with a zero, and is written without its zeros. -/
theorem sizeText?_constant (size : Text) :
    (∀ (v : Nat) (s suffix front back : Text), size = front ++ (s ++ suffix) ++ back →
      IsConstant s v → (natText v).length ≤ maxDigits →
      (∀ c ∈ suffix, isSuffixChar c = true) → IsGap front → IsGap back →
        sizeText? size = some (natText v) ∧ sizeText? (natText v) = some (natText v) ∧
        ∀ before after : Text, '[' ∉ before →
          arraySize (before ++ bracketed (natText v) ++ after) = .ok v) ∧
    ((∀ u, ¬IsConstant (bareSize size) u) →
      ((∀ u, ¬Radix.decimal.Writes (bareSize size) u) → sizeText? size = some size) ∧
      ∀ u, Radix.decimal.Writes (bareSize size) u → (bareSize size).length ≤ maxDigits →
        (bareSize size).head? = some '0' ∧ sizeText? size = some (natText u)) := by
  constructor
  · rintro v s suffix front back rfl hs hv hsuffix hfront hback
    have hbare : bareSize (natText v) = natText v := by
      simpa using bareSize_eq (isConstant_natText v) (List.forall_mem_nil _) isGap_nil isGap_nil
    refine ⟨?_, ?_, fun before after hbefore => arraySize_append hbefore hv after⟩
    · refine sizeText?_of_isConstant ?_ hv
      rw [bareSize_eq hs hsuffix hfront hback]
      exact hs
    · refine sizeText?_of_isConstant ?_ hv
      rw [hbare]
      exact isConstant_natText v
  · intro hnot
    refine ⟨sizeText?_of_not hnot, fun u hu hlength => ⟨?_, sizeText?_of_writes hu hnot hlength⟩⟩
    by_contra hhead
    exact hnot u (.decimal hu fun hzero => absurd hzero hhead)

/-- A hexadecimal size with a suffix, the name of a macro, and a row of digits that is neither octal
nor decimal. -/
theorem sizeText?_constant_sizes :
    (IsConstant "0x1f".toList 31 ∧ (natText 31).length ≤ maxDigits ∧
      (∀ c ∈ "UL".toList, isSuffixChar c = true) ∧ IsGap " ".toList ∧ IsGap "\t".toList ∧
      '[' ∉ "char ".toList ∧ sizeText? " 0x1fUL\t".toList = some "31".toList ∧
      sizeText? "31".toList = some "31".toList ∧ arraySize "char [31][2]".toList = .ok 31) ∧
    ((∀ u, ¬IsConstant (bareSize "N".toList) u) ∧
      (∀ u, ¬Radix.decimal.Writes (bareSize "N".toList) u) ∧
      sizeText? "N".toList = some "N".toList) ∧
    (∀ u, ¬IsConstant (bareSize "089".toList) u) ∧
      Radix.decimal.Writes (bareSize "089".toList) 89 ∧
      (bareSize "089".toList).length ≤ maxDigits ∧
      sizeText? "089".toList = some "89".toList := by
  have hhex : IsConstant "0x1f".toList 31 :=
    .hexadecimal (.inl rfl) ⟨by decide, by decide, by decide⟩
  have hspace : IsGap " ".toList := isGap_space
  have htab : IsGap "\t".toList := List.forall_mem_singleton.2 (by decide)
  obtain ⟨hsize, hagain, hread⟩ := (sizeText?_constant " 0x1fUL\t".toList).1 31 _ "UL".toList _ _
    rfl hhex (by decide) (by decide) hspace htab
  have hname : bareSize "N".toList = ['N'] := by decide
  have hrow : bareSize "089".toList = ['0', '8', '9'] := by decide
  have hnameRow : ∀ u, ¬Radix.decimal.Writes ['N'] u := fun u h =>
    absurd (h.digit 'N' (by simp)) (by decide)
  have hnameConstant : ∀ u, ¬IsConstant ['N'] u := by
    intro u h
    cases h with
    | decimal h _ => exact hnameRow u h
  have hrowConstant : ∀ u, ¬IsConstant ['0', '8', '9'] u := by
    intro u h
    cases h with
    | decimal _ hzero => exact absurd (hzero rfl) (by decide)
    | hexadecimal hmark _ => exact absurd hmark (by decide)
    | octal h => exact absurd (h.digit '8' (by simp)) (by decide)
  have hwrites : Radix.decimal.Writes ['0', '8', '9'] 89 := ⟨by decide, by decide, by decide⟩
  rw [← hname] at hnameRow hnameConstant
  rw [← hrow] at hrowConstant hwrites
  exact ⟨⟨hhex, by decide, by decide, hspace, htab, by decide, hsize, hagain,
      hread "char ".toList "[2]".toList (by decide)⟩,
    ⟨hnameConstant, hnameRow, ((sizeText?_constant _).2 hnameConstant).1 hnameRow⟩,
    hrowConstant, hwrites, by decide,
    (((sizeText?_constant _).2 hrowConstant).2 89 hwrites (by decide)).2⟩

end CSpelling

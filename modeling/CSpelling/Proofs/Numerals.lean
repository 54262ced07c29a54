import CSpelling.Numeral
import CSpelling.Proofs.Decorations
import Mathlib.Data.Nat.Digits.Lemmas

/-!
# Rows of digits and the numbers they write

A row of digits writes a number in a radix (`Radix.Writes`). Reading the row digit by digit gives
this number, and in ASCII decimal digits it does not matter which of the two readers does it
(`decimalValue_eq`). `natText` writes a number without a leading zero
(`Radix.writes_natText`, `head?_natText`), and no other row of decimal digits does so
(`Radix.Writes.eq_natText`).
-/

namespace CSpelling

open Text CSpelling.Decorations

variable {c : Char} {digits : Text} {n v : Nat} {radix : Radix}

/-! ## Digits -/

/-- The value of a digit, zero for a character that is none. -/
def digitValue (c : Char) : Nat := (asciiDigit? c).getD 0

/-- The row of digits writes the number in the radix. -/
structure Radix.Writes (radix : Radix) (digits : Text) (v : Nat) : Prop where
  /-- There is a digit. -/
  ne_nil : digits ≠ []
  /-- There is nothing else. -/
  digit : ∀ c ∈ digits, radix.isDigit c = true
  /-- The digits have the value, the last one as it stands. -/
  value : Nat.ofDigits radix.base (digits.reverse.map digitValue) = v

theorem asciiDigit?_of_isDigit (h : c.isDigit = true) :
    asciiDigit? c = some (c.toNat - '0'.toNat) :=
  of_isDigit (P := fun c => asciiDigit? c = some (c.toNat - '0'.toNat)) (by decide) h

theorem isDigit_decimal_iff : Radix.decimal.isDigit c = true ↔ c.isDigit = true := by
  constructor
  · intro h
    obtain ⟨d, hd, hlt⟩ := (Option.any_eq_true ..).1 h
    have hlt : d < 10 := of_decide_eq_true hlt
    unfold asciiDigit? at hd
    split_ifs at hd with hdigit
    · exact Char.isDigit_iff_toNat.2 hdigit
    · cases hd
      omega
    · cases hd
      omega
  · intro h
    have hrange := Char.isDigit_iff_toNat.1 h
    have hzero : '0'.toNat = 48 := rfl
    have hnine : '9'.toNat = 57 := rfl
    rw [Radix.isDigit, asciiDigit?_of_isDigit h, Option.any_some, decide_eq_true_eq, Radix.base]
    omega

theorem Radix.digitValue_lt (h : radix.isDigit c = true) : digitValue c < radix.base := by
  obtain ⟨d, hd, hlt⟩ := (Option.any_eq_true ..).1 h
  rw [digitValue, hd]
  exact of_decide_eq_true hlt

/-- Reading digit by digit gives the number that the row writes. -/
theorem value_eq (radix : Radix) (digits : Text) :
    (⟨radix, digits⟩ : IntegerLiteral).value =
      Nat.ofDigits radix.base (digits.reverse.map digitValue) := by
  rw [Nat.ofDigits_eq_foldr, List.foldr_map, List.foldr_reverse]
  exact congrArg (List.foldl · 0 digits) (funext fun n => funext fun c => Nat.add_comm ..)

theorem Radix.Writes.value_eq (h : radix.Writes digits v) :
    (⟨radix, digits⟩ : IntegerLiteral).value = v :=
  (CSpelling.value_eq radix digits).trans h.value

theorem Radix.Writes.wellFormed (h : radix.Writes digits v) :
    (⟨radix, digits⟩ : IntegerLiteral).wellFormed = true := by
  simpa [IntegerLiteral.wellFormed, h.ne_nil] using h.digit

theorem Radix.writes_of_wellFormed
    (h : (⟨radix, digits⟩ : IntegerLiteral).wellFormed = true) :
    radix.Writes digits (⟨radix, digits⟩ : IntegerLiteral).value := by
  obtain ⟨hne, hdigits⟩ : digits ≠ [] ∧ ∀ c ∈ digits, radix.isDigit c = true := by
    simpa [IntegerLiteral.wellFormed] using h
  exact ⟨hne, hdigits, (CSpelling.value_eq radix digits).symm⟩

/-! ## Decimal numerals -/

/-- A row of ASCII digits is read alike as a constant and as a row in any script. -/
theorem decimalValue_eq (h : ∀ c ∈ digits, c.isDigit = true) :
    decimalValue digits = (⟨.decimal, digits⟩ : IntegerLiteral).value := by
  refine List.foldl_ext _ _ 0 fun n c hc => ?_
  have hvalue : digitValue? c = asciiDigit? c :=
    of_isDigit (P := fun c => digitValue? c = asciiDigit? c) (by decide +kernel) (h c hc)
  rw [hvalue]
  rfl

theorem natText_ne_nil (n : Nat) : natText n ≠ [] := Nat.toDigits_ne_nil

theorem isDigit_of_mem_natText (h : c ∈ natText n) : c.isDigit = true :=
  Nat.isDigit_of_mem_toDigits (by decide) (by decide) h

theorem natText_injective : Function.Injective natText :=
  Function.LeftInverse.injective (g := fun s => Nat.ofDigitChars 10 s 0)
    fun _ => Nat.ofDigitChars_ten_toDigits

/-- A numeral is made of decimal digits that write its number. -/
theorem Radix.writes_natText (n : Nat) : Radix.decimal.Writes (natText n) n := by
  have hdigits : ∀ c ∈ natText n, Radix.decimal.isDigit c = true := fun c hc =>
    isDigit_decimal_iff.2 (isDigit_of_mem_natText hc)
  have hvalue : (⟨.decimal, natText n⟩ : IntegerLiteral).value =
      Nat.ofDigitChars 10 (natText n) 0 := by
    refine List.foldl_ext _ _ 0 fun m c hc => ?_
    rw [asciiDigit?_of_isDigit (isDigit_of_mem_natText hc)]
    rfl
  refine ⟨natText_ne_nil n, hdigits, ?_⟩
  rw [← CSpelling.value_eq, hvalue]
  exact Nat.ofDigitChars_ten_toDigits

/-- A numeral has no leading zero. -/
theorem head?_natText (h : (natText n).head? = some '0') : natText n = ['0'] := by
  induction n using Nat.strongRecOn with
  | _ n ih =>
    rcases Nat.lt_or_ge n 10 with hlt | hge
    · have hdigit : natText n = [n.digitChar] := Nat.toDigits_of_lt_base hlt
      rw [hdigit] at h ⊢
      rw [Option.some.inj h]
    · -- The numeral begins like that of a tenth of the number, which is not zero.
      have hsplit : natText n = natText (n / 10) ++ [(n % 10).digitChar] :=
        Nat.toDigits_of_base_le (by decide) hge
      rw [hsplit, List.head?_append_of_ne_nil _ (natText_ne_nil _)] at h
      have hzero : natText (n / 10) = natText 0 := ih (n / 10) (by omega) h
      have := natText_injective hzero
      omega

/-- **A row of decimal digits without a leading zero is the numeral of its number.** -/
theorem Radix.Writes.eq_natText (h : Radix.decimal.Writes digits v)
    (hzero : digits.head? = some '0' → digits = ['0']) : digits = natText v := by
  induction digits using List.reverseRecOn generalizing v with
  | nil => exact absurd rfl h.ne_nil
  | append_singleton front c ih =>
    have hdigit : c.isDigit = true := isDigit_decimal_iff.1 (h.digit c (by simp))
    have hlt : digitValue c < 10 := Radix.digitValue_lt (h.digit c (by simp))
    have hchar : natText (digitValue c) = [c] := by
      refine (Nat.toDigits_of_lt_base hlt).trans ?_
      exact of_isDigit (P := fun c => [(digitValue c).digitChar] = [c]) (by decide) hdigit
    rcases eq_or_ne front [] with rfl | hne
    · have hv : digitValue c = v := by simpa using h.value
      rw [← hv, hchar]
      rfl
    · obtain ⟨u, hu⟩ : ∃ u, Nat.ofDigits 10 (front.reverse.map digitValue) = u := ⟨_, rfl⟩
      have hvalue : 10 * u + digitValue c = v := by
        have hsum : Nat.ofDigits 10 ((front ++ [c]).reverse.map digitValue) = v := h.value
        rw [List.reverse_concat, List.map_cons, Nat.ofDigits_cons, hu] at hsum
        rw [Nat.add_comm]
        exact hsum
      have hhead : front.head? ≠ some '0' := by
        intro hhead
        have hlength := congrArg List.length
          (hzero (by rw [List.head?_append_of_ne_nil _ hne, hhead]))
        rw [List.length_append] at hlength
        exact hne (List.eq_nil_of_length_eq_zero (Nat.succ_injective hlength))
      have hfront : front = natText u :=
        ih ⟨hne, fun d hd => h.digit d (by simp [hd]), hu⟩ fun h => absurd h hhead
      have hpos : 0 < u := by
        refine Nat.pos_of_ne_zero fun hnone => hhead ?_
        rw [hfront, hnone]
        rfl
      have happend := Nat.toDigits_append_toDigits (b := 10) (by decide) hpos hlt
      calc front ++ [c] = natText u ++ natText (digitValue c) := by rw [hchar, ← hfront]
        _ = natText v := happend.trans (congrArg natText hvalue)

/-- A row of decimal digits is as long as the numeral of its number, or longer. -/
theorem Radix.Writes.length_natText_le (h : Radix.decimal.Writes digits v) :
    (natText v).length ≤ digits.length := by
  refine Nat.toDigits_length 10 v digits.length (List.length_pos_iff.2 h.ne_nil) ?_
  have hlt := Nat.ofDigits_lt_base_pow_length (b := 10) (l := digits.reverse.map digitValue)
    (by decide) fun d hd => by
      obtain ⟨c, hc, rfl⟩ := List.mem_map.1 hd
      exact Radix.digitValue_lt (h.digit c (List.mem_reverse.1 hc))
  rwa [List.length_map, List.length_reverse, show Nat.ofDigits 10 _ = v from h.value] at hlt

end CSpelling

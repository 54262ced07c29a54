import CSpelling.Text.Word
import Mathlib.Data.List.DropRight

/-!
# White space and places in a text

* `marks` keeps the characters that are not white space, and `weight` counts them.
* `Trimmed` says that no white space stands at the ends of a text, `IsGap` that a text is nothing
  but white space; `strip` trims (`trimmed_strip`) and takes gaps only (`exists_gaps`).
* `Along P s` says that `P c rest` holds at every place of a text, where `c` is the character at
  the place and `rest` what follows it.
* `replace_induction` goes along a text as `replace` does, and `replace_invariant` says that
  replacing keeps what one replacement keeps.
-/

namespace CSpelling.Text

/-! ## Decisions

What is said of the characters of a text is decided along the text. An instance that goes through
all characters there are would be correct as well, and never end. -/

instance {P : Char → Prop} [DecidablePred P] (s : Text) : Decidable (∀ c ∈ s, P c) :=
  List.decidableBAll P s

instance {P : Char → Prop} [DecidablePred P] (s : Text) : Decidable (∃ c ∈ s, P c) :=
  List.decidableBEx P s

instance {P : Char → Prop} [DecidablePred P] (o : Option Char) : Decidable (∀ c ∈ o, P c) :=
  Option.decidableForallMem o

/-! ## Characters -/

theorem not_isWordChar_of_isBlank {c : Char} (h : isBlank c = true) : isWordChar c = false := by
  have all : ∀ n ∈ blanks, isWordChar (Char.ofNat n) = false := by decide +kernel
  have hc := all c.toNat (List.contains_iff_mem.1 h)
  rwa [Char.ofNat_toNat] at hc

/-- The punctuation of spellings, which is no part of a word. -/
def punctuation : List Char := ['*', '(', ')', '[', ']', ',', ':']

theorem not_isWordChar_of_mem {c : Char} (h : c ∈ punctuation) : isWordChar c = false := by
  revert c
  decide +kernel

@[simp] theorem isBlank_star : isBlank '*' = false := by decide

@[simp] theorem isBlank_open : isBlank '(' = false := by decide

@[simp] theorem isBlank_close : isBlank ')' = false := by decide

@[simp] theorem isBlank_bracket : isBlank '[' = false := by decide

@[simp] theorem isBlank_closeBracket : isBlank ']' = false := by decide

@[simp] theorem isBlank_comma : isBlank ',' = false := by decide

attribute [simp] isBlank_space

/-! ## Marks -/

/-- The characters of a text that are not white space. -/
def marks (s : Text) : Text := s.filter fun c => !isBlank c

/-- The number of characters that are not white space. -/
def weight (s : Text) : Nat := (marks s).length

@[simp] theorem marks_nil : marks [] = [] := rfl

theorem marks_cons (c : Char) (s : Text) :
    marks (c :: s) = if isBlank c then marks s else c :: marks s := by
  cases h : isBlank c <;> simp [marks, h]

theorem marks_cons_of_blank {c : Char} (h : isBlank c = true) (s : Text) :
    marks (c :: s) = marks s := by
  rw [marks_cons, if_pos h]

theorem marks_cons_of_not {c : Char} (h : isBlank c = false) (s : Text) :
    marks (c :: s) = c :: marks s := by
  simp [marks_cons, h]

@[simp] theorem marks_append (s t : Text) : marks (s ++ t) = marks s ++ marks t :=
  List.filter_append s t

theorem mem_marks {c : Char} {s : Text} : c ∈ marks s ↔ c ∈ s ∧ isBlank c = false := by
  simp [marks]

theorem marks_dropWhile (s : Text) : marks (s.dropWhile isBlank) = marks s := by
  induction s with
  | nil => rfl
  | cons c rest ih =>
    cases h : isBlank c with
    | true => rw [List.dropWhile_cons_of_pos h, ih, marks_cons_of_blank h]
    | false => rw [List.dropWhile_cons_of_neg (by simp [h])]

/-- The first mark is what white space is dropped up to. -/
theorem head?_dropWhile (s : Text) : (s.dropWhile isBlank).head? = (marks s).head? := by
  induction s with
  | nil => rfl
  | cons c rest ih =>
    cases h : isBlank c with
    | true => rw [List.dropWhile_cons_of_pos h, ih, marks_cons_of_blank h]
    | false => rw [List.dropWhile_cons_of_neg (by simp [h]), marks_cons_of_not h]; rfl

/-! ## Gaps and ends -/

/-- The text is nothing but white space. -/
def IsGap (s : Text) : Prop := ∀ c ∈ s, isBlank c = true

theorem isGap_nil : IsGap [] := by simp [IsGap]

theorem isGap_space : IsGap [' '] := by simp [IsGap]

theorem marks_eq_nil_iff {s : Text} : marks s = [] ↔ IsGap s := by
  simp [marks, IsGap]

theorem IsGap.marks {s : Text} (h : IsGap s) : marks s = [] := marks_eq_nil_iff.2 h

/-- No white space stands at the ends of the text. -/
structure Trimmed (s : Text) : Prop where
  /-- The first character is a mark. -/
  start : ∀ c ∈ s.head?, isBlank c = false
  /-- The last character is a mark. -/
  finish : ∀ c ∈ s.getLast?, isBlank c = false

theorem dropEndWhile_eq (p : Char → Bool) (s : Text) : dropEndWhile p s = s.rdropWhile p := rfl

theorem dropEndWhile_append_of_all {p : Char → Bool} {t : Text} (h : ∀ c ∈ t, p c = true)
    (s : Text) : dropEndWhile p (s ++ t) = dropEndWhile p s := by
  induction t using List.reverseRecOn with
  | nil => rw [List.append_nil]
  | append_singleton t c ih =>
    rw [← List.append_assoc, dropEndWhile_eq, List.rdropWhile_concat_pos _ _ _ (h c (by simp)),
      ← dropEndWhile_eq, ih fun d hd => h d (by simp [hd])]

theorem dropEndWhile_of_getLast? {p : Char → Bool} {s : Text}
    (h : ∀ c ∈ s.getLast?, p c = false) : dropEndWhile p s = s := by
  rw [dropEndWhile_eq, List.rdropWhile_eq_self_iff]
  intro hs
  simp [h _ (List.getLast?_eq_some_getLast hs)]

theorem dropWhile_of_head? {p : Char → Bool} {s : Text} (h : ∀ c ∈ s.head?, p c = false) :
    s.dropWhile p = s := by
  cases s with
  | nil => rfl
  | cons c rest => rw [List.dropWhile_cons_of_neg (by simp [h c rfl])]

/-- A text is what `strip` leaves of it between two gaps. -/
theorem exists_gaps (s : Text) : ∃ a b, s = a ++ strip s ++ b ∧ IsGap a ∧ IsGap b := by
  refine ⟨s.takeWhile isBlank, (s.dropWhile isBlank).rtakeWhile isBlank, ?_,
    fun c hc => (List.mem_takeWhile_imp hc), fun c hc => List.mem_rtakeWhile_imp hc⟩
  rw [strip, dropEndWhile_eq, List.append_assoc, List.rdropWhile_append_rtakeWhile,
    List.takeWhile_append_dropWhile]

theorem strip_of_trimmed {s : Text} (h : Trimmed s) : strip s = s := by
  rw [strip, dropWhile_of_head? h.start, dropEndWhile_of_getLast? h.finish]

theorem strip_gap_append {a : Text} (ha : IsGap a) (s : Text) : strip (a ++ s) = strip s := by
  rw [strip, strip, List.dropWhile_append_of_pos ha]

theorem strip_append_gap {b : Text} (hb : IsGap b) (s : Text) : strip (s ++ b) = strip s := by
  by_cases hs : IsGap s
  · rw [strip_gap_append hs, ← List.append_nil s, strip_gap_append hs, ← List.append_nil b,
      strip_gap_append hb]
  · rw [strip, strip, List.dropWhile_append, if_neg, dropEndWhile_append_of_all hb]
    intro h
    exact hs (marks_eq_nil_iff.1 (by rw [← marks_dropWhile, List.isEmpty_iff.1 h]; rfl))

/-- Gaps around a trimmed text are all that `strip` takes. -/
theorem strip_gaps {a s b : Text} (ha : IsGap a) (hs : Trimmed s) (hb : IsGap b) :
    strip (a ++ s ++ b) = s := by
  rw [strip_append_gap hb, strip_gap_append ha, strip_of_trimmed hs]

theorem trimmed_strip (s : Text) : Trimmed (strip s) := by
  constructor
  · intro c hc
    obtain ⟨b, hb⟩ := List.rdropWhile_prefix isBlank (l := s.dropWhile isBlank)
    have first : (s.dropWhile isBlank).head? = some c := by
      rw [← hb, List.head?_append]
      exact Option.or_eq_some_iff.2 (.inl hc)
    rw [head?_dropWhile] at first
    exact (mem_marks.1 (List.mem_of_head? first)).2
  · intro c hc
    rw [strip, dropEndWhile_eq] at hc
    obtain ⟨hne, rfl⟩ := List.mem_getLast?_eq_getLast hc
    simpa using List.rdropWhile_last_not _ _ hne

@[simp] theorem marks_strip (s : Text) : marks (strip s) = marks s := by
  obtain ⟨a, b, hs, ha, hb⟩ := exists_gaps s
  conv_rhs => rw [hs, marks_append, marks_append, ha.marks, hb.marks, List.append_nil,
    List.nil_append]

/-- A trimmed text has a mark at its end, if it has anything. -/
theorem Trimmed.getLast?_marks {s : Text} (h : Trimmed s) : (marks s).getLast? = s.getLast? := by
  induction s using List.reverseRecOn with
  | nil => rfl
  | append_singleton s c =>
    have hc : isBlank c = false := h.finish c (by rw [List.getLast?_concat]; rfl)
    rw [marks_append, marks_cons_of_not hc, marks_nil, List.getLast?_concat, List.getLast?_concat]

theorem Trimmed.marks_eq_nil_iff {s : Text} (h : Trimmed s) : marks s = [] ↔ s = [] := by
  rw [← List.getLast?_eq_none_iff, h.getLast?_marks, List.getLast?_eq_none_iff]

theorem mem_of_mem_strip {c : Char} {s : Text} (h : c ∈ strip s) : c ∈ s := by
  obtain ⟨a, b, hs, -, -⟩ := exists_gaps s
  rw [hs]
  simp [h]

/-! ## Places -/

/-- `P c rest` holds of every character `c` of the text and what follows it. -/
def Along (P : Char → Text → Prop) : Text → Prop
  | [] => True
  | c :: rest => P c rest ∧ Along P rest

variable {P Q : Char → Text → Prop}

instance decidableAlong [∀ c s, Decidable (P c s)] : (s : Text) → Decidable (Along P s)
  | [] => inferInstanceAs (Decidable True)
  | c :: rest =>
    have := decidableAlong rest
    inferInstanceAs (Decidable (P c rest ∧ Along P rest))

@[simp] theorem along_nil : Along P [] := trivial

@[simp] theorem along_cons {c : Char} {rest : Text} :
    Along P (c :: rest) ↔ P c rest ∧ Along P rest := Iff.rfl

/-- A property holds along two texts, one behind the other, if it holds along the second, and
along the first with the second in view. -/
theorem along_append {s t : Text} :
    Along P (s ++ t) ↔ Along (fun c rest => P c (rest ++ t)) s ∧ Along P t := by
  induction s with
  | nil => simp
  | cons c rest ih => simp [ih, and_assoc]

theorem along_iff {s : Text} :
    Along P s ↔ ∀ before c rest, s = before ++ c :: rest → P c rest := by
  constructor
  · rintro h before c rest rfl
    exact (along_append.1 h).2.1
  · intro h
    induction s with
    | nil => trivial
    | cons c rest ih =>
      refine ⟨h [] c rest rfl, ih fun before d tail hs => h (c :: before) d tail ?_⟩
      rw [hs, List.cons_append]

theorem Along.imp {s : Text} (h : Along P s) (himp : ∀ c rest, P c rest → Q c rest) :
    Along Q s := by
  induction s with
  | nil => trivial
  | cons c rest ih => exact ⟨himp c rest h.1, ih h.2⟩

theorem Along.and {s : Text} (h : Along P s) (h' : Along Q s) :
    Along (fun c rest => P c rest ∧ Q c rest) s := by
  induction s with
  | nil => trivial
  | cons c rest ih => exact ⟨⟨h.1, h'.1⟩, ih h.2 h'.2⟩

/-- What holds along a text holds along its end. -/
theorem Along.of_suffix {s t : Text} (h : Along P s) (ht : t <:+ s) : Along P t := by
  obtain ⟨a, rfl⟩ := ht
  exact (along_append.1 h).2

/-! ## Replacing along a text -/

section Replacing

variable {old new s : Text} {c : Char}

theorem replace_old_append (hne : old ≠ []) (new s : Text) :
    replace old new (old ++ s) = new ++ replace old new s := by
  have hskip (p : Text) : replaceAfter old new p.length (p ++ s) = replace old new s := by
    induction p with
    | nil => rfl
    | cons c rest ih => exact ih
  obtain ⟨d, rest, hcons⟩ := List.exists_cons_of_ne_nil hne
  have hlength : old.length - 1 = rest.length := by rw [hcons, List.length_cons, Nat.add_sub_cancel]
  have hsplit : old ++ s = d :: (rest ++ s) := by rw [hcons, List.cons_append]
  have hpre : old.isPrefixOf (d :: (rest ++ s)) = true := by
    rw [← hsplit]
    exact List.isPrefixOf_iff_prefix.2 (List.prefix_append old s)
  rw [hsplit, replace, replaceAfter, if_pos hpre, hlength, hskip rest]

theorem replace_cons_of_differs (h : ¬old <+: c :: s) (new : Text) :
    replace old new (c :: s) = c :: replace old new s := by
  rw [replace, replaceAfter, if_neg (mt List.isPrefixOf_iff_prefix.1 h), replace]

/-- Replacing goes along the text: over what is replaced, and over single characters. -/
theorem replace_induction {P : Text → Prop} (hne : old ≠ []) (nil : P [])
    (found : ∀ rest, P rest → P (old ++ rest))
    (cons : ∀ c rest, ¬old <+: c :: rest → P rest → P (c :: rest)) (s : Text) : P s := by
  induction hlength : s.length using Nat.strong_induction_on generalizing s with
  | _ length ih =>
  cases s with
  | nil => exact nil
  | cons c rest =>
    by_cases hpre : old <+: c :: rest
    · obtain ⟨after, hafter⟩ := hpre
      have hshorter : after.length < length := by
        rw [← hlength, ← hafter, List.length_append]
        exact Nat.lt_add_of_pos_left (List.length_pos_iff.2 hne)
      rw [← hafter]
      exact found after (ih _ hshorter after rfl)
    · exact cons c rest hpre (ih _ (by simp [← hlength]) rest rfl)

/-- **What one replacement keeps, replacing keeps.** -/
theorem replace_invariant {α : Type} {f : Text → α} (hne : old ≠ [])
    (step : ∀ a b, f (a ++ new ++ b) = f (a ++ old ++ b)) (s : Text) :
    f (replace old new s) = f s := by
  -- What stands in front has been replaced already.
  have hfront (a : Text) : f (a ++ replace old new s) = f (a ++ s) := by
    induction s using replace_induction hne generalizing a with
    | nil => rfl
    | found rest ih =>
      rw [replace_old_append hne, ← List.append_assoc, ih, step, List.append_assoc]
    | cons c rest hpre ih =>
      rw [replace_cons_of_differs hpre, List.append_cons, ih, ← List.append_cons]
  exact hfront []

end Replacing

end CSpelling.Text

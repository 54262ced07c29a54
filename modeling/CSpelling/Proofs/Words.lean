import CSpelling.Proofs.Decorations
import CSpelling.Tree

/-!
# Words as types

A word that is no qualifier is a normal spelling, and so is such a word behind another one and a
space (`IsNormal.append_word`). If no text of a system header occurs in it, it is a base type,
alone (`isBase_word`) or behind the keyword of an aggregate (`isBase_tagged`).
-/

namespace CSpelling

open Text CSpelling.Normal Decorations

/-- The text is a word. -/
structure IsWord (s : Text) : Prop where
  /-- There is something. -/
  ne_nil : s ≠ []
  /-- There are word characters alone. -/
  chars : ∀ c ∈ s, isWordChar c = true

instance (s : Text) : Decidable (IsWord s) :=
  decidable_of_iff (s ≠ [] ∧ ∀ c ∈ s, isWordChar c = true)
    ⟨fun h => ⟨h.1, h.2⟩, fun h => ⟨h.ne_nil, h.chars⟩⟩

variable {v w : Text}

theorem isBlank_of_isWordChar {c : Char} (h : isWordChar c = true) : isBlank c = false := by
  by_contra hblank
  simp [not_isWordChar_of_isBlank (Bool.not_eq_false _ ▸ hblank)] at h

theorem ne_of_isWordChar {c d : Char} (hc : isWordChar c = true) (hd : isWordChar d = false) :
    c ≠ d := by
  rintro rfl
  simp [hc] at hd

namespace IsWord

theorem not_mem (h : IsWord w) {c : Char} (hc : isWordChar c = false) : c ∉ w :=
  fun hmem => ne_of_isWordChar (h.chars c hmem) hc rfl

theorem trimmed (h : IsWord w) : Trimmed w :=
  ⟨fun c hc => isBlank_of_isWordChar (h.chars c (List.mem_of_head? hc)),
    fun c hc => isBlank_of_isWordChar (h.chars c (List.mem_of_getLast? hc))⟩

theorem isControl (h : IsWord w) : ∀ c ∈ w, isControl c = false :=
  fun c hc => isControl_of_isWordChar (h.chars c hc)

theorem isChunk (h : IsWord w) : IsChunk w := by
  exact .inl ⟨h.ne_nil, h.chars⟩

theorem tokens (h : IsWord w) : tokens w = [w] := by
  obtain ⟨c, rest, rfl⟩ := List.exists_cons_of_ne_nil h.ne_nil
  have hblank := isBlank_of_isWordChar (h.chars c (by simp))
  rw [Text.tokens, chunks_of_isChunk h.isChunk]
  simp [hblank]

/-- Word characters stand in their place before everything but stars and brackets. -/
theorem along_placed_append {t : Text} (h : ∀ c ∈ w, isWordChar c = true) (ht : Along Placed t)
    (hstar : t.head? ≠ some '*') (hbracket : t.head? ≠ some '[') : Along Placed (w ++ t) := by
  have hall : ∀ d ∈ ['*', '(', ' ', ']', '['], isWordChar d = false := by decide
  induction w with
  | nil => exact ht
  | cons c rest ih =>
    have hrest : ∀ d ∈ rest, isWordChar d = true := fun d hd => h d (List.mem_cons_of_mem _ hd)
    have hne {d : Char} (hd : isWordChar d = false) : c ≠ d := ne_of_isWordChar (h c (by simp)) hd
    have hhead {d : Char} (hd : isWordChar d = false) (ht : t.head? ≠ some d) :
        (rest ++ t).head? ≠ some d := by
      cases rest with
      | nil => exact ht
      | cons e tail =>
        intro heq
        exact ne_of_isWordChar (hrest e (by simp)) hd (Option.some.inj heq)
    refine ⟨placed_of_plain ?_ (hhead (hall _ (by simp)) hstar) (hhead (hall _ (by simp)) hbracket),
      ih hrest⟩
    simp [hne (hall '*' (by simp)), hne (hall '(' (by simp)), hne (hall ' ' (by simp)),
      hne (hall ']' (by simp))]

theorem along_placed (h : IsWord w) : Along Placed w := by
  simpa using along_placed_append h.chars (t := []) trivial (by simp) (by simp)

/-- A word that is no qualifier is normal. -/
theorem isNormal (h : IsWord w) (hq : w ∉ qualifiers) : IsNormal w := by
  refine isNormal_iff_placed.2 ⟨h.trimmed, h.isControl, fun q hmem hw => hq ?_, h.along_placed⟩
  rw [h.tokens, List.mem_singleton] at hw
  exact hw ▸ hmem

/-- Two words that are no qualifiers are normal with a space between them. -/
theorem isNormal_append (hv : IsWord v) (hvq : v ∉ qualifiers) (hw : IsWord w)
    (hwq : w ∉ qualifiers) : IsNormal (v ++ ' ' :: w) := by
  have hspace : isWordChar ' ' = false := not_isWordChar_of_isBlank isBlank_space
  obtain ⟨c, rest, rfl⟩ := List.exists_cons_of_ne_nil hw.ne_nil
  refine isNormal_iff_placed.2 ⟨⟨?_, ?_⟩, fun d hd => ?_, ?_, along_placed_append hv.chars
    ⟨placed_space (ne_of_isWordChar (hw.chars c (by simp)) hspace), hw.along_placed⟩
    (by simp) (by simp)⟩
  · rw [List.head?_append_of_ne_nil _ hv.ne_nil]
    exact hv.trimmed.start
  · rw [List.getLast?_append_cons, List.getLast?_cons_of_ne_nil (by simp)]
    exact hw.trimmed.finish
  · rcases List.mem_append.1 hd with hd | hd
    · exact hv.isControl d hd
    rcases List.mem_cons.1 hd with rfl | hd
    · decide
    · exact hw.isControl d hd
  · refine words_append (fun _ => startsWord_cons ' ' _ ▸ hspace) (fun q hmem hmemv => ?_)
      (fun q hmem hmemw => ?_)
    · rw [hv.tokens, List.mem_singleton] at hmemv
      exact hvq (hmemv ▸ hmem)
    · rw [tokens_cons_of_blank isBlank_space, hw.tokens, List.mem_singleton] at hmemw
      exact hwq (hmemw ▸ hmem)

end IsWord

/-! ## Base types -/

/-- A word is a base type. -/
theorem isBase_word (h : IsWord w) (hq : w ∉ qualifiers) (hfree : FreeOf w) : IsBase w :=
  ⟨h.ne_nil, fun c hc => .inl (h.chars c hc), normalize_of_isNormal (h.isNormal hq), hfree⟩

/-- Nothing is looked for in two words with a space between them if nothing is looked for in
either. -/
theorem freeOf_append_space (hv : FreeOf v) (hw : FreeOf w) :
    FreeOf (v ++ ' ' :: w) := by
  have all : ∀ part ∈ systemTexts, ∃ last ∈ systemTexts, ' ' ∉ last ∧ last <:+ part := by
    decide
  intro part hpart hinfix
  obtain ⟨last, hlast, hspace, hsuffix⟩ := all part hpart
  exact not_infix_append_cons hspace (hv last hlast) (hw last hlast)
    (hsuffix.isInfix.trans hinfix)

/-- A word behind the keyword of an aggregate is a base type. -/
theorem isBase_tagged (a : Aggregate) (h : IsWord w) (hq : w ∉ qualifiers) (hfree : FreeOf w) :
    IsBase (a.keyword ++ ' ' :: w) := by
  have hkeyword : IsWord a.keyword ∧ a.keyword ∉ qualifiers ∧ FreeOf a.keyword := by
    cases a <;> exact ⟨by decide, by decide, by decide⟩
  obtain ⟨hword, hkq, hkfree⟩ := hkeyword
  refine ⟨by simp, fun c hc => ?_, normalize_of_isNormal (hword.isNormal_append hkq h hq),
    freeOf_append_space hkfree hfree⟩
  rcases List.mem_append.1 hc with hc | hc
  · exact .inl (hword.chars c hc)
  rcases List.mem_cons.1 hc with rfl | hc
  · exact .inr rfl
  · exact .inl (h.chars c hc)

end CSpelling

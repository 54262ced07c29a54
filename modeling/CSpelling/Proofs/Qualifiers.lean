import CSpelling.Proofs.Layout

/-!
# Qualifiers next to spaces

A qualifier between two spaces leaves no more than these spaces behind, and a pass sees no space
at an end (`once_cons_space`, `once_append_space`) and no second space next to a first one
(`once_space_space`). So a qualifier put at an end of a text or next to a space in it does not
change the normal spelling (`normalize_insert_qualifier`).
-/

namespace CSpelling.Normal

open Text

/-! ## Spaces at the end -/

theorem closeMarkers_append_gap {b : Text} (hb : IsGap b) (s : Text) :
    closeMarkers (s ++ b) = closeMarkers s ++ b := by
  induction s with
  | nil => exact closeMarkers_piece hb.isPiece
  | cons c rest ih =>
    rw [List.cons_append]
    by_cases hmarker : c = '(' ∧ ['*', ')'] <+: marks rest
    · obtain ⟨rfl, hpre⟩ := hmarker
      obtain ⟨after, hafter⟩ := exists_afterMarker? (s := closeMarkers rest) (by simpa using hpre)
      obtain ⟨u, v, heq, hu, hv⟩ := afterMarker?_eq_some_iff.1 hafter
      have hlonger : afterMarker? (closeMarkers (rest ++ b)) = some (after ++ b) :=
        afterMarker?_eq_some_iff.2 ⟨u, v, by simp [ih, heq], hu, hv⟩
      rw [closeMarkers_open hafter, closeMarkers_open hlonger]
      rfl
    · have hlonger : c = '(' → ¬['*', ')'] <+: marks (rest ++ b) := by
        simpa [hb.marks] using hmarker
      rw [closeMarkers_cons_of_not hlonger, closeMarkers_cons_of_not (by simpa using hmarker), ih,
        List.cons_append]

/-- A pass trims at the end, too. -/
theorem once_append_space (s : Text) : once (s ++ [' ']) = once s := by
  obtain ⟨b, hb, heq⟩ := exists_unclosed_append isBlank_space s
  rw [once_eq_unclosed, heq, closeMarkers_append_gap hb, strip_append_gap hb, once_eq_unclosed]

/-! ## Two spaces for one -/

/-- The first text has a second space in one place, if it differs from the other. -/
def Doubles (s t : Text) : Prop :=
  s = t ∨ ∃ before after, s = before ++ ' ' :: ' ' :: after ∧ t = before ++ ' ' :: after

theorem Doubles.cons {s t : Text} (h : Doubles s t) (c : Char) : Doubles (c :: s) (c :: t) := by
  obtain rfl | ⟨before, after, rfl, rfl⟩ := h
  · exact .inl rfl
  · exact .inr ⟨c :: before, after, rfl, rfl⟩

theorem Doubles.dropWhile {s t : Text} (h : Doubles s t) :
    Doubles (s.dropWhile isBlank) (t.dropWhile isBlank) := by
  obtain rfl | ⟨before, after, rfl, rfl⟩ := h
  · exact .inl rfl
  by_cases hbefore : IsGap before
  · -- the place is in the white space that goes
    refine .inl ?_
    rw [List.dropWhile_append_of_pos hbefore, List.dropWhile_append_of_pos hbefore,
      List.dropWhile_cons_of_pos isBlank_space]
  · have hmark : (before.dropWhile isBlank).isEmpty ≠ true := fun hempty =>
      hbefore (marks_eq_nil_iff.1 (by rw [← marks_dropWhile, List.isEmpty_iff.1 hempty, marks_nil]))
    refine .inr ⟨before.dropWhile isBlank, after, ?_, ?_⟩ <;>
      rw [List.dropWhile_append, if_neg hmark]

/-- Stars are closed over a second space, or the space stays beside the first. -/
theorem doubles_closeStars (s t : Text) :
    Doubles (closeStars (s ++ ' ' :: ' ' :: t)) (closeStars (s ++ ' ' :: t)) := by
  have hspace (u : Text) : closeStars (' ' :: u) = ' ' :: closeStars u :=
    closeStars_cons_of_not fun h => absurd h (by decide)
  induction s with
  | nil => exact .inr ⟨[], closeStars t, by simp [hspace], by simp [hspace]⟩
  | cons c rest ih =>
    have hmarks : marks (rest ++ ' ' :: ' ' :: t) = marks (rest ++ ' ' :: t) := by
      simp [marks_cons_of_blank]
    rw [List.cons_append, List.cons_append]
    by_cases hstar : c = '*' ∧ (marks (rest ++ ' ' :: t)).head? = some '*'
    · obtain ⟨rfl, hrest⟩ := hstar
      rw [closeStars_star (hmarks ▸ hrest), closeStars_star hrest]
      exact ih.dropWhile.cons '*'
    · have hnot : c = '*' → (marks (rest ++ ' ' :: t)).head? ≠ some '*' := by simpa using hstar
      rw [closeStars_cons_of_not (hmarks ▸ hnot), closeStars_cons_of_not hnot]
      exact ih.cons c

theorem Doubles.squeeze_spaceBrackets {s t : Text} (h : Doubles s t) :
    squeeze (spaceBrackets s) = squeeze (spaceBrackets t) := by
  obtain rfl | ⟨before, after, rfl, rfl⟩ := h
  · rfl
  have hspace (u : Text) : spaceBrackets (' ' :: u) = ' ' :: spaceBrackets u := by
    rw [spaceBrackets_cons, if_neg (by decide)]
  rw [spaceBrackets_append, spaceBrackets_append, hspace, hspace]
  exact squeeze_append_congr (squeeze_space rfl) _

/-- A pass leaves one space of two. -/
theorem once_space_space (s t : Text) : once (s ++ ' ' :: ' ' :: t) = once (s ++ ' ' :: t) := by
  have hspace (u : Text) : spaceStars (' ' :: u) = ' ' :: spaceStars u := by
    rw [spaceStars_cons, if_neg (by decide)]
  have hword : isWordChar ' ' = false := not_isWordChar_of_isBlank isBlank_space
  rw [once_eq_unclosed, once_eq_unclosed, unclosed, unclosed, dropQualifiers_append_cons hword,
    dropQualifiers_append_cons hword, dropQualifiers_cons hword, dropControls_append,
    dropControls_append, dropControls_cons_space, dropControls_cons_space, spaceStars_append,
    spaceStars_append, hspace, hspace, (doubles_closeStars _ _).squeeze_spaceBrackets]

/-! ## Qualifiers -/

/-- A pass finds two spaces where a qualifier stands between them. -/
theorem once_spaced_qualifier {q : Text} (hq : q ∈ qualifiers) (s t : Text) :
    once (s ++ ' ' :: (q ++ ' ' :: t)) = once (s ++ ' ' :: ' ' :: t) := by
  have hword : isWordChar ' ' = false := not_isWordChar_of_isBlank isBlank_space
  rw [once_eq_respace, once_eq_respace, dropQualifiers_append_cons hword,
    dropQualifiers_append_cons hword, dropQualifiers_append_cons hword, dropQualifiers_self hq,
    dropQualifiers_cons hword, List.nil_append]

/-- **A qualifier put at an end of a text, or next to a space in it, plays no part in the normal
spelling.** -/
theorem normalize_insert_qualifier {a b q : Text} (hq : q ∈ qualifiers)
    (hplace : a = [] ∨ b = [] ∨ a.getLast? = some ' ' ∨ b.head? = some ' ') :
    normalize (a ++ ' ' :: (q ++ ' ' :: b)) = normalize (a ++ b) := by
  suffices h : once (a ++ ' ' :: ' ' :: b) = once (a ++ b) by
    rw [normalize_eq, once_spaced_qualifier hq, h, normalize_eq]
  rcases hplace with rfl | rfl | hlast | hfirst
  · exact (once_cons_space _).trans (once_cons_space b)
  · rw [once_space_space, once_append_space, List.append_nil]
  · obtain ⟨front, rfl⟩ := List.getLast?_eq_some_iff.1 hlast
    rw [List.append_assoc, List.append_assoc, List.singleton_append, once_space_space,
      List.singleton_append, once_space_space]
  · obtain ⟨tail, rfl⟩ := List.head?_eq_some_iff.1 hfirst
    rw [once_space_space, once_space_space]

/-- A qualifier between a group of brackets and the space behind it, in a text with stars. -/
theorem normalize_insert_qualifier_behind_group :
    let before := "int * *[2]".toList
    let behind := " [3]".toList
    "const".toList ∈ qualifiers ∧ behind.head? = some ' ' ∧
      normalize (before ++ ' ' :: ("const".toList ++ ' ' :: behind)) =
        normalize (before ++ behind) :=
  ⟨by decide, rfl, normalize_insert_qualifier (by decide) (.inr (.inr (.inr rfl)))⟩

end CSpelling.Normal

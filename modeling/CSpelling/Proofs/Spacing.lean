import CSpelling.Proofs.NormalForm

/-!
# White space that a pass does not see

A space at the beginning of a text (`once_cons_space`), a qualifier there with a space behind it
(`normalize_qualifier`), and a space in front of a bracket (`normalize_space_bracket`) leave the
normal spelling as it is.
-/

namespace CSpelling.Normal

open Text

/-! ## Steps along an append -/

theorem spaceBrackets_append (s t : Text) :
    spaceBrackets (s ++ t) = spaceBrackets s ++ spaceBrackets t := List.flatMap_append

/-- A text that does not begin with a star ends the stars before it. -/
theorem closeStars_append {t : Text} (h : (marks t).head? ≠ some '*') (s : Text) :
    closeStars (s ++ t) = closeStars s ++ closeStars t := by
  induction s with
  | nil => rfl
  | cons c rest ih =>
    rw [List.cons_append]
    by_cases hstar : c = '*' ∧ (marks rest).head? = some '*'
    · obtain ⟨rfl, hrest⟩ := hstar
      have hdrop : ((closeStars rest ++ closeStars t).dropWhile isBlank) =
          (closeStars rest).dropWhile isBlank ++ closeStars t := by
        rw [List.dropWhile_append, if_neg]
        intro hempty
        rw [← marks_closeStars, ← head?_dropWhile, List.isEmpty_iff.1 hempty] at hrest
        cases hrest
      rw [closeStars_star hrest, closeStars_star (by simp [List.head?_append, hrest]), ih, hdrop,
        List.cons_append]
    · have hneither : c = '*' → (marks (rest ++ t)).head? ≠ some '*' := by
        rintro rfl
        have hrest : (marks rest).head? ≠ some '*' := fun h => hstar ⟨rfl, h⟩
        rw [marks_append, List.head?_append]
        cases hhead : (marks rest).head? with
        | none => simpa using h
        | some d => simpa [hhead] using hrest
      rw [closeStars_cons_of_not fun hc hrest => hstar ⟨hc, hrest⟩,
        closeStars_cons_of_not hneither, ih, List.cons_append]

/-- What follows a text plays its part only through its own squeezed form. -/
theorem squeeze_append_congr {t u : Text} (h : squeeze t = squeeze u) (s : Text) :
    squeeze (s ++ t) = squeeze (s ++ u) := by
  induction s with
  | nil => exact h
  | cons c rest ih => rw [List.cons_append, List.cons_append, squeeze, squeeze, ih]

/-! ## Spaces and qualifiers at the beginning -/

theorem respace_cons_space (s : Text) : respace (' ' :: s) = respace s := by
  have hsqueeze (t : Text) :
      squeeze (' ' :: t) = squeeze t ∨ squeeze (' ' :: t) = ' ' :: squeeze t := by
    by_cases h : t.head? = some ' '
    · exact .inl (squeeze_space h)
    · exact .inr (squeeze_cons_of_not fun _ => h)
  rw [respace, spaceStars_cons, if_neg (by decide),
    closeStars_cons_of_not fun h => absurd h (by decide), spaceBrackets_cons,
    if_neg (by decide)]
  rcases hsqueeze (spaceBrackets (closeStars (spaceStars s))) with h | h <;> rw [h]
  · rfl
  · rw [joinGroups_cons_of_ne (by decide), closeMarkers_cons_of_ne (by decide)]
    exact strip_gap_append isGap_space _

theorem dropControls_cons_space (s : Text) : dropControls (' ' :: s) = ' ' :: dropControls s :=
  List.filter_cons_of_pos (by decide)

/-- A pass trims. -/
theorem once_cons_space (s : Text) : once (' ' :: s) = once s := by
  rw [once_eq_respace, dropQualifiers_cons (by decide), dropControls_cons_space, respace_cons_space,
    once_eq_respace]

theorem dropQualifiers_self {q : Text} (hq : q ∈ qualifiers) : dropQualifiers q = [] := by
  have all : ∀ q ∈ qualifiers, dropQualifiers q = [] := by decide +kernel
  exact all q hq

/-- A pass leaves out a qualifier at the beginning. -/
theorem once_qualifier {q : Text} (hq : q ∈ qualifiers) (s : Text) :
    once (q ++ ' ' :: s) = once s := by
  have hspace : isWordChar ' ' = false := not_isWordChar_of_isBlank isBlank_space
  rw [once_eq_respace, dropQualifiers_append (by simp [hspace]), dropQualifiers_self hq,
    List.nil_append,
    ← once_eq_respace, once_cons_space]

/-- **Qualifiers at the beginning play no part in the normal spelling.** -/
theorem normalize_qualifier {q : Text} (hq : q ∈ qualifiers) (s : Text) :
    normalize (q ++ ' ' :: s) = normalize s := by
  rw [normalize_eq, once_qualifier hq, normalize_eq]

/-! ## Brackets -/

theorem respace_space_bracket (s t : Text) :
    respace (s ++ ' ' :: '[' :: t) = respace (s ++ '[' :: t) := by
  have hbracket (u : Text) : (marks ('[' :: u)).head? ≠ some '*' := by
    simp [marks_cons_of_not]
  have hspace (u : Text) : (marks (' ' :: '[' :: u)).head? ≠ some '*' := by
    rw [marks_cons_of_blank isBlank_space]
    exact hbracket u
  rw [respace, respace, spaceStars_append, spaceStars_append, spaceStars_cons, spaceStars_cons,
    if_neg (by decide), if_neg (by decide), closeStars_append (hspace _),
    closeStars_append (hbracket _), closeStars_cons_of_not fun h => absurd h (by decide),
    closeStars_cons_of_not fun h => absurd h (by decide), spaceBrackets_append,
    spaceBrackets_append, spaceBrackets_cons, spaceBrackets_cons, if_neg (by decide), if_pos rfl]
  exact congrArg (fun u => strip (closeMarkers (joinGroups u)))
    (squeeze_append_congr (squeeze_space rfl) _)

/-- A pass puts a space in front of a bracket. -/
theorem once_space_bracket (s t : Text) :
    once (s ++ ' ' :: '[' :: t) = once (s ++ '[' :: t) := by
  have hstart (u : Text) : startsWord ('[' :: u) = false := by
    rw [startsWord_cons]
    exact not_isWordChar_of_mem (by decide)
  have hspace (u : Text) : startsWord (' ' :: u) = false := by
    rw [startsWord_cons]
    exact not_isWordChar_of_isBlank isBlank_space
  have hbracket (u : Text) : dropControls (dropQualifiers ('[' :: u)) =
      '[' :: dropControls (dropQualifiers u) := by
    have h := dropQualifiers_append (s := ['[']) (t := u) fun h => absurd h (by decide)
    rw [show '[' :: u = ['['] ++ u from rfl, h]
    exact List.filter_cons_of_pos (by decide)
  rw [once_eq_respace, once_eq_respace, dropQualifiers_append fun _ => hspace _,
    dropQualifiers_append fun _ => hstart _, dropQualifiers_cons (by decide), dropControls_append,
    dropControls_append, dropControls_cons_space, hbracket, respace_space_bracket]

/-- **A space in front of a bracket plays no part in the normal spelling.** -/
theorem normalize_space_bracket (s t : Text) :
    normalize (s ++ ' ' :: '[' :: t) = normalize (s ++ '[' :: t) := by
  rw [normalize_eq, once_space_bracket, normalize_eq]

end CSpelling.Normal

import CSpelling.BaseType
import CSpelling.Proofs.Fragments
import CSpelling.Proofs.Weights

/-!
# Peeling to the end

A layer that is peeled off a spelling uses up a mark (`weight_lt_of_peel`), and normal spellings are
no heavier than others, so that there are at most as many layers as characters. `Peels` goes from
layer to layer without a bound, and `baseType` arrives where it ends (`peels_baseType`): at a normal
spelling from which nothing can be peeled.
-/

namespace CSpelling

open Text

variable {s t r : Text} {n : Nat}

/-! ## One layer -/

theorem marker_ne_nil : marker ≠ [] := by decide

/-- What can be peeled: an array, a pointer, or the parentheses of every marker. -/
theorem peel_cases (h : peel s = some t) :
    (∃ after, s = t ++ '[' :: after ∧ '[' ∉ after) ∨ s = t ++ ['*'] ∨
      marker <:+: s ∧ t = replace marker ['*'] s := by
  unfold peel at h
  split at h
  · next element after harray =>
    cases h
    split_ifs at harray
    exact .inl ⟨after, eq_of_cutLast harray⟩
  · split_ifs at h with hstar hmarker
    · cases h
      obtain ⟨front, rfl⟩ := List.getLast?_eq_some_iff.1 hstar
      exact .inr (.inl (by rw [List.dropLast_concat]))
    · cases h
      exact .inr (.inr ⟨(occurs_iff marker_ne_nil).1 hmarker, rfl⟩)

/-- Nothing can be peeled off a spelling that shows no array, no pointer and no marker. -/
theorem peel_eq_none_iff : peel s = none ↔
    (s.getLast? = some ']' → '[' ∉ s) ∧ s.getLast? ≠ some '*' ∧ ¬marker <:+: s := by
  rw [← occurs_iff marker_ne_nil]
  unfold peel
  split
  · next element after harray =>
    split_ifs at harray with hlast
    have hmem : '[' ∈ s := by simp [(eq_of_cutLast harray).1]
    simp [hlast, hmem]
  · next harray =>
    have hnone : s.getLast? = some ']' → '[' ∉ s := fun hlast => by
      simpa [hlast, cutLast_eq_none_iff] using harray
    split_ifs with hstar hmarker
    · simp [hstar]
    · simp [hmarker]
    · exact iff_of_true rfl ⟨hnone, hstar, hmarker⟩

theorem weight_replace_marker_lt (h : marker <:+: s) :
    weight (replace marker ['*'] s) < weight s := by
  have hstar : weight ['*'] = 1 := by decide
  have hthree : weight marker = 3 := by decide
  induction s using replace_induction marker_ne_nil with
  | nil => exact absurd (List.infix_nil.1 h) marker_ne_nil
  | found rest ih =>
    have hrest : weight (replace marker ['*'] rest) ≤ weight rest :=
      weight_replace_le (by omega) rest
    rw [replace_old_append marker_ne_nil, weight_append, weight_append]
    omega
  | cons c rest hnot ih =>
    have hrest := ih ((List.infix_cons_iff.1 h).resolve_left hnot)
    rw [replace_cons_of_differs hnot, weight_cons, weight_cons c rest]
    omega

/-- **Peeling uses up a mark.** -/
theorem weight_lt_of_peel (h : peel s = some t) : weight t < weight s := by
  rcases peel_cases h with ⟨after, rfl, -⟩ | rfl | ⟨hmarker, rfl⟩
  · rw [weight_append, weight_cons_of_not isBlank_bracket]
    omega
  · rw [weight_append, weight_cons_of_not isBlank_star]
    omega
  · exact weight_replace_marker_lt hmarker

/-! ## All layers -/

/-- Layer after layer is peeled off the normal spelling until nothing is left to peel: the recursion
without a bound on the number of layers. -/
inductive Peels : Text → Text → Prop
  /-- The normal spelling is bare. -/
  | bare {s : Text} : peel (normalize s) = none → Peels s (normalize s)
  /-- A layer comes off. -/
  | layer {s t r : Text} : peel (normalize s) = some t → Peels t r → Peels s r

/-- What peeling arrives at is normal, and bare. -/
theorem Peels.isBare (h : Peels s r) : normalize r = r ∧ peel r = none := by
  induction h with
  | bare hnone => exact ⟨Normal.normalize_of_isNormal (Normal.isNormal_normalize _), hnone⟩
  | layer _ _ ih => exact ih

theorem Peels.unique {u : Text} (h : Peels s r) (h' : Peels s u) : r = u := by
  induction h with
  | bare hnone =>
    cases h' with
    | bare => rfl
    | layer hsome => simp [hnone] at hsome
  | layer hsome _ ih =>
    cases h' with
    | bare hnone => simp [hsome] at hnone
    | layer hsome' h' =>
      rw [hsome] at hsome'
      cases hsome'
      exact ih h'

theorem peels_of_isBare (hr : normalize r = r) (hnone : peel r = none) : Peels r r := by
  conv => arg 2; rw [← hr]
  exact .bare (by rwa [hr])

theorem peels_baseTypeWithin (h : weight s ≤ n) : Peels s (baseTypeWithin n s) := by
  induction n generalizing s with
  | zero =>
    refine .bare ?_
    cases hpeel : peel (normalize s) with
    | none => rfl
    | some t =>
      have := weight_lt_of_peel hpeel
      have := weight_normalize_le s
      omega
  | succ n ih =>
    rw [baseTypeWithin]
    split
    · next t hpeel =>
      have := weight_lt_of_peel hpeel
      have := weight_normalize_le s
      exact .layer hpeel (ih (by omega))
    · next hpeel => exact .bare hpeel

/-- **The base type is what peeling arrives at.** -/
theorem peels_baseType (s : Text) : Peels s (baseType s) :=
  peels_baseTypeWithin (List.length_filter_le _ s)

theorem Peels.baseType_eq (h : Peels s r) : baseType s = r := (peels_baseType s).unique h

/-- The base type of a base type is itself. -/
theorem baseType_baseType (s : Text) : baseType (baseType s) = baseType s := by
  obtain ⟨hnormal, hnone⟩ := (peels_baseType s).isBare
  exact (peels_of_isBare hnormal hnone).baseType_eq

end CSpelling

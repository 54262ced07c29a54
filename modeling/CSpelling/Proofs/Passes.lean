import CSpelling.Proofs.Tokens

/-!
# The steps of a pass

After the qualifiers and the control characters are gone, the steps of a pass only move white
space: `respace` is the rest of the pass (`once_eq_respace`), and each of its steps keeps the
tokens (`respaced_spaceStars` and so on). The spaces that `joinStars` takes out at first are among
those that `respace` closes (`respace_joinStars`).

Each step brings about one property of the places of a text, and the later steps keep it:
`SpaceAlone`, `StarRun`, `StarSpaced`, `BracketSpaced`, `GroupsJoined`, `MarkerClosed`.
`along_respace` collects what holds in the end.
-/

namespace CSpelling.Normal

open Text

/-! ## Stars -/

theorem spaceStars_cons (c : Char) (s : Text) :
    spaceStars (c :: s) = if c = '*' then ' ' :: '*' :: spaceStars s else c :: spaceStars s := by
  by_cases h : c = '*' <;> simp [spaceStars, h]

theorem respaced_spaceStars (s : Text) : Respaced s (spaceStars s) := by
  induction s with
  | nil => exact .refl []
  | cons c rest ih =>
    rw [spaceStars_cons]
    split
    · next h =>
      subst h
      exact (ih.keep '*').insert (by simpa using not_isWordChar_of_mem (c := '*') (by decide))
    · exact ih.keep c

theorem closeStars_cons (c : Char) (s : Text) :
    closeStars (c :: s) = c ::
      (if c = '*' ∧ ((closeStars s).dropWhile isBlank).head? = some '*'
        then (closeStars s).dropWhile isBlank else closeStars s) := by
  rw [closeStars]
  split
  · next after h =>
    rw [h]
    by_cases hc : c = '*' <;> simp [hc]
  · next h =>
    rw [if_neg]
    rintro ⟨-, hstar⟩
    obtain ⟨after, hafter⟩ := List.head?_eq_some_iff.1 hstar
    exact h after hafter

theorem respaced_closeStars (s : Text) : Respaced s (closeStars s) := by
  induction s with
  | nil => exact .refl []
  | cons c rest ih =>
    rw [closeStars_cons]
    split
    · next h =>
      refine (ih.trans (.dropBlanks ?_)).keep c
      rw [startsWord, h.2, Option.any_some, not_isWordChar_of_mem (by decide)]
    · exact ih.keep c

@[simp] theorem marks_closeStars (s : Text) : marks (closeStars s) = marks s :=
  (respaced_closeStars s).marks_eq.symm

theorem closeStars_star {s : Text} (h : (marks s).head? = some '*') :
    closeStars ('*' :: s) = '*' :: (closeStars s).dropWhile isBlank := by
  rw [closeStars_cons, if_pos ⟨rfl, by rw [head?_dropWhile, marks_closeStars, h]⟩]

theorem closeStars_cons_of_not {c : Char} {s : Text} (h : c = '*' → (marks s).head? ≠ some '*') :
    closeStars (c :: s) = c :: closeStars s := by
  rw [closeStars_cons, if_neg]
  rintro ⟨hc, hstar⟩
  rw [head?_dropWhile, marks_closeStars] at hstar
  exact h hc hstar

@[simp] theorem head?_closeStars (s : Text) : (closeStars s).head? = s.head? := by
  cases s with
  | nil => rfl
  | cons c rest => rw [closeStars_cons, List.head?_cons, List.head?_cons]

/-! ## Brackets and spaces -/

theorem spaceBrackets_cons (c : Char) (s : Text) :
    spaceBrackets (c :: s) =
      if c = '[' then ' ' :: '[' :: spaceBrackets s else c :: spaceBrackets s := by
  by_cases h : c = '[' <;> simp [spaceBrackets, h]

theorem respaced_spaceBrackets (s : Text) : Respaced s (spaceBrackets s) := by
  induction s with
  | nil => exact .refl []
  | cons c rest ih =>
    rw [spaceBrackets_cons]
    split
    · next h =>
      subst h
      exact (ih.keep '[').insert (by simpa using not_isWordChar_of_mem (c := '[') (by decide))
    · exact ih.keep c

theorem head?_spaceBrackets_ne {s : Text} {c : Char} (hc : c ≠ ' ') (hb : c ≠ '[') :
    (spaceBrackets s).head? = some c ↔ s.head? = some c := by
  cases s with
  | nil => simp [spaceBrackets]
  | cons d rest =>
    rw [spaceBrackets_cons]
    split
    · next h => simp [h, hc.symm, hb.symm]
    · simp

@[simp] theorem head?_squeeze (s : Text) : (squeeze s).head? = s.head? := by
  induction s with
  | nil => rfl
  | cons c rest ih =>
    rw [squeeze]
    split
    · next h =>
      obtain ⟨rfl, hs⟩ : c = ' ' ∧ (squeeze rest).head? = some ' ' := by simpa using h
      rw [hs, List.head?_cons]
    · rfl

theorem squeeze_space {s : Text} (h : s.head? = some ' ') : squeeze (' ' :: s) = squeeze s := by
  rw [squeeze, if_pos (by simp [h])]

theorem squeeze_cons_of_not {c : Char} {s : Text} (h : c = ' ' → s.head? ≠ some ' ') :
    squeeze (c :: s) = c :: squeeze s := by
  rw [squeeze, if_neg (by simpa using h)]

theorem respaced_squeeze (s : Text) : Respaced s (squeeze s) := by
  induction s with
  | nil => exact .refl []
  | cons c rest ih =>
    by_cases h : c = ' ' ∧ rest.head? = some ' '
    · obtain ⟨rfl, hs⟩ := h
      rw [squeeze_space hs]
      refine .delete isBlank_space ih ?_
      rw [startsWord, hs, Option.any_some, not_isWordChar_of_isBlank isBlank_space]
    · rw [squeeze_cons_of_not (by simpa using h)]
      exact ih.keep c

@[simp] theorem head?_joinGroups (s : Text) : (joinGroups s).head? = s.head? := by
  cases s with
  | nil => rfl
  | cons c rest =>
    unfold joinGroups
    split
    · split
      · next h => simp [h]
      · rfl
    · rfl

theorem joinGroups_cons_of_ne {c : Char} (hc : c ≠ ']') (s : Text) :
    joinGroups (c :: s) = c :: joinGroups s := by
  rw [joinGroups]
  split
  · next h => rw [if_neg hc, h]
  · rfl

theorem joinGroups_join (s : Text) :
    joinGroups (']' :: ' ' :: '[' :: s) = ']' :: joinGroups ('[' :: s) := by
  rw [joinGroups, joinGroups_cons_of_ne (by decide), joinGroups_cons_of_ne (by decide)]
  rfl

theorem joinGroups_cons_of_not {c : Char} {s : Text} (h : c = ']' → ¬[' ', '['] <+: s) :
    joinGroups (c :: s) = c :: joinGroups s := by
  by_cases hc : c = ']'
  · rw [joinGroups]
    split
    · next after hafter =>
      refine absurd ?_ (h hc)
      cases s with
      | nil => simp [joinGroups] at hafter
      | cons d rest =>
        have hd : d = ' ' := by
          have := head?_joinGroups (d :: rest)
          rw [hafter] at this
          simpa using this.symm
        subst hd
        rw [joinGroups_cons_of_ne (by decide), List.cons.injEq] at hafter
        have hrest := head?_joinGroups rest
        rw [hafter.2] at hrest
        obtain ⟨tail, rfl⟩ := List.head?_eq_some_iff.1 hrest.symm
        simp
    · rfl
  · exact joinGroups_cons_of_ne hc s

theorem exists_of_prefix_pair {a b : Char} {s : Text} (h : [a, b] <+: s) :
    ∃ rest, s = a :: b :: rest := by
  obtain ⟨rest, rfl⟩ := h
  exact ⟨rest, rfl⟩

theorem respaced_joinGroups (s : Text) : Respaced s (joinGroups s) := by
  induction s with
  | nil => exact .refl []
  | cons c rest ih =>
    by_cases h : c = ']' ∧ [' ', '['] <+: rest
    · obtain ⟨rfl, hpre⟩ := h
      obtain ⟨tail, rfl⟩ := exists_of_prefix_pair hpre
      rw [joinGroups_join]
      rw [joinGroups_cons_of_ne (by decide)] at ih
      have hstart : startsWord ('[' :: tail) = false := by
        rw [startsWord_cons, not_isWordChar_of_mem (by decide)]
      have hspace : Respaced (' ' :: joinGroups ('[' :: tail)) (joinGroups ('[' :: tail)) := by
        refine .delete isBlank_space (.refl _) ?_
        rw [startsWord, head?_joinGroups]
        exact hstart
      exact (ih.trans hspace).keep ']'
    · rw [joinGroups_cons_of_not (by simpa using h)]
      exact ih.keep c

/-! ## Markers -/

theorem afterMarker?_eq_some_iff {s after : Text} :
    afterMarker? s = some after ↔
      ∃ u v, s = u ++ '*' :: (v ++ ')' :: after) ∧ IsGap u ∧ IsGap v := by
  constructor
  · intro h
    unfold afterMarker? at h
    split at h
    · next rest hstar =>
      split at h
      · next tail hclose =>
        obtain rfl : tail = after := by simpa using h
        refine ⟨s.takeWhile isBlank, rest.takeWhile isBlank, ?_,
          fun c hc => List.mem_takeWhile_imp hc, fun c hc => List.mem_takeWhile_imp hc⟩
        rw [← hclose, List.takeWhile_append_dropWhile, ← hstar, List.takeWhile_append_dropWhile]
      · simp at h
    · simp at h
  · rintro ⟨u, v, rfl, hu, hv⟩
    rw [afterMarker?, List.dropWhile_append_of_pos hu, List.dropWhile_cons_of_neg (by simp)]
    simp only
    rw [List.dropWhile_append_of_pos hv, List.dropWhile_cons_of_neg (by simp)]
    rfl

theorem exists_afterMarker? {s : Text} (h : ['*', ')'] <+: marks s) :
    ∃ after, afterMarker? s = some after := by
  obtain ⟨tail, htail⟩ := h
  have hstar : (s.dropWhile isBlank).head? = some '*' := by rw [head?_dropWhile, ← htail]; rfl
  obtain ⟨rest, hrest⟩ := List.head?_eq_some_iff.1 hstar
  have hclose : (rest.dropWhile isBlank).head? = some ')' := by
    have hmarks : marks s = '*' :: marks rest := by
      rw [← marks_dropWhile, hrest, marks_cons_of_not isBlank_star]
    rw [head?_dropWhile, (List.cons.inj (htail.trans hmarks)).2.symm]
    rfl
  obtain ⟨after, hafter⟩ := List.head?_eq_some_iff.1 hclose
  refine ⟨after, ?_⟩
  rw [afterMarker?, hrest]
  simp only
  rw [hafter]
  rfl

theorem prefix_marks_of_afterMarker? {s after : Text} (h : afterMarker? s = some after) :
    ['*', ')'] <+: marks s := by
  obtain ⟨u, v, rfl, hu, hv⟩ := afterMarker?_eq_some_iff.1 h
  simp [marks_cons_of_not, hu.marks, hv.marks]

theorem closeMarkers_open {s after : Text} (h : afterMarker? (closeMarkers s) = some after) :
    closeMarkers ('(' :: s) = '(' :: '*' :: ')' :: after := by
  unfold closeMarkers
  simp only [h]
  rfl

theorem closeMarkers_cons_of_ne {c : Char} (hc : c ≠ '(') (s : Text) :
    closeMarkers (c :: s) = c :: closeMarkers s := by
  rw [closeMarkers]
  split
  · rw [if_neg hc]
  · rfl

@[simp] theorem head?_closeMarkers (s : Text) : (closeMarkers s).head? = s.head? := by
  cases s with
  | nil => rfl
  | cons c rest =>
    rw [closeMarkers]
    split
    · split
      · next h => simp [h]
      · rfl
    · rfl

theorem respaced_closeMarkers (s : Text) : Respaced s (closeMarkers s) := by
  induction s with
  | nil => exact .refl []
  | cons c rest ih =>
    by_cases hc : c = '('
    · subst hc
      cases hafter : afterMarker? (closeMarkers rest) with
      | none =>
        unfold closeMarkers
        simp only [hafter]
        exact ih.keep '('
      | some after =>
        rw [closeMarkers_open hafter]
        obtain ⟨u, v, heq, hu, hv⟩ := afterMarker?_eq_some_iff.1 hafter
        have inner : Respaced (v ++ ')' :: after) (')' :: after) :=
          .dropGap hv (by rw [startsWord_cons, not_isWordChar_of_mem (by decide)])
        have outer : Respaced (closeMarkers rest) ('*' :: (v ++ ')' :: after)) :=
          heq ▸ .dropGap hu (by rw [startsWord_cons, not_isWordChar_of_mem (by decide)])
        exact ((ih.trans outer).trans (inner.keep '*')).keep '('
    · rw [closeMarkers_cons_of_ne hc]
      exact ih.keep c

@[simp] theorem marks_closeMarkers (s : Text) : marks (closeMarkers s) = marks s :=
  (respaced_closeMarkers s).marks_eq.symm

theorem closeMarkers_cons_of_not {c : Char} {s : Text} (h : c = '(' → ¬['*', ')'] <+: marks s) :
    closeMarkers (c :: s) = c :: closeMarkers s := by
  rw [closeMarkers]
  split
  · next after hafter =>
    rw [if_neg]
    intro hc
    have := prefix_marks_of_afterMarker? hafter
    rw [marks_closeMarkers] at this
    exact h hc this
  · rfl

/-! ## The pass without what is left out -/

/-- The steps of a pass that only move white space. -/
def respace (s : Text) : Text :=
  strip (closeMarkers (joinGroups (squeeze (spaceBrackets (closeStars (spaceStars s))))))

theorem spaceStars_append (s t : Text) : spaceStars (s ++ t) = spaceStars s ++ spaceStars t :=
  List.flatMap_append

theorem spaceStars_of_not_mem {s : Text} (h : '*' ∉ s) : spaceStars s = s := by
  induction s with
  | nil => rfl
  | cons c rest ih =>
    rw [List.mem_cons, not_or] at h
    rw [spaceStars_cons, if_neg (Ne.symm h.1), ih h.2]

/-- The chunks that a chunk becomes when the stars are spaced. -/
def spacedChunk (w : Text) : List Text := if w = ['*'] then [[' '], ['*']] else [w]

theorem chunks_spaceStars (s : Text) :
    chunks (spaceStars s) = (chunks s).flatMap spacedChunk := by
  have star : isWordChar '*' = false := not_isWordChar_of_mem (by decide)
  have space : isWordChar ' ' = false := not_isWordChar_of_isBlank isBlank_space
  induction s with
  | nil => rfl
  | cons c rest ih =>
    rw [spaceStars_cons]
    split
    · next h =>
      subst h
      rw [chunks_cons_alone (by simp [space]), chunks_cons_alone (by simp [star]),
        chunks_cons_alone (by simp [star]), ih]
      rfl
    · next h =>
      have hstart := (respaced_spaceStars rest).start
      by_cases hjoin : isWordChar c = true ∧ startsWord rest = true
      · cases hrest : chunks rest with
        | nil => rw [← flatten_chunks rest, hrest] at hjoin; simp at hjoin
        | cons w ws =>
          have hw : w ≠ ['*'] := by
            rintro rfl
            have := startsWord_of_chunks hrest
            simp [star, hjoin.2] at this
          rw [hrest, List.flatMap_cons, spacedChunk, if_neg hw] at ih
          rw [chunks_cons_join hjoin.1 (hstart ▸ hjoin.2) ih,
            chunks_cons_join hjoin.1 hjoin.2 hrest, List.flatMap_cons, spacedChunk,
            if_neg (by simp [h])]
          rfl
      · have alone : isWordChar c = true → startsWord rest = false := by simpa using hjoin
        rw [chunks_cons_alone (hstart ▸ alone), chunks_cons_alone alone, ih, List.flatMap_cons,
          spacedChunk, if_neg (by simpa using h)]
        rfl

theorem flatten_flatMap_spacedChunk {ws : List Text} (h : ∀ w ∈ ws, w = ['*'] ∨ '*' ∉ w) :
    (ws.flatMap spacedChunk).flatten = spaceStars ws.flatten := by
  induction ws with
  | nil => rfl
  | cons w rest ih =>
    rw [List.flatMap_cons, List.flatten_append, ih fun v hv => h v (by simp [hv]),
      List.flatten_cons, spaceStars_append]
    congr 1
    obtain rfl | hstar := h w (by simp)
    · rfl
    · rw [spacedChunk, if_neg (by rintro rfl; simp at hstar), List.flatten_singleton,
        spaceStars_of_not_mem hstar]

theorem star_of_mem_chunks {w s : Text} (h : w ∈ chunks s) : w = ['*'] ∨ '*' ∉ w := by
  have star : isWordChar '*' = false := not_isWordChar_of_mem (by decide)
  obtain ⟨-, hall⟩ | ⟨c, rfl, -⟩ := (chunked_chunks s).isChunk h
  · exact .inr fun hmem => Bool.false_ne_true (star.symm.trans (hall _ hmem))
  · by_cases hc : c = '*'
    · exact .inl (by rw [hc])
    · exact .inr (by simpa using Ne.symm hc)

/-- It does not matter whether the qualifiers go before or after the stars are spaced. -/
theorem dropQualifiers_spaceStars (s : Text) :
    dropQualifiers (spaceStars s) = spaceStars (dropQualifiers s) := by
  have hfilter : ∀ ws : List Text,
      (ws.flatMap spacedChunk).filter (fun w => !qualifiers.contains w) =
        (ws.filter fun w => !qualifiers.contains w).flatMap spacedChunk := by
    intro ws
    induction ws with
    | nil => rfl
    | cons w rest ih =>
      rw [List.flatMap_cons, List.filter_append, ih]
      by_cases hq : w ∈ qualifiers
      · have hw : w ≠ ['*'] := by rintro rfl; revert hq; decide
        simp [spacedChunk, hw, hq]
      · by_cases hw : w = ['*']
        · subst hw
          rfl
        · simp [spacedChunk, hw, hq]
  rw [dropQualifiers, chunks_spaceStars, hfilter,
    flatten_flatMap_spacedChunk fun w hw => star_of_mem_chunks (List.mem_of_mem_filter hw)]
  rfl

theorem dropControls_spaceStars (s : Text) :
    dropControls (spaceStars s) = spaceStars (dropControls s) := by
  induction s with
  | nil => rfl
  | cons c rest ih =>
    rw [spaceStars_cons]
    by_cases hc : c = '*'
    · subst hc
      rw [if_pos rfl]
      simp only [dropControls] at ih ⊢
      rw [List.filter_cons_of_pos (by decide), List.filter_cons_of_pos (by decide),
        List.filter_cons_of_pos (by decide), ih, spaceStars_cons, if_pos rfl]
    · rw [if_neg hc]
      simp only [dropControls] at ih ⊢
      cases hk : isControl c with
      | true =>
        rw [List.filter_cons_of_neg (by simp [hk]), List.filter_cons_of_neg (by simp [hk]), ih]
      | false =>
        rw [List.filter_cons_of_pos (by simp [hk]), List.filter_cons_of_pos (by simp [hk]), ih,
          spaceStars_cons, if_neg hc]

/-- What follows a text plays its part only through its own closed form. -/
theorem closeStars_append_congr {t u : Text} (h : closeStars t = closeStars u) (s : Text) :
    closeStars (s ++ t) = closeStars (s ++ u) := by
  induction s with
  | nil => exact h
  | cons c rest ih => rw [List.cons_append, List.cons_append, closeStars, closeStars, ih]

/-- A pass closes the space between two stars. -/
theorem respace_stars (s t : Text) :
    respace (s ++ '*' :: '*' :: t) = respace (s ++ '*' :: ' ' :: '*' :: t) := by
  have hspace (u : Text) : closeStars (' ' :: u) = ' ' :: closeStars u :=
    closeStars_cons_of_not fun h => absurd h (by decide)
  have hdrop (u : Text) :
      (closeStars (' ' :: u)).dropWhile isBlank = (closeStars u).dropWhile isBlank := by
    rw [hspace, List.dropWhile_cons_of_pos isBlank_space]
  have hclosed : closeStars (spaceStars ('*' :: '*' :: t)) =
      closeStars (spaceStars ('*' :: ' ' :: '*' :: t)) := by
    simp only [spaceStars_cons, if_true, if_neg (show ' ' ≠ '*' by decide)]
    rw [hspace, hspace, closeStars_star (by simp [marks_cons]),
      closeStars_star (by simp [marks_cons]), hdrop, hdrop, hdrop]
  rw [respace, respace, spaceStars_append, spaceStars_append, closeStars_append_congr hclosed]

/-- It does not matter whether stars are joined before a pass: it closes the spaces between them. -/
theorem respace_joinStars (s : Text) :
    respace (dropControls (dropQualifiers (joinStars s))) =
      respace (dropControls (dropQualifiers s)) := by
  refine replace_invariant (f := fun s => respace (dropControls (dropQualifiers s))) (by decide)
    (fun a b => ?_) s
  have hkeep (c : Char) (hc : isControl c = false) (t : Text) :
      dropControls (c :: t) = c :: dropControls t := List.filter_cons_of_pos (by simp [hc])
  have hstar : isWordChar '*' = false := not_isWordChar_of_mem (by decide)
  have hspace : isWordChar ' ' = false := not_isWordChar_of_isBlank isBlank_space
  -- No part of a qualifier and no control character is replaced or put in.
  simp only [List.append_assoc, List.cons_append, List.nil_append,
    dropQualifiers_append_cons hstar, dropQualifiers_cons hstar, dropQualifiers_cons hspace,
    dropControls_append, hkeep '*' (by decide), hkeep ' ' (by decide)]
  exact respace_stars _ _

/-- A pass leaves out the qualifiers and the control characters, and then moves white space. -/
theorem once_eq_respace (s : Text) : once s = respace (dropControls (dropQualifiers s)) := by
  rw [once, dropQualifiers_spaceStars, dropControls_spaceStars]
  exact respace_joinStars s

theorem tokens_respace (s : Text) : tokens (respace s) = tokens s := by
  rw [respace, tokens_strip, ← (respaced_closeMarkers _).tokens_eq,
    ← (respaced_joinGroups _).tokens_eq, ← (respaced_squeeze _).tokens_eq,
    ← (respaced_spaceBrackets _).tokens_eq, ← (respaced_closeStars _).tokens_eq,
    ← (respaced_spaceStars _).tokens_eq]

/-- The white space that a pass moves about is spaces. -/
theorem mem_of_mem_respace {c : Char} {s : Text} (h : c ∈ respace s) : c ∈ s ∨ c = ' ' := by
  have all := ((((((respaced_spaceStars s).trans (respaced_closeStars _)).trans
    (respaced_spaceBrackets _)).trans (respaced_squeeze _)).trans
    (respaced_joinGroups _)).trans (respaced_closeMarkers _))
  exact all.mem c (mem_of_mem_strip h)

/-! ## What holds along a respaced text -/

/-- A star follows a star or a space. -/
def StarAfter (c : Char) (rest : Text) : Prop := rest.head? = some '*' → c = '*' ∨ c = ' '

/-- A star follows a star or a space, or stands in a marker. -/
def StarSpaced (c : Char) (rest : Text) : Prop :=
  rest.head? = some '*' → c = '*' ∨ c = ' ' ∨ c = '(' ∧ rest.tail.head? = some ')'

/-- Nothing but white space between two stars is nothing. -/
def StarRun (c : Char) (rest : Text) : Prop :=
  c = '*' → (marks rest).head? = some '*' → rest.head? = some '*'

/-- An opening bracket follows a space. -/
def BracketAfter (c : Char) (rest : Text) : Prop := rest.head? = some '[' → c = ' '

/-- An opening bracket follows a space or a closing bracket. -/
def BracketSpaced (c : Char) (rest : Text) : Prop := rest.head? = some '[' → c = ' ' ∨ c = ']'

/-- No second space follows a space. -/
def SpaceAlone (c : Char) (rest : Text) : Prop := c = ' ' → rest.head? ≠ some ' '

/-- No single space stands between two groups. -/
def GroupsJoined (c : Char) (rest : Text) : Prop := c = ']' → ¬[' ', '['] <+: rest

/-- There is no white space in a marker. -/
def MarkerClosed (c : Char) (rest : Text) : Prop :=
  c = '(' → ['*', ')'] <+: marks rest → ['*', ')'] <+: rest

theorem along_spaceStars (s : Text) :
    Along StarAfter (spaceStars s) ∧ (spaceStars s).head? ≠ some '*' := by
  induction s with
  | nil => exact ⟨trivial, by simp [spaceStars]⟩
  | cons c rest ih =>
    rw [spaceStars_cons]
    split
    · exact ⟨⟨fun _ => .inr rfl, fun h => absurd h ih.2, ih.1⟩, by simp⟩
    · next hc => exact ⟨⟨fun h => absurd h ih.2, ih.1⟩, by simpa using hc⟩

theorem along_closeStars {s : Text} (h : Along StarAfter s) :
    Along (fun c rest => StarAfter c rest ∧ StarRun c rest) (closeStars s) := by
  induction s with
  | nil => trivial
  | cons c rest ih =>
    obtain ⟨hc, hrest⟩ := h
    by_cases hrun : c = '*' ∧ (marks rest).head? = some '*'
    · obtain ⟨rfl, hstar⟩ := hrun
      rw [closeStars_star hstar]
      have hhead : ((closeStars rest).dropWhile isBlank).head? = some '*' := by
        rw [head?_dropWhile, marks_closeStars, hstar]
      exact ⟨⟨fun _ => .inl rfl, fun _ _ => hhead⟩,
        (ih hrest).of_suffix (List.dropWhile_suffix isBlank)⟩
    · rw [closeStars_cons_of_not (by simpa using hrun)]
      refine ⟨⟨fun hstar => hc (by simpa using hstar), fun hstar hmarks => ?_⟩, ih hrest⟩
      rw [marks_closeStars] at hmarks
      exact absurd ⟨hstar, hmarks⟩ hrun

theorem along_spaceBrackets {s : Text}
    (h : Along (fun c rest => StarAfter c rest ∧ StarRun c rest) s) :
    Along (fun c rest => StarAfter c rest ∧ StarRun c rest ∧ BracketAfter c rest)
      (spaceBrackets s) := by
  induction s with
  | nil => trivial
  | cons c rest ih =>
    obtain ⟨⟨hafter, hrun⟩, hrest⟩ := h
    have hmarks := (respaced_spaceBrackets rest).marks_eq
    have star := head?_spaceBrackets_ne (s := rest) (c := '*') (by decide) (by decide)
    have hbracket : (spaceBrackets rest).head? ≠ some '[' := by
      cases rest with
      | nil => simp [spaceBrackets]
      | cons d tail => rw [spaceBrackets_cons]; split <;> simp_all
    have here : StarAfter c (spaceBrackets rest) ∧ StarRun c (spaceBrackets rest) ∧
        BracketAfter c (spaceBrackets rest) := by
      refine ⟨fun hs => hafter (star.1 hs), fun hc hs => ?_, fun hb => absurd hb hbracket⟩
      rw [← hmarks] at hs
      exact star.2 (hrun hc hs)
    rw [spaceBrackets_cons]
    split
    · next hc =>
      subst hc
      exact ⟨⟨fun hs => by simp at hs, fun hs => by simp at hs, fun _ => rfl⟩, here, ih hrest⟩
    · exact ⟨here, ih hrest⟩

/-- What holds once the runs of spaces are single spaces. -/
def Squeezed (c : Char) (rest : Text) : Prop :=
  StarAfter c rest ∧ StarRun c rest ∧ BracketAfter c rest ∧ SpaceAlone c rest

theorem along_squeeze {s : Text}
    (h : Along (fun c rest => StarAfter c rest ∧ StarRun c rest ∧ BracketAfter c rest) s) :
    Along Squeezed (squeeze s) := by
  induction s with
  | nil => trivial
  | cons c rest ih =>
    obtain ⟨⟨hafter, hrun, hbracket⟩, hrest⟩ := h
    by_cases hspace : c = ' ' ∧ rest.head? = some ' '
    · obtain ⟨rfl, hs⟩ := hspace
      rw [squeeze_space hs]
      exact ih hrest
    · have halone : SpaceAlone c rest := by simpa [SpaceAlone] using hspace
      rw [squeeze_cons_of_not halone]
      refine ⟨?_, ih hrest⟩
      simpa only [Squeezed, StarAfter, StarRun, BracketAfter, SpaceAlone, head?_squeeze,
        ← (respaced_squeeze rest).marks_eq] using ⟨hafter, hrun, hbracket, halone⟩

/-- What holds once the groups are joined. -/
def Joined (c : Char) (rest : Text) : Prop :=
  StarAfter c rest ∧ StarRun c rest ∧ BracketSpaced c rest ∧ SpaceAlone c rest ∧
    GroupsJoined c rest

/-- A pass that keeps first characters, and what stands behind an `a`, makes no pair with `a`. -/
theorem prefix_pair_of_pass {pass : Text → Text} (hhead : ∀ s, (pass s).head? = s.head?)
    {a b : Char} (ha : ∀ rest, pass (a :: rest) = a :: pass rest) {s : Text}
    (h : [a, b] <+: pass s) : [a, b] <+: s := by
  obtain ⟨tail, htail⟩ := exists_of_prefix_pair h
  have hfirst : s.head? = some a := by rw [← hhead, htail, List.head?_cons]
  obtain ⟨rest, rfl⟩ := List.head?_eq_some_iff.1 hfirst
  rw [ha, List.cons.injEq] at htail
  have hsecond : rest.head? = some b := by rw [← hhead, htail.2, List.head?_cons]
  obtain ⟨after, rfl⟩ := List.head?_eq_some_iff.1 hsecond
  exact ⟨after, rfl⟩

theorem along_joinGroups {s : Text} (h : Along Squeezed s) : Along Joined (joinGroups s) := by
  induction s with
  | nil => trivial
  | cons c rest ih =>
    obtain ⟨⟨hafter, hrun, hbracket, halone⟩, hrest⟩ := h
    by_cases hjoin : c = ']' ∧ [' ', '['] <+: rest
    · obtain ⟨rfl, hpre⟩ := hjoin
      obtain ⟨tail, rfl⟩ := exists_of_prefix_pair hpre
      have hgroups := ih hrest
      rw [joinGroups_cons_of_ne (by decide)] at hgroups
      rw [joinGroups_join]
      refine ⟨?_, hgroups.2⟩
      rw [joinGroups_cons_of_ne (by decide)]
      refine ⟨fun hs => by simp at hs, fun hs => by simp at hs, fun _ => .inr rfl,
        fun hs => by simp at hs, fun _ hpre => by simp at hpre⟩
    · have hgroups : GroupsJoined c rest := by simpa [GroupsJoined] using hjoin
      rw [joinGroups_cons_of_not hgroups]
      have hnot : GroupsJoined c (joinGroups rest) := fun hc hpre =>
        hgroups hc (prefix_pair_of_pass head?_joinGroups (joinGroups_cons_of_ne (by decide)) hpre)
      refine ⟨⟨?_, ?_, ?_, ?_, hnot⟩, ih hrest⟩
      · simpa only [StarAfter, head?_joinGroups] using hafter
      · simpa only [StarRun, head?_joinGroups, ← (respaced_joinGroups rest).marks_eq] using hrun
      · simpa only [BracketSpaced, head?_joinGroups] using fun hb => .inl (hbracket hb)
      · simpa only [SpaceAlone, head?_joinGroups] using halone

/-- What holds along a respaced text. -/
structure Placed (c : Char) (rest : Text) : Prop where
  /-- Stars stand apart, or in markers. -/
  star : StarSpaced c rest
  /-- Stars stand together. -/
  run : StarRun c rest
  /-- Brackets stand apart, or together. -/
  bracket : BracketSpaced c rest
  /-- Spaces are single. -/
  space : SpaceAlone c rest
  /-- Groups stand together. -/
  groups : GroupsJoined c rest
  /-- Markers are closed. -/
  marker : MarkerClosed c rest

theorem along_closeMarkers {s : Text} (h : Along Joined s) : Along Placed (closeMarkers s) := by
  induction s with
  | nil => trivial
  | cons c rest ih =>
    obtain ⟨⟨hafter, hrun, hbracket, halone, hgroups⟩, hrest⟩ := h
    by_cases hmarker : c = '(' ∧ ['*', ')'] <+: marks rest
    · obtain ⟨rfl, hpre⟩ := hmarker
      rw [← marks_closeMarkers] at hpre
      obtain ⟨after, hafter⟩ := exists_afterMarker? hpre
      rw [closeMarkers_open hafter]
      obtain ⟨u, v, heq, -, -⟩ := afterMarker?_eq_some_iff.1 hafter
      have hclose : Along Placed (')' :: after) :=
        (ih hrest).of_suffix ⟨u ++ '*' :: v, by simp [heq]⟩
      refine ⟨⟨?_, ?_, ?_, ?_, ?_, ?_⟩, ⟨?_, ?_, ?_, ?_, ?_, ?_⟩, hclose⟩ <;>
        simp [StarSpaced, StarRun, BracketSpaced, SpaceAlone, GroupsJoined, MarkerClosed,
          marks_cons_of_not]
    · have hopen : c = '(' → ¬['*', ')'] <+: marks rest := by simpa using hmarker
      rw [closeMarkers_cons_of_not hopen]
      refine ⟨⟨?_, ?_, ?_, ?_, ?_, ?_⟩, ih hrest⟩
      · intro hstar
        rw [head?_closeMarkers] at hstar
        exact (hafter hstar).imp_right .inl
      · simpa only [StarRun, head?_closeMarkers, marks_closeMarkers] using hrun
      · simpa only [BracketSpaced, head?_closeMarkers] using hbracket
      · simpa only [SpaceAlone, head?_closeMarkers] using halone
      · exact fun hc hpre => hgroups hc
          (prefix_pair_of_pass head?_closeMarkers (closeMarkers_cons_of_ne (by decide)) hpre)
      · intro hc hpre
        rw [marks_closeMarkers] at hpre
        exact absurd hpre (hopen hc)

/-- A gap at the end of a text plays no part in what holds before it. -/
theorem Placed.of_append_gap {c : Char} {rest b : Text} (hb : IsGap b)
    (h : Placed c (rest ++ b)) : Placed c rest := by
  have hmarks : marks (rest ++ b) = marks rest := by simp [hb.marks]
  have head {d : Char} (hd : rest.head? = some d) : (rest ++ b).head? = some d := by
    rw [List.head?_append, hd]
    rfl
  refine ⟨fun hs => ?_, fun hc hs => ?_, fun hs => h.bracket (head hs),
    fun hc hs => h.space hc (head hs),
    fun hc hs => h.groups hc (hs.trans (List.prefix_append _ _)), fun hc hs => ?_⟩
  · obtain hc | hc | ⟨hc, hclose⟩ := h.star (head hs)
    · exact .inl hc
    · exact .inr (.inl hc)
    · refine .inr (.inr ⟨hc, ?_⟩)
      obtain ⟨tail, rfl⟩ := List.head?_eq_some_iff.1 hs
      cases tail with
      | nil =>
        have := hb ')' (List.mem_of_head? hclose)
        simp at this
      | cons d last => simpa using hclose
  · have hstar := h.run hc (hmarks.symm ▸ hs)
    cases rest with
    | nil => simp at hs
    | cons d tail => simpa using hstar
  · obtain ⟨tail, htail⟩ := exists_of_prefix_pair (h.marker hc (hmarks.symm ▸ hs))
    match rest, hs, htail with
    | [], hs, _ => simp at hs
    | [d], hs, htail =>
      obtain ⟨rfl, -⟩ := List.cons.inj htail
      simp [marks_cons_of_not] at hs
    | d :: e :: last, _, htail =>
      simp only [List.cons_append, List.cons.injEq] at htail
      simp [htail.1, htail.2.1]

theorem along_strip {s : Text} (h : Along Placed s) : Along Placed (strip s) := by
  obtain ⟨a, b, hs, -, hb⟩ := exists_gaps s
  rw [hs, List.append_assoc] at h
  exact (along_append.1 (along_append.1 h).2).1.imp fun _ _ hplaced => hplaced.of_append_gap hb

/-- **White space is in its place along a respaced text.** -/
theorem along_respace (s : Text) : Along Placed (respace s) :=
  along_strip (along_closeMarkers (along_joinGroups (along_squeeze (along_spaceBrackets
    (along_closeStars (along_spaceStars s).1)))))

end CSpelling.Normal

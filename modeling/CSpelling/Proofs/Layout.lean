import CSpelling.Proofs.Joining
import CSpelling.Proofs.Pieces
import CSpelling.Proofs.Spacing

/-!
# Normal spellings, piece by piece

A pass works on each piece of a text by itself, but for the white space at the ends of pieces and
in markers, so the pieces of the normal spelling are, up to such white space, the normal spellings
of the pieces (`tighten_normalize`).
-/

namespace CSpelling.Normal

open Text

variable {f : Text → Text} {s t p : Text} {c d : Char}

/-! ## A pass over delimiters -/

/-- A pass before it closes markers and trims. -/
def unclosed (s : Text) : Text :=
  joinGroups (squeeze (spaceBrackets (closeStars (spaceStars (dropControls (dropQualifiers s))))))

theorem once_eq_unclosed (s : Text) : once s = strip (closeMarkers (unclosed s)) :=
  once_eq_respace s

theorem mem_punctuation_of_isDelimiter (hd : isDelimiter d = true) : d ∈ ['(', ')', ','] := by
  simpa [isDelimiter, or_assoc] using hd

theorem isWordChar_of_isDelimiter (hd : isDelimiter d = true) : isWordChar d = false := by
  refine not_isWordChar_of_mem ?_
  have := mem_punctuation_of_isDelimiter hd
  simp only [punctuation, List.mem_cons] at this ⊢
  tauto

/-- The character is none of those that a step looks for. -/
theorem ne_of_isDelimiter (hd : isDelimiter d = true) :
    d ≠ '*' ∧ d ≠ '[' ∧ d ≠ ' ' ∧ isControl d = false := by
  have all : ∀ d ∈ ['(', ')', ','], d ≠ '*' ∧ d ≠ '[' ∧ d ≠ ' ' ∧ isControl d = false := by decide
  exact all d (mem_punctuation_of_isDelimiter hd)

theorem squeeze_append_cons (hd : d ≠ ' ') (s t : Text) :
    squeeze (s ++ d :: t) = squeeze s ++ d :: squeeze t := by
  induction s with
  | nil => exact squeeze_cons_of_not fun h => absurd h hd
  | cons c rest ih =>
    rw [List.cons_append]
    by_cases h : c = ' ' ∧ rest.head? = some ' '
    · obtain ⟨rfl, hrest⟩ := h
      rw [squeeze_space (by simp [List.head?_append, hrest]), squeeze_space hrest, ih]
    · have hnot : c = ' ' → (rest ++ d :: t).head? ≠ some ' ' := by
        rintro rfl
        cases rest with
        | nil => simpa using hd
        | cons e tail => simpa using h
      rw [squeeze_cons_of_not hnot, squeeze_cons_of_not (by simpa using h), ih, List.cons_append]

/-- Groups are joined apart if no space stands in front of a bracket at the seam. -/
theorem joinGroups_append (h : ∀ u : Text, [' ', '['] <+: u ++ t → [' ', '['] <+: u) (s : Text) :
    joinGroups (s ++ t) = joinGroups s ++ joinGroups t := by
  induction s with
  | nil => rfl
  | cons c rest ih =>
    rw [List.cons_append]
    by_cases hjoin : c = ']' ∧ [' ', '['] <+: rest
    · obtain ⟨rfl, hpre⟩ := hjoin
      obtain ⟨tail, rfl⟩ := exists_of_prefix_pair hpre
      have hspace (u : Text) : joinGroups (' ' :: u) = ' ' :: joinGroups u :=
        joinGroups_cons_of_ne (by decide) u
      rw [List.cons_append, hspace, hspace] at ih
      have hrest : joinGroups ('[' :: tail ++ t) = joinGroups ('[' :: tail) ++ joinGroups t :=
        (List.cons.inj ih).2
      rw [List.cons_append, List.cons_append, joinGroups_join, joinGroups_join, ← List.cons_append,
        hrest, List.cons_append]
    · rw [joinGroups_cons_of_not fun hc hpre => hjoin ⟨hc, h rest hpre⟩,
        joinGroups_cons_of_not (by simpa using hjoin), ih, List.cons_append]

theorem unclosed_append_cons (hd : isDelimiter d = true) (s t : Text) :
    unclosed (s ++ d :: t) = unclosed s ++ d :: unclosed t := by
  obtain ⟨hstar, hbracket, hspace, hcontrol⟩ := ne_of_isDelimiter hd
  have hmarks (u : Text) : (marks (d :: u)).head? ≠ some '*' := by
    rw [marks_cons_of_not (isBlank_of_isDelimiter hd)]
    simpa using hstar
  have hjoin (t u : Text) (hpre : [' ', '['] <+: u ++ d :: t) : [' ', '['] <+: u := by
    rcases prefix_pair_append hpre with h | ⟨-, h⟩ | ⟨-, h⟩
    · exact h
    · exact absurd (Option.some.inj h) hbracket
    · exact absurd (List.cons_prefix_cons.1 h).1 hspace.symm
  have hclose : d ≠ ']' := by
    rintro rfl
    exact absurd hd (by decide)
  rw [unclosed, dropQualifiers_append_cons (isWordChar_of_isDelimiter hd), dropControls_append,
    dropControls, dropControls, List.filter_cons_of_pos (by simp [hcontrol]), spaceStars_append,
    spaceStars_cons, if_neg hstar, closeStars_append (hmarks _),
    closeStars_cons_of_not fun h => absurd h hstar, spaceBrackets_append, spaceBrackets_cons,
    if_neg hbracket, squeeze_append_cons hspace, joinGroups_append (hjoin _),
    joinGroups_cons_of_ne hclose]
  rfl

theorem isPiece_unclosed (hp : IsPiece p) : IsPiece (unclosed p) := by
  have hmem {s : Text} {c : Char} (hc : c ∈ joinGroups (squeeze (spaceBrackets
      (closeStars (spaceStars s))))) : c ∈ s ∨ c = ' ' :=
    ((((respaced_spaceStars s).trans (respaced_closeStars _)).trans
      (respaced_spaceBrackets _)).trans (respaced_squeeze _)).trans
        (respaced_joinGroups _) |>.mem c hc
  intro c hc
  rcases hmem hc with hc | rfl
  · have hchunks := (List.mem_filter.1 hc).1
    obtain ⟨w, hw, hcw⟩ := List.mem_flatten.1 hchunks
    refine hp c ?_
    rw [← flatten_chunks p]
    exact List.mem_flatten.2 ⟨w, (List.mem_filter.1 hw).1, hcw⟩
  · decide

/-! ## Markers -/

theorem closeMarkers_append_of_not_mem (hs : '(' ∉ s) (t : Text) :
    closeMarkers (s ++ t) = s ++ closeMarkers t := by
  induction s with
  | nil => rfl
  | cons c rest ih =>
    rw [List.cons_append, closeMarkers_cons_of_ne fun h => hs (by simp [h]),
      ih fun h => hs (List.mem_cons_of_mem _ h), List.cons_append]

theorem closeMarkers_piece (hp : IsPiece p) : closeMarkers p = p := by
  have h := closeMarkers_append_of_not_mem (hp.not_mem (d := '(') (by decide)) []
  rwa [closeMarkers, List.append_nil] at h

/-- Markers are closed at the ends of pieces. -/
theorem mapPieces_closeMarkers (hf : ∀ p, IsPiece p → f (strip p) = f p) (s : Text) :
    mapPieces f (closeMarkers s) = mapPieces f s := by
  induction s using pieces_induction with
  | piece p hp => rw [closeMarkers_piece hp]
  | cons p d s hp hd ih =>
    rw [closeMarkers_append_of_not_mem (hp.not_mem (by decide)), mapPieces_cons hp hd, ← ih]
    by_cases hmarker : d = '(' ∧ ['*', ')'] <+: marks s
    · obtain ⟨rfl, hpre⟩ := hmarker
      obtain ⟨after, hafter⟩ := exists_afterMarker? (by rwa [marks_closeMarkers])
      obtain ⟨u, v, heq, hu, hv⟩ := afterMarker?_eq_some_iff.1 hafter
      have hstar : IsPiece ['*'] := by decide
      have hinner : IsPiece (u ++ ['*'] ++ v) :=
        isPiece_append.2 ⟨isPiece_append.2 ⟨hu.isPiece, hstar⟩, hv.isPiece⟩
      have hsplit : u ++ '*' :: (v ++ ')' :: after) = (u ++ ['*'] ++ v) ++ ')' :: after := by simp
      have hinnerStrip : f (u ++ ['*'] ++ v) = f ['*'] := by
        rw [← hf _ hinner, strip_gaps hu ⟨by simp, by simp⟩ hv]
      have hmapped : mapPieces f ('*' :: ')' :: after) = mapPieces f (closeMarkers s) := by
        rw [heq, hsplit, mapPieces_cons hinner (by decide), hinnerStrip]
        exact mapPieces_cons hstar (by decide) after
      rw [closeMarkers_open hafter, mapPieces_cons hp hd, hmapped]
    · rw [closeMarkers_cons_of_not (by simpa using hmarker), mapPieces_cons hp hd]

/-! ## White space at the ends -/

/-- White space in front stays white space in front. -/
theorem exists_unclosed_cons (hb : isBlank c = true) (s : Text) :
    ∃ a, IsGap a ∧ unclosed (c :: s) = a ++ unclosed s := by
  have hne {d : Char} (hd : isBlank d = false) : c ≠ d := by
    rintro rfl
    simp [hb] at hd
  have hstar : c ≠ '*' := hne isBlank_star
  have hgap : IsGap [c] := by simpa [IsGap] using hb
  rw [unclosed, dropQualifiers_cons (not_isWordChar_of_isBlank hb), dropControls]
  cases hcontrol : isControl c with
  | true =>
    rw [List.filter_cons_of_neg (by simp [hcontrol])]
    exact ⟨[], isGap_nil, rfl⟩
  | false =>
    rw [List.filter_cons_of_pos (by simp [hcontrol]), spaceStars_cons, if_neg hstar,
      closeStars_cons_of_not fun h => absurd h hstar, spaceBrackets_cons,
      if_neg (hne isBlank_bracket)]
    set rest := spaceBrackets
      (closeStars (spaceStars ((dropQualifiers s).filter fun c => !isControl c))) with hrest
    by_cases hspace : c = ' ' ∧ rest.head? = some ' '
    · obtain ⟨rfl, hspace⟩ := hspace
      rw [squeeze_space hspace]
      exact ⟨[], isGap_nil, rfl⟩
    · rw [squeeze_cons_of_not (by simpa using hspace),
        joinGroups_cons_of_ne (hne isBlank_closeBracket)]
      exact ⟨[c], hgap, rfl⟩

theorem exists_squeeze_append (hb : isBlank c = true) (s : Text) :
    ∃ b, IsGap b ∧ squeeze (s ++ [c]) = squeeze s ++ b := by
  have hgap : IsGap [c] := by simpa [IsGap] using hb
  induction s with
  | nil => exact ⟨[c], hgap, squeeze_cons_of_not (by simp)⟩
  | cons e rest ih =>
    obtain ⟨b, hgapb, ih⟩ := ih
    cases rest with
    | nil =>
      by_cases h : e = ' ' ∧ c = ' '
      · obtain ⟨rfl, rfl⟩ := h
        exact ⟨[], isGap_nil, rfl⟩
      · refine ⟨[c], hgap, ?_⟩
        rw [List.singleton_append, squeeze_cons_of_not (by simpa using h),
          squeeze_cons_of_not (by simp), squeeze_cons_of_not (by simp)]
        rfl
    | cons d tail =>
      refine ⟨b, hgapb, ?_⟩
      by_cases h : e = ' ' ∧ d = ' '
      · obtain ⟨rfl, rfl⟩ := h
        have hspace (u : Text) : squeeze (' ' :: (' ' :: u)) = squeeze (' ' :: u) :=
          squeeze_space rfl
        rw [List.cons_append, List.cons_append, hspace, hspace, ← List.cons_append, ih]
      · have hkeep (u : Text) : squeeze (e :: (d :: u)) = e :: squeeze (d :: u) :=
          squeeze_cons_of_not (by simpa using h)
        rw [List.cons_append, List.cons_append, hkeep, hkeep, ← List.cons_append, ih,
          List.cons_append]

theorem joinGroups_append_gap {b : Text} (hb : IsGap b) (s : Text) :
    joinGroups (s ++ b) = joinGroups s ++ b := by
  have hbracket : '[' ∉ b := fun hmem => by simpa using hb _ hmem
  have hself : joinGroups b = b := by
    clear hbracket
    induction b with
    | nil => rfl
    | cons e rest ih =>
      have he : e ≠ ']' := fun h => by simpa [h] using hb e (by simp)
      rw [joinGroups_cons_of_ne he, ih fun d hd => hb d (List.mem_cons_of_mem _ hd)]
  rw [joinGroups_append, hself]
  intro u hpre
  rcases prefix_pair_append hpre with h | ⟨-, h⟩ | ⟨-, h⟩
  · exact h
  · exact absurd (List.mem_of_head? h) hbracket
  · exact absurd (h.subset (by simp)) hbracket

/-- White space behind a text stays white space behind it. -/
theorem exists_unclosed_append (hb : isBlank c = true) (s : Text) :
    ∃ b, IsGap b ∧ unclosed (s ++ [c]) = unclosed s ++ b := by
  have hne {d : Char} (hd : isBlank d = false) : c ≠ d := by
    rintro rfl
    simp [hb] at hd
  have hdrop := dropQualifiers_append_cons (not_isWordChar_of_isBlank hb) s []
  rw [unclosed, hdrop, dropControls_append]
  cases hcontrol : isControl c with
  | true =>
    have hnil : dropControls (c :: dropQualifiers []) = [] := by
      rw [dropControls, List.filter_cons_of_neg (by simp [hcontrol])]
      rfl
    rw [hnil, List.append_nil]
    exact ⟨[], isGap_nil, by rw [List.append_nil]; rfl⟩
  | false =>
    have hkeep : dropControls (c :: dropQualifiers []) = [c] := by
      rw [dropControls, List.filter_cons_of_pos (by simp [hcontrol])]
      rfl
    have hmarks : (marks [c]).head? ≠ some '*' := by
      rw [marks_cons_of_blank hb]
      simp
    have hstars : closeStars (spaceStars [c]) = [c] := by
      rw [spaceStars_cons, if_neg (hne isBlank_star)]
      exact closeStars_cons_of_not fun h => absurd h (hne isBlank_star)
    have hbrackets : spaceBrackets [c] = [c] := by
      rw [spaceBrackets_cons, if_neg (hne isBlank_bracket)]
      rfl
    obtain ⟨b, hgap, hsqueeze⟩ := exists_squeeze_append hb
      (spaceBrackets (closeStars (spaceStars (dropControls (dropQualifiers s)))))
    refine ⟨b, hgap, ?_⟩
    rw [hkeep, spaceStars_append,
      closeStars_append (by rwa [spaceStars_cons, if_neg (hne isBlank_star)]), hstars,
      spaceBrackets_append, hbrackets, hsqueeze, joinGroups_append_gap hgap]
    rfl

theorem once_piece (hp : IsPiece p) : once p = strip (unclosed p) := by
  rw [once_eq_unclosed, closeMarkers_piece (isPiece_unclosed hp)]

/-- A pass trims a piece. -/
theorem once_strip (hp : IsPiece p) : once (strip p) = once p := by
  have hfront (a p : Text) (ha : IsGap a) (hp : IsPiece p) : once (a ++ p) = once p := by
    induction a with
    | nil => rfl
    | cons c a ih =>
      have ha' : IsGap a := fun d hd => ha d (List.mem_cons_of_mem _ hd)
      have hap : IsPiece (a ++ p) := isPiece_append.2 ⟨ha'.isPiece, hp⟩
      have hcap : IsPiece (c :: (a ++ p)) := (isPiece_append (s := c :: a)).2 ⟨ha.isPiece, hp⟩
      obtain ⟨g, hg, heq⟩ := exists_unclosed_cons (ha c (by simp)) (a ++ p)
      rw [List.cons_append, once_piece hcap, heq, strip_gap_append hg, ← once_piece hap, ih ha']
  have hback (b p : Text) (hb : IsGap b) (hp : IsPiece p) : once (p ++ b) = once p := by
    induction b using List.reverseRecOn with
    | nil => rw [List.append_nil]
    | append_singleton b c ih =>
      have hb' : IsGap b := fun d hd => hb d (by simp [hd])
      have hpb : IsPiece (p ++ b) := isPiece_append.2 ⟨hp, hb'.isPiece⟩
      have hpbc : IsPiece (p ++ b ++ [c]) :=
        isPiece_append.2 ⟨hpb, hb.isPiece.subset (by simp)⟩
      obtain ⟨g, hg, heq⟩ := exists_unclosed_append (hb c (by simp)) (p ++ b)
      rw [← List.append_assoc, once_piece hpbc, heq, strip_append_gap hg, ← once_piece hpb, ih hb']
  obtain ⟨a, b, hs, ha, hb⟩ := exists_gaps p
  conv_rhs => rw [hs, hback b _ hb (isPiece_append.2 ⟨ha.isPiece, isPiece_strip hp⟩),
    hfront a _ ha (isPiece_strip hp)]

/-! ## Normal spellings -/

/-- A pass works on the pieces. -/
theorem mapPieces_once (hf : ∀ p, IsPiece p → f (strip p) = f p) (s : Text) :
    mapPieces f (once s) = mapPieces (f ∘ once) s := by
  have heach : unclosed s = mapPieces unclosed s :=
    eq_mapPieces (fun d s t hd => unclosed_append_cons hd s t) s
  rw [once_eq_unclosed, mapPieces_strip hf, mapPieces_closeMarkers hf, heach,
    mapPieces_mapPieces (f := unclosed) fun p hp => isPiece_unclosed hp]
  refine mapPieces_congr (fun p hp => ?_) s
  rw [Function.comp_apply, Function.comp_apply, once_piece hp, hf _ (isPiece_unclosed hp)]

theorem isPiece_once (hp : IsPiece p) : IsPiece (once p) := by
  rw [once_piece hp]
  exact isPiece_strip (isPiece_unclosed hp)

theorem strip_once (s : Text) : strip (once s) = once s := by
  rw [once_eq_unclosed, strip_strip]

theorem normalize_strip (hp : IsPiece p) : normalize (strip p) = normalize p := by
  rw [normalize_eq, normalize_eq, once_strip hp]

theorem isPiece_normalize (hp : IsPiece p) : IsPiece (normalize p) := by
  rw [normalize_eq]
  exact isPiece_once (isPiece_once hp)

/-- **The pieces of the normal spelling are the normal spellings of the pieces**, up to white space
at their ends. -/
theorem tighten_normalize (s : Text) : tighten (normalize s) = mapPieces normalize s := by
  have honce (s : Text) : mapPieces strip (once s) = mapPieces once s := by
    rw [mapPieces_once (f := strip) fun p _ => strip_strip p]
    exact mapPieces_congr (fun p _ => by rw [Function.comp_apply, strip_once]) s
  rw [tighten, normalize_eq, honce, mapPieces_once (f := once) fun p hp => once_strip hp]
  exact mapPieces_congr (fun p _ => by rw [Function.comp_apply, normalize_eq]) s

end CSpelling.Normal

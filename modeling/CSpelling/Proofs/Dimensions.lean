import CSpelling.Proofs.Stars

/-!
# Dimensions

A row of dimensions stands behind a type, each in its brackets, with any text inside. A pass works
on each of them by itself (`ordered_dimensions`), so the normal spelling is that of the type
with a space and the dimensions behind it, each put in order (`normalize_dimensions`). What is in
order as a word was this word before, or a qualifier (`ordered_eq_of_words`).
-/

namespace CSpelling

open Text CSpelling.Normal CSpelling.Decorations

variable {s t d : Text} {c : Char}

theorem dimensions_cons (d : Text) (rest : List Text) :
    (d :: rest).flatMap bracketed = '[' :: (d ++ ']' :: rest.flatMap bracketed) := by
  simp [bracketed]

/-! ## A pass over brackets -/

namespace Normal

/-- A pass before it puts the white space in order. -/
def loosen (s : Text) : Text :=
  spaceBrackets (closeStars (spaceStars (dropControls (dropQualifiers s))))

/-- A text with its white space in order, but for the space between two dimensions. -/
def ordered (s : Text) : Text := squeeze (loosen s)

theorem unclosed_eq (s : Text) : unclosed s = joinGroups (ordered s) := rfl

/-- Stars and qualifiers on both sides of a character have nothing to do with each other if it is
none of them and no star follows it. -/
theorem loosen_append_cons (hword : isWordChar c = false) (hcontrol : isControl c = false)
    (hstar : c ≠ '*')
    (hmarks : (marks (c :: spaceStars (dropControls (dropQualifiers t)))).head? ≠ some '*')
    (s : Text) : loosen (s ++ c :: t) = loosen s ++ spaceBrackets [c] ++ loosen t := by
  have hkeep : dropControls (c :: dropQualifiers t) = c :: dropControls (dropQualifiers t) :=
    List.filter_cons_of_pos (by simp [hcontrol])
  rw [loosen, dropQualifiers_append_cons hword, dropControls_append, hkeep, spaceStars_append,
    spaceStars_cons, if_neg hstar, closeStars_append hmarks,
    closeStars_cons_of_not fun h => absurd h hstar, spaceBrackets_append,
    ← List.singleton_append, spaceBrackets_append, List.append_assoc]
  rfl

theorem respaced_loosen (s : Text) : Respaced (dropControls (dropQualifiers s)) (loosen s) :=
  ((respaced_spaceStars _).trans (respaced_closeStars _)).trans (respaced_spaceBrackets _)

theorem mem_of_mem_loosen (h : c ∈ loosen s) : c ∈ s ∨ c = ' ' :=
  ((respaced_loosen s).mem c h).imp_left fun hmem =>
    mem_of_mem_dropQualifiers (List.mem_of_mem_filter hmem)

theorem mem_of_mem_ordered (h : c ∈ ordered s) : c ∈ s ∨ c = ' ' :=
  ((respaced_squeeze _).mem c h).elim mem_of_mem_loosen .inr

theorem not_mem_ordered (hc : c ≠ ' ') (h : c ∉ s) : c ∉ ordered s :=
  fun hmem => (mem_of_mem_ordered hmem).elim h hc

theorem loosen_open (s t : Text) : loosen (s ++ '[' :: t) = loosen s ++ ' ' :: '[' :: loosen t := by
  rw [loosen_append_cons (by decide +kernel) (by decide) (by decide) (by simp [marks_cons_of_not])]
  simp [spaceBrackets]

theorem loosen_close (s t : Text) : loosen (s ++ ']' :: t) = loosen s ++ ']' :: loosen t := by
  rw [loosen_append_cons (by decide +kernel) (by decide) (by decide) (by simp [marks_cons_of_not])]
  simp [spaceBrackets]

theorem loosen_space (s : Text) : loosen (s ++ [' ']) = loosen s ++ [' '] := by
  rw [loosen_append_cons (by decide +kernel) (by decide) (by decide) (by decide)]
  simp [spaceBrackets, show loosen [] = [] from rfl]

theorem ordered_close (s t : Text) : ordered (s ++ ']' :: t) = ordered s ++ ']' :: ordered t := by
  rw [ordered, loosen_close, squeeze_append_cons (by decide), ordered, ordered]

/-- **Each dimension is put in order by itself.** -/
theorem ordered_dimensions (dims : List Text) : ordered (dims.flatMap bracketed) =
    (dims.map ordered).flatMap fun d => ' ' :: bracketed d := by
  induction dims with
  | nil => rfl
  | cons d rest ih =>
    have hsplit : (d :: rest).flatMap bracketed =
        [] ++ '[' :: (d ++ ']' :: rest.flatMap bracketed) := dimensions_cons d rest
    have hspace : squeeze [' '] = [' '] := rfl
    have hfront : squeeze (' ' :: '[' :: loosen (d ++ ']' :: rest.flatMap bracketed)) =
        [' '] ++ '[' :: ordered (d ++ ']' :: rest.flatMap bracketed) :=
      squeeze_append_cons (by decide) [' '] _
    have hnil : loosen [] = [] := rfl
    rw [hsplit, ordered, loosen_open, hnil, List.nil_append, hfront, ordered_close, ih]
    simp [bracketed]

/-- Dimensions behind a text are put in order by themselves, and a space comes in front of them. -/
theorem ordered_append_dimensions (s d : Text) (rest : List Text) :
    ordered (s ++ ' ' :: (d :: rest).flatMap bracketed) =
      squeeze (loosen s ++ [' ', ' ']) ++ '[' :: (ordered d ++
        ']' :: (rest.map ordered).flatMap fun d => ' ' :: bracketed d) := by
  have hsplit : s ++ ' ' :: (d :: rest).flatMap bracketed =
      (s ++ [' ']) ++ '[' :: (d ++ ']' :: rest.flatMap bracketed) := by simp [bracketed]
  have hspaces (u : Text) : loosen s ++ [' '] ++ ' ' :: '[' :: u =
      (loosen s ++ [' ', ' ']) ++ '[' :: u := by simp
  have hordered : squeeze (loosen (d ++ ']' :: rest.flatMap bracketed)) =
      ordered (d ++ ']' :: rest.flatMap bracketed) := rfl
  rw [hsplit, ordered, loosen_open, loosen_space, hspaces, squeeze_append_cons (by decide),
    hordered, ordered_close, ordered_dimensions]

theorem joinGroups_append_of_not_mem (h : ']' ∉ s) (t : Text) :
    joinGroups (s ++ t) = s ++ joinGroups t := by
  induction s with
  | nil => rfl
  | cons c rest ih =>
    obtain ⟨hc, hrest⟩ := not_or.1 (mt List.mem_cons.2 h)
    rw [List.cons_append, joinGroups_cons_of_ne (Ne.symm hc), ih hrest, List.cons_append]

/-- Groups behind a group are joined to it. -/
theorem joinGroups_dimensions {dims : List Text} (h : ∀ d ∈ dims, ']' ∉ d) :
    joinGroups (']' :: dims.flatMap fun d => ' ' :: bracketed d) =
      ']' :: dims.flatMap bracketed := by
  induction dims with
  | nil => rfl
  | cons d rest ih =>
    have hd : ']' ∉ '[' :: d := by simpa using h d (by simp)
    have hsplit : (d :: rest).flatMap (fun d => ' ' :: bracketed d) =
        ' ' :: '[' :: (d ++ ']' :: rest.flatMap fun d => ' ' :: bracketed d) := by
      simp [bracketed]
    have hgroup := joinGroups_append_of_not_mem hd (']' :: rest.flatMap fun d => ' ' :: bracketed d)
    rw [hsplit, joinGroups_join, ← List.cons_append, hgroup,
      ih fun e he => h e (List.mem_cons_of_mem _ he)]
    simp [bracketed]

theorem joinGroups_append_dimensions {front : Text} {rest : List Text} (hfront : ']' ∉ front)
    (h : ∀ e ∈ d :: rest, ']' ∉ e) :
    joinGroups (front ++ '[' :: (d ++ ']' :: rest.flatMap fun d => ' ' :: bracketed d)) =
      front ++ (d :: rest).flatMap bracketed := by
  have hnot : ']' ∉ front ++ '[' :: d := by simpa [hfront] using h d (by simp)
  rw [← List.cons_append, ← List.append_assoc, joinGroups_append_of_not_mem hnot,
    joinGroups_dimensions fun e he => h e (List.mem_cons_of_mem _ he)]
  simp [bracketed]

/-! ## Normal spellings -/

theorem squeeze_spaces (k : Nat) : squeeze (List.replicate (k + 1) ' ') = [' '] := by
  induction k with
  | zero => rfl
  | succ k ih => rw [List.replicate_succ, squeeze_space (by simp [List.replicate_succ]), ih]

/-- The text with a space behind it, if there is any. -/
def spaced (s : Text) : Text := if s = [] then [] else s ++ [' ']

/-- Behind words, spaces and stars there is one space in front of a dimension. -/
theorem dropWhile_squeeze_loosen (h : IsPlain s) :
    (squeeze (loosen s ++ [' ', ' '])).dropWhile isBlank = spaced (normalize s) := by
  have hplain : IsPlain (loosen s) := h.of_mem fun c => mem_of_mem_loosen
  have hordered : IsPlain (ordered s) := h.of_mem fun c => mem_of_mem_ordered
  have hnormal : normalize s = strip (squeeze (loosen s)) := by
    rw [normalize_eq_once h.isControl, once_eq_unclosed, unclosed_eq,
      joinGroups_of_not_mem (hordered.not_mem (by decide)), closeMarkers_piece hordered.isPiece,
      ordered]
  rw [hnormal]
  obtain ⟨m, g, hsplit, hg, hm⟩ := exists_gap_behind (loosen s)
  rw [hsplit] at hplain ⊢
  obtain ⟨k, rfl⟩ : ∃ k, g = List.replicate k ' ' := ⟨g.length, List.eq_replicate_of_mem
    fun c hc => hplain.eq_space (List.mem_append_right m hc) (hg c hc)⟩
  have hspaces : List.replicate k ' ' ++ [' ', ' '] = List.replicate (k + 1 + 1) ' ' := by
    simp [List.replicate_succ']
  have hspace : m.getLast? ≠ some ' ' := fun hs => by simpa using hm ' ' hs
  rw [List.append_assoc, hspaces, squeeze_append hspace, squeeze_append hspace, squeeze_spaces,
    strip_append_gap (isGap_squeeze hg)]
  have hlast : ∀ c ∈ (squeeze m).getLast?, isBlank c = false := by
    rwa [getLast?_squeeze hspace]
  rcases eq_or_ne (squeeze m) [] with hnil | hne
  · rw [hnil]
    rfl
  · obtain ⟨a, ha, hsplit, hstrip⟩ := exists_eq_append_strip hne hlast
    have hhead : ∀ c ∈ (strip (squeeze m) ++ [' ']).head?, isBlank c = false := by
      rw [List.head?_append_of_ne_nil _ hstrip]
      exact (trimmed_strip _).start
    rw [spaced, if_neg hstrip]
    conv_lhs => rw [hsplit]
    rw [List.append_assoc, List.dropWhile_append_of_pos ha, dropWhile_of_head? hhead]

end Normal

/-- The text may stand in the brackets of a dimension: it holds no bracket, no parenthesis and no
control character. -/
structure IsDimension (d : Text) : Prop where
  /-- There are no brackets. -/
  brackets : '[' ∉ d ∧ ']' ∉ d
  /-- There are no parentheses. -/
  parens : '(' ∉ d ∧ ')' ∉ d
  /-- There are no control characters. -/
  controls : ∀ c ∈ d, isControl c = false

instance (d : Text) : Decidable (IsDimension d) :=
  decidable_of_iff (('[' ∉ d ∧ ']' ∉ d) ∧ ('(' ∉ d ∧ ')' ∉ d) ∧ ∀ c ∈ d, isControl c = false)
    ⟨fun h => ⟨h.1, h.2.1, h.2.2⟩, fun h => ⟨h.brackets, h.parens, h.controls⟩⟩

/-- A character that stands in no dimension stands behind a type only as a bracket. -/
theorem mem_dimensions {dims : List Text} (h : c ∈ dims.flatMap bracketed) :
    c = '[' ∨ c = ']' ∨ ∃ d ∈ dims, c ∈ d := by
  obtain ⟨d, hd, hc⟩ := List.mem_flatMap.1 h
  rw [bracketed, List.mem_cons, List.mem_append, List.mem_singleton] at hc
  rcases hc with rfl | hc | rfl
  · exact .inl rfl
  · exact .inr (.inr ⟨d, hd, hc⟩)
  · exact .inr (.inl rfl)

theorem not_mem_dimensions (hc : c ≠ '[' ∧ c ≠ ']') {dims : List Text} (h : ∀ d ∈ dims, c ∉ d) :
    c ∉ dims.flatMap bracketed := by
  intro hmem
  rcases mem_dimensions hmem with hopen | hclose | ⟨d, hd, hmem⟩
  · exact hc.1 hopen
  · exact hc.2 hclose
  · exact h d hd hmem

theorem isControl_dimensions (hs : IsPlain s) {dims : List Text}
    (hdims : ∀ d ∈ dims, IsDimension d) :
    ∀ c ∈ s ++ ' ' :: dims.flatMap bracketed, isControl c = false := by
  intro c hc
  rcases List.mem_append.1 hc with hc | hc
  · exact hs.isControl c hc
  rcases List.mem_cons.1 hc with rfl | hc
  · decide
  rcases mem_dimensions hc with rfl | rfl | ⟨d, hd, hc⟩
  · decide
  · decide
  · exact (hdims d hd).controls c hc

theorem trimmed_dimensions {dims : List Text} (hne : dims ≠ []) :
    Trimmed (dims.flatMap bracketed) := by
  refine ⟨fun c hc => ?_, fun c hc => ?_⟩
  · rw [head?_groups c hc]
    exact isBlank_bracket
  · rw [getLast?_groups hne] at hc
    rw [← Option.some.inj hc]
    exact isBlank_closeBracket

/-- **The normal spelling of an array** is that of its element, a space and the dimensions, each of
them by itself. -/
theorem normalize_dimensions (hs : IsPlain s) {dims : List Text}
    (hdims : ∀ d ∈ dims, IsDimension d) (hne : dims ≠ []) :
    normalize (s ++ ' ' :: dims.flatMap bracketed) =
      spaced (normalize s) ++ (dims.map ordered).flatMap bracketed := by
  obtain ⟨d, rest, rfl⟩ := List.exists_cons_of_ne_nil hne
  have hfront : IsPlain (squeeze (loosen s ++ [' ', ' '])) := by
    refine hs.of_mem fun c hc => ((respaced_squeeze _).mem c hc).elim (fun hc => ?_) .inr
    rcases List.mem_append.1 hc with hc | hc
    · exact mem_of_mem_loosen hc
    · exact .inr (by simpa using hc)
  have hclose : ∀ e ∈ (d :: rest).map ordered, ']' ∉ e :=
    List.forall_mem_map.2 fun d' hd => not_mem_ordered (by decide) (hdims d' hd).brackets.2
  have hopen : ∀ e ∈ (d :: rest).map ordered, '(' ∉ e :=
    List.forall_mem_map.2 fun d' hd => not_mem_ordered (by decide) (hdims d' hd).parens.1
  have hjoin := joinGroups_append_dimensions (hfront.not_mem (by decide)) hclose
  have hparens : '(' ∉ squeeze (loosen s ++ [' ', ' ']) ++
      ((d :: rest).map ordered).flatMap bracketed :=
    List.not_mem_append (hfront.not_mem (by decide)) (not_mem_dimensions (by decide) hopen)
  have hmarkers := closeMarkers_append_of_not_mem hparens []
  rw [List.append_nil, closeMarkers, List.append_nil] at hmarkers
  rw [normalize_eq_once (isControl_dimensions hs hdims), once_eq_unclosed, unclosed_eq,
    ordered_append_dimensions, hjoin, ← List.map_cons, hmarkers,
    strip_append_trimmed _ (trimmed_dimensions (by simp)) (by simp [bracketed]),
    dropWhile_squeeze_loosen hs]

/-! ## Dimensions in order -/

namespace Normal

theorem closeStars_append_of_not_mem (h : '*' ∉ s) (t : Text) :
    closeStars (s ++ t) = s ++ closeStars t := by
  induction s with
  | nil => rfl
  | cons c rest ih =>
    obtain ⟨hc, hrest⟩ := not_or.1 (mt List.mem_cons.2 h)
    rw [List.cons_append, closeStars_cons_of_not fun hstar => absurd hstar.symm hc, ih hrest,
      List.cons_append]

theorem closeStars_of_not_mem (h : '*' ∉ s) : closeStars s = s := by
  simpa [closeStars] using closeStars_append_of_not_mem h []

/-- Of each run of spaces one is left. -/
theorem mem_squeeze (h : c ∈ s) : c ∈ squeeze s := by
  induction s with
  | nil => cases h
  | cons d rest ih =>
    by_cases hspace : d = ' ' ∧ rest.head? = some ' '
    · obtain ⟨rfl, hhead⟩ := hspace
      rw [squeeze_space hhead]
      rcases List.mem_cons.1 h with rfl | h
      · exact ih (List.mem_of_head? hhead)
      · exact ih h
    · rw [squeeze_cons_of_not (by simpa using hspace)]
      exact List.mem_cons.2 ((List.mem_cons.1 h).imp_right ih)

theorem squeeze_of_not_mem (h : ' ' ∉ s) : squeeze s = s := by
  induction s with
  | nil => rfl
  | cons c rest ih =>
    obtain ⟨hc, hrest⟩ := not_or.1 (mt List.mem_cons.2 h)
    rw [squeeze_cons_of_not fun hspace => absurd hspace.symm hc, ih hrest]

/-- **A dimension that is in order as a word was this word**, or a qualifier, of which nothing is
left. -/
theorem ordered_eq_of_words (hd : IsDimension d) (h : ∀ c ∈ ordered d, isWordChar c = true) :
    ordered d = d ∨ ordered d = [] ∧ d ∈ qualifiers := by
  have hcontrols : dropControls (dropQualifiers d) = dropQualifiers d :=
    dropControls_of_forall fun c hc => hd.controls c (mem_of_mem_dropQualifiers hc)
  have hopen : '[' ∉ dropQualifiers d := mt mem_of_mem_dropQualifiers hd.brackets.1
  have hstar : '*' ∉ dropQualifiers d := by
    intro hmem
    have hmarks : marks (dropQualifiers d) = marks (ordered d) := by
      rw [← hcontrols]
      exact ((respaced_loosen d).trans (respaced_squeeze _)).marks_eq
    have hordered : '*' ∈ marks (ordered d) := hmarks ▸ mem_marks.2 ⟨hmem, by decide⟩
    exact absurd (h '*' (mem_marks.1 hordered).1) (by decide +kernel)
  have hloosen : loosen d = dropQualifiers d := by
    rw [loosen, hcontrols, spaceStars_of_not_mem hstar, closeStars_of_not_mem hstar,
      spaceBrackets_of_not_mem hopen]
  have hkept : ∀ c ∈ dropQualifiers d, isWordChar c = true := fun c hc =>
    h c (mem_squeeze (hloosen ▸ hc))
  have hordered : ordered d = dropQualifiers d := by
    rw [ordered, hloosen]
    exact squeeze_of_not_mem fun hspace => absurd (hkept ' ' hspace) (by decide +kernel)
  have hwords : ∀ c ∈ d, isWordChar c = true := by
    intro c hc
    by_contra hnot
    exact hnot (hkept c (mem_dropQualifiers (by simpa using hnot) hc))
  rw [hordered]
  rcases eq_or_ne d [] with rfl | hne
  · exact .inl rfl
  · have hchunks : chunks d = [d] := chunks_of_isChunk (.inl ⟨hne, hwords⟩)
    by_cases hq : d ∈ qualifiers
    · exact .inr ⟨by simp [dropQualifiers, hchunks, hq], hq⟩
    · exact .inl (by simp [dropQualifiers, hchunks, hq])

end Normal

end CSpelling

import CSpelling.Proofs.NormalForm

/-!
# Normal texts behind each other

A text keeps its places when another one stands behind it (`along_placed_append`), unless the two
make a run of stars, a row of groups or a marker where they meet; `Joins` excludes these. Words
are kept apart by any character that is not part of a word (`words_append`).
-/

namespace CSpelling.Normal

open Text

variable {a t : Text}

/-! ## Places -/

/-- What stands behind a text makes nothing with the end of the text. -/
structure Joins (a t : Text) : Prop where
  /-- No star follows directly. -/
  star : t.head? ≠ some '*'
  /-- No bracket follows directly. -/
  bracket : t.head? ≠ some '['
  /-- There is no run of stars, and no marker begins. -/
  run : (marks t).head? = some '*' → a.getLast? ≠ some '*' ∧ a.getLast? ≠ some '('
  /-- There is no row of groups. -/
  groups : [' ', '['] <+: t → a.getLast? ≠ some ']'
  /-- No marker ends. -/
  marker : (marks t).head? = some ')' →
    ∀ before rest, a = before ++ '(' :: rest → marks rest ≠ ['*']

/-- Two characters at the beginning of two texts stand in the first, in the second, or in both. -/
theorem prefix_pair_append {x y : Char} {u v : Text} (h : [x, y] <+: u ++ v) :
    [x, y] <+: u ∨ u = [x] ∧ v.head? = some y ∨ u = [] ∧ [x, y] <+: v := by
  obtain ⟨after, hafter⟩ := h
  match u, hafter with
  | [], hafter => exact .inr (.inr ⟨rfl, after, hafter⟩)
  | [c], hafter =>
    obtain ⟨hx, htail⟩ := List.cons.inj hafter
    have hv : y :: after = v := htail
    exact .inr (.inl ⟨by rw [hx], by rw [← hv]; rfl⟩)
  | c :: d :: tail, hafter =>
    obtain ⟨hx, htail⟩ := List.cons.inj hafter
    obtain ⟨hy, -⟩ := List.cons.inj htail
    exact .inl ⟨tail, by rw [hx, hy]; rfl⟩

section Behind

variable {c : Char} {rest : Text}

theorem StarSpaced.append (h : StarSpaced c rest) (ht : rest = [] → t.head? ≠ some '*') :
    StarSpaced c (rest ++ t) := by
  intro hstar
  cases rest with
  | nil => exact absurd hstar (ht rfl)
  | cons d tail =>
    obtain hc | hc | ⟨hc, hclose⟩ := h hstar
    · exact .inl hc
    · exact .inr (.inl hc)
    · obtain ⟨last, rfl⟩ := List.head?_eq_some_iff.1 hclose
      exact .inr (.inr ⟨hc, rfl⟩)

theorem StarRun.append (h : StarRun c rest)
    (ht : marks rest = [] → c = '*' → (marks t).head? ≠ some '*') : StarRun c (rest ++ t) := by
  intro hc hstar
  rw [marks_append] at hstar
  cases hmarks : marks rest with
  | nil =>
    rw [hmarks] at hstar
    exact absurd hstar (ht hmarks hc)
  | cons d tail =>
    rw [hmarks] at hstar
    have hhead := h hc (by rw [hmarks]; exact hstar)
    rw [List.head?_append, hhead]
    rfl

theorem BracketSpaced.append (h : BracketSpaced c rest) (ht : rest = [] → t.head? ≠ some '[') :
    BracketSpaced c (rest ++ t) := by
  intro hbracket
  cases rest with
  | nil => exact absurd hbracket (ht rfl)
  | cons d tail => exact h hbracket

theorem SpaceAlone.append (h : SpaceAlone c rest) (ht : rest = [] → c ≠ ' ') :
    SpaceAlone c (rest ++ t) := by
  intro hc hspace
  cases rest with
  | nil => exact ht rfl hc
  | cons d tail => exact h hc hspace

theorem GroupsJoined.append (h : GroupsJoined c rest) (hspace : rest ≠ [' '])
    (ht : rest = [] → c = ']' → ¬[' ', '['] <+: t) : GroupsJoined c (rest ++ t) := by
  intro hc hpre
  rcases prefix_pair_append hpre with hpre | ⟨hrest, -⟩ | ⟨hrest, hpre⟩
  · exact h hc hpre
  · exact hspace hrest
  · exact ht hrest hc hpre

theorem MarkerClosed.append (h : MarkerClosed c rest)
    (hstar : marks rest = [] → c = '(' → (marks t).head? ≠ some '*')
    (hclose : marks rest = ['*'] → c = '(' → (marks t).head? ≠ some ')') :
    MarkerClosed c (rest ++ t) := by
  intro hc hpre
  rw [marks_append] at hpre
  rcases prefix_pair_append hpre with hpre | ⟨hmarks, hhead⟩ | ⟨hmarks, after, hafter⟩
  · exact (h hc hpre).trans (List.prefix_append rest t)
  · exact absurd hhead (hclose hmarks hc)
  · exact absurd (List.head?_eq_some_iff.2 ⟨')' :: after, hafter.symm⟩) (hstar hmarks hc)

end Behind

/-- **A text in place stays so with another one behind it.** -/
theorem along_placed_append (ha : Along Placed a) (hfinish : ∀ c ∈ a.getLast?, isBlank c = false)
    (hjoins : Joins a t) : Along (fun c rest => Placed c (rest ++ t)) a := by
  refine along_iff.2 fun before c rest hs => ?_
  have hplaced := along_iff.1 ha before c rest hs
  have hlast : a.getLast? = (c :: rest).getLast? := by
    rw [hs, List.getLast?_append_cons]
  have hend (hrest : rest = []) : a.getLast? = some c := by
    rw [hlast, hrest]
    rfl
  -- White space at the end of a text would be its last character.
  have hgap (hmarks : marks rest = []) : rest = [] := by
    by_contra hne
    have hblank := marks_eq_nil_iff.1 hmarks _ (List.getLast_mem hne)
    have := hfinish (rest.getLast hne) (by
      rw [hlast, List.getLast?_cons_of_ne_nil hne, List.getLast?_eq_some_getLast hne]
      rfl)
    simp [this] at hblank
  refine ⟨hplaced.star.append fun _ => hjoins.star, hplaced.run.append fun hmarks hc hstar => ?_,
    hplaced.bracket.append fun _ => hjoins.bracket, hplaced.space.append fun hrest hc => ?_,
    hplaced.groups.append ?_ fun hrest hc hpre => ?_,
    hplaced.marker.append (fun hmarks hc hstar => ?_) fun hmarks hc hclose => ?_⟩
  · exact (hjoins.run hstar).1 (hc ▸ hend (hgap hmarks))
  · have hblank := hfinish c (hend hrest)
    simp [hc] at hblank
  · rintro rfl
    have hblank := hfinish ' ' (by rw [hlast]; rfl)
    simp at hblank
  · exact hjoins.groups hpre (hc ▸ hend hrest)
  · exact (hjoins.run hstar).2 (hc ▸ hend (hgap hmarks))
  · exact hjoins.marker hclose before rest (hc ▸ hs) hmarks

/-- A character that is neither space nor punctuation stands in its place before everything but
stars and brackets. -/
theorem placed_of_plain {c : Char} {rest : Text} (hc : c ∉ ['*', '(', ' ', ']'])
    (hstar : rest.head? ≠ some '*') (hbracket : rest.head? ≠ some '[') : Placed c rest := by
  simp only [List.mem_cons, List.not_mem_nil, or_false, not_or] at hc
  obtain ⟨hcstar, hcopen, hcspace, hcclose⟩ := hc
  exact ⟨fun h => absurd h hstar, fun h => absurd h hcstar, fun h => absurd h hbracket,
    fun h => absurd h hcspace, fun h => absurd h hcclose, fun h => absurd h hcopen⟩

/-- A single space stands in its place. -/
theorem placed_space {c : Char} {rest : Text} (hc : c ≠ ' ') : Placed ' ' (c :: rest) := by
  refine ⟨fun _ => .inr (.inl rfl), fun h => absurd h (by decide), fun _ => .inl rfl, ?_,
    fun h => absurd h (by decide), fun h => absurd h (by decide)⟩
  intro _ hspace
  exact hc (Option.some.inj hspace)

/-! ## Words -/

theorem tokens_append {s t : Text} (h : endsWord s = true → startsWord t = false) :
    tokens (s ++ t) = tokens s ++ tokens t := by
  rw [tokens, chunks_append h, List.filter_append]
  rfl

theorem words_append (h : endsWord a = true → startsWord t = false)
    (ha : ∀ w ∈ qualifiers, w ∉ tokens a) (ht : ∀ w ∈ qualifiers, w ∉ tokens t) :
    ∀ w ∈ qualifiers, w ∉ tokens (a ++ t) := by
  intro w hw
  rw [tokens_append h, List.mem_append, not_or]
  exact ⟨ha w hw, ht w hw⟩

/-- Without letters there are no qualifiers. -/
theorem words_of_forall (h : ∀ c ∈ t, c.isAlpha = false) : ∀ w ∈ qualifiers, w ∉ tokens t := by
  have all : ∀ w ∈ qualifiers, ∃ c ∈ w, c.isAlpha = true := by decide
  intro w hw hmem
  obtain ⟨c, hc, halpha⟩ := all w hw
  have hmarks : c ∈ marks t := by
    rw [← flatten_tokens]
    exact List.mem_flatten.2 ⟨w, hmem, hc⟩
  simp [h c (mem_marks.1 hmarks).1] at halpha

/-! ## Texts -/

theorem isNormal_iff_placed {s : Text} :
    IsNormal s ↔ Trimmed s ∧ (∀ c ∈ s, isControl c = false) ∧ (∀ w ∈ qualifiers, w ∉ tokens s) ∧
      Along Placed s := by
  rw [isNormal_iff, along_placed_iff]
  constructor
  · intro ⟨htrimmed, htidy, hneeds⟩
    have hspaced := hneeds.imp fun c rest hc => needsSpace_eq_false_iff.1 hc
    exact ⟨htrimmed, htidy.controls, htidy.words, hspaced.imp fun _ _ hc => hc.1,
      hspaced.imp fun _ _ hc => hc.2, htidy.places⟩
  · intro ⟨htrimmed, hcontrols, hwords, hstar, hbracket, hsettled⟩
    exact ⟨htrimmed, ⟨hcontrols, hwords, hsettled⟩,
      (hstar.and hbracket).imp fun c rest hc => needsSpace_eq_false_iff.2 hc⟩

/-- **A normal text stays normal in front of another text in place**, if a word does not run on
and nothing is made where the two meet. -/
theorem IsNormal.append (ha : IsNormal a) (hne : a ≠ []) (hword : startsWord t = false)
    (hjoins : Joins a t) (hfinish : ∀ c ∈ t.getLast?, isBlank c = false)
    (hcontrols : ∀ c ∈ t, isControl c = false) (hwords : ∀ w ∈ qualifiers, w ∉ tokens t)
    (hplaced : Along Placed t) : IsNormal (a ++ t) := by
  obtain ⟨⟨hstart, hend⟩, hcontrols', hwords', hplaced'⟩ := isNormal_iff_placed.1 ha
  refine isNormal_iff_placed.2 ⟨⟨?_, ?_⟩, ?_, words_append (fun _ => hword) hwords' hwords,
    along_append.2 ⟨along_placed_append hplaced' hend hjoins, hplaced⟩⟩
  · rwa [List.head?_append_of_ne_nil _ hne]
  · intro c hc
    rw [List.getLast?_append] at hc
    rcases Option.or_eq_some_iff.1 hc with h | ⟨-, h⟩
    · exact hfinish c h
    · exact hend c h
  · exact fun c hc => (List.mem_append.1 hc).elim (hcontrols' c) (hcontrols c)

/-- A space behind a normal text is trimmed, and nothing else is changed. -/
theorem normalize_append_space (ha : IsNormal a) : normalize (a ++ [' ']) = a := by
  obtain ⟨htrimmed, hcontrols, hwords, hplaced⟩ := isNormal_iff_placed.1 ha
  have hjoins : Joins a [' '] := ⟨by decide, by decide, by simp [marks_cons_of_blank], by simp,
    by simp [marks_cons_of_blank]⟩
  have hspace : Along Placed [' '] := ⟨⟨by simp [StarSpaced], by simp [StarRun],
    by simp [BracketSpaced], by simp [SpaceAlone], by simp [GroupsJoined],
    by simp [MarkerClosed]⟩, trivial⟩
  obtain ⟨hstar, hbracket, hsettled⟩ := along_placed_iff.1
    (along_append.2 ⟨along_placed_append hplaced htrimmed.finish hjoins, hspace⟩)
  have htidy : Tidy (a ++ [' ']) := by
    refine ⟨?_, words_append (fun _ => by decide) hwords (words_of_forall (by decide)), hsettled⟩
    exact fun c hc => (List.mem_append.1 hc).elim (hcontrols c) fun h => by
      rw [List.mem_singleton.1 h]
      decide
  rw [normalize_of_tidy htidy, pad_of_along
    ((hstar.and hbracket).imp fun c rest hc => needsSpace_eq_false_iff.2 hc),
    strip_append_gap isGap_space, strip_of_trimmed htrimmed]

end CSpelling.Normal

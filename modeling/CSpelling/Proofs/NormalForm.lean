import CSpelling.Proofs.Passes

/-!
# Normal spellings

`Tidy s` says that `s` is normal but for missing spaces before stars and brackets, and `pad` puts
such spaces in. A pass does nothing else to a tidy text (`once_of_tidy`), and every pass over a
text without control characters ends in a tidy text that misses no space (`isNormal_once`). So one
pass makes a text without control characters normal and two passes make every text normal
(`normalize_eq`), and `IsNormal` describes the normal texts.
-/

namespace CSpelling.Normal

open Text

/-! ## Tidy texts -/

/-- What holds along a text that is normal but for missing spaces. -/
structure Settled (c : Char) (rest : Text) : Prop where
  /-- Spaces are single. -/
  space : SpaceAlone c rest
  /-- Stars stand together. -/
  run : StarRun c rest
  /-- Groups stand together. -/
  groups : GroupsJoined c rest
  /-- Markers are closed. -/
  marker : MarkerClosed c rest

/-- The text is normal but for missing spaces before stars and brackets, and for its ends. -/
structure Tidy (s : Text) : Prop where
  /-- There are no control characters. -/
  controls : ∀ c ∈ s, isControl c = false
  /-- There are no qualifiers. -/
  words : ∀ w ∈ qualifiers, w ∉ tokens s
  /-- What is there stands in its place. -/
  places : Along Settled s

/-- A space is missing between the character and what follows it. -/
def needsSpace (c : Char) (rest : Text) : Bool :=
  (rest.head? = some '*' && c ≠ '*' && c ≠ ' ' && !(c = '(' && rest.tail.head? = some ')')) ||
    (rest.head? = some '[' && c ≠ ' ' && c ≠ ']')

theorem needsSpace_eq_false_iff {c : Char} {rest : Text} :
    needsSpace c rest = false ↔ StarSpaced c rest ∧ BracketSpaced c rest := by
  simp only [needsSpace, StarSpaced, BracketSpaced]
  grind

theorem Placed.settled {c : Char} {rest : Text} (h : Placed c rest) : Settled c rest :=
  ⟨h.space, h.run, h.groups, h.marker⟩

/-! ## Padding -/

/-- The text with a space behind each character that satisfies `p` with what follows it. -/
def pad (p : Char → Text → Bool) : Text → Text
  | [] => []
  | c :: rest => if p c rest then c :: ' ' :: pad p rest else c :: pad p rest

/-- The text with a space in front if it begins with the character `d`. -/
def lead (d : Char) (s : Text) : Text := if s.head? = some d then ' ' :: s else s

variable {p q : Char → Text → Bool}

theorem pad_cons_of_pos {c : Char} {rest : Text} (h : p c rest = true) :
    pad p (c :: rest) = c :: ' ' :: pad p rest := by rw [pad, if_pos h]

theorem pad_cons_of_neg {c : Char} {rest : Text} (h : p c rest = false) :
    pad p (c :: rest) = c :: pad p rest := by simp [pad, h]

@[simp] theorem head?_pad (p : Char → Text → Bool) (s : Text) : (pad p s).head? = s.head? := by
  cases s with
  | nil => rfl
  | cons c rest => rw [pad]; split <;> rfl

@[simp] theorem marks_pad (p : Char → Text → Bool) (s : Text) : marks (pad p s) = marks s := by
  induction s with
  | nil => rfl
  | cons c rest ih =>
    unfold pad
    split <;> simp [marks_cons, ih]

theorem pad_congr {s : Text} (h : ∀ c rest, p c rest = q c rest) : pad p s = pad q s := by
  rw [show p = q from funext fun c => funext (h c)]

/-- Nothing is put in where nothing is missing. -/
theorem pad_append_of_along {s t : Text} (h : Along (fun c rest => p c (rest ++ t) = false) s) :
    pad p (s ++ t) = s ++ pad p t := by
  induction s with
  | nil => rfl
  | cons c rest ih => rw [List.cons_append, pad_cons_of_neg h.1, ih h.2, List.cons_append]

theorem pad_of_along {s : Text} (h : Along (fun c rest => p c rest = false) s) :
    pad p s = s := by
  have := pad_append_of_along (s := s) (t := []) (p := p) (h.imp fun c rest hc => by simpa using hc)
  rwa [List.append_nil, pad, List.append_nil] at this

/-! ## A pass over a padded text -/

theorem spaceStars_eq_pad (s : Text) :
    spaceStars s = lead '*' (pad (fun _ rest => rest.head? = some '*') s) := by
  induction s with
  | nil => rfl
  | cons c rest ih =>
    rw [spaceStars_cons, ih]
    by_cases hrest : rest.head? = some '*'
    · rw [pad_cons_of_pos (by simpa using hrest)]
      split <;> simp_all [lead]
    · rw [pad_cons_of_neg (by simpa using hrest)]
      split <;> simp_all [lead]

theorem closeStars_pad {s : Text} (h : Along StarRun s) :
    closeStars (pad (fun _ rest => rest.head? = some '*') s) =
      pad (fun c rest => rest.head? = some '*' && c ≠ '*') s := by
  induction s with
  | nil => rfl
  | cons c rest ih =>
    obtain ⟨hrun, hrest⟩ := h
    by_cases hstar : rest.head? = some '*'
    · have hmarks : (marks rest).head? = some '*' := by
        obtain ⟨tail, rfl⟩ := List.head?_eq_some_iff.1 hstar
        simp [marks_cons_of_not]
      have hspace := closeStars_cons_of_not (c := ' ')
        (s := pad (fun _ rest => rest.head? = some '*') rest) (by simp)
      rw [pad_cons_of_pos (by simpa using hstar)]
      by_cases hc : c = '*'
      · subst hc
        rw [closeStars_star (by simpa [marks_cons_of_blank] using hmarks), hspace, ih hrest,
          List.dropWhile_cons_of_pos isBlank_space, pad_cons_of_neg (by simp),
          dropWhile_of_head? (by simp [hstar])]
      · rw [closeStars_cons_of_not (by simp [hc]), hspace, ih hrest,
          pad_cons_of_pos (by simp [hstar, hc])]
    · rw [pad_cons_of_neg (by simpa using hstar), pad_cons_of_neg (by simp [hstar]),
        closeStars_cons_of_not fun hc hs => hstar (hrun hc (by simpa using hs)), ih hrest]

theorem spaceBrackets_pad {s : Text} (hp : ∀ c rest, p c rest = true → rest.head? ≠ some '[') :
    spaceBrackets (pad p s) =
      lead '[' (pad (fun c rest => p c rest || rest.head? = some '[') s) := by
  induction s with
  | nil => rfl
  | cons c rest ih =>
    have hlead : lead '[' (pad (fun c rest => p c rest || rest.head? = some '[') rest) =
        if rest.head? = some '[' then
          ' ' :: pad (fun c rest => p c rest || rest.head? = some '[') rest
        else pad (fun c rest => p c rest || rest.head? = some '[') rest := by simp [lead]
    have hhead : (pad p (c :: rest)).head? = some c := by simp
    cases hpc : p c rest with
    | true =>
      rw [pad_cons_of_pos hpc, pad_cons_of_pos (by simp [hpc]), spaceBrackets_cons,
        spaceBrackets_cons, if_neg (by decide : ' ' ≠ '['), ih, hlead, if_neg (hp c rest hpc)]
      split <;> simp_all [lead]
    | false =>
      by_cases hb : rest.head? = some '['
      · rw [pad_cons_of_neg hpc, pad_cons_of_pos (by simp [hb]), spaceBrackets_cons, ih, hlead,
          if_pos hb]
        split <;> simp_all [lead]
      · rw [pad_cons_of_neg hpc, pad_cons_of_neg (by simp [hpc, hb]), spaceBrackets_cons, ih,
          hlead, if_neg hb]
        split <;> simp_all [lead]

theorem squeeze_pad {s : Text} (h : Along SpaceAlone s)
    (hp : ∀ c rest, p c rest = true → rest.head? ≠ some ' ') :
    squeeze (pad p s) = pad (fun c rest => p c rest && c ≠ ' ') s := by
  induction s with
  | nil => rfl
  | cons c rest ih =>
    obtain ⟨halone, hrest⟩ := h
    cases hpc : p c rest with
    | true =>
      have hspace : squeeze (' ' :: pad p rest) = ' ' :: squeeze (pad p rest) :=
        squeeze_cons_of_not fun _ => by simpa using hp c rest hpc
      rw [pad_cons_of_pos hpc]
      by_cases hc : c = ' '
      · subst hc
        rw [squeeze_space rfl, hspace, pad_cons_of_neg (by simp), ih hrest]
      · rw [squeeze_cons_of_not (by simp [hc]), hspace, pad_cons_of_pos (by simp [hpc, hc]),
          ih hrest]
    | false =>
      rw [pad_cons_of_neg hpc, pad_cons_of_neg (by simp [hpc]),
        squeeze_cons_of_not (by simpa [SpaceAlone] using halone), ih hrest]

theorem joinGroups_pad {s : Text} (h : Along GroupsJoined s)
    (hp : ∀ c rest, p c rest = true → c ≠ ' ') :
    joinGroups (pad p s) =
      pad (fun c rest => p c rest && !(c = ']' && rest.head? = some '[')) s := by
  induction s with
  | nil => rfl
  | cons c rest ih =>
    obtain ⟨hgroups, hrest⟩ := h
    cases hpc : p c rest with
    | true =>
      have hspace : joinGroups (' ' :: pad p rest) = ' ' :: joinGroups (pad p rest) :=
        joinGroups_cons_of_ne (by decide) _
      rw [pad_cons_of_pos hpc]
      by_cases hjoin : c = ']' ∧ rest.head? = some '['
      · obtain ⟨rfl, hb⟩ := hjoin
        obtain ⟨tail, htail⟩ := List.head?_eq_some_iff.1 ((head?_pad p rest).trans hb)
        rw [htail, joinGroups_join, ← htail, ih hrest, pad_cons_of_neg (by simp [hb])]
      · rw [joinGroups_cons_of_not, hspace, ih hrest,
          pad_cons_of_pos (by simpa [hpc] using not_and_or.1 hjoin)]
        rintro hc hpre
        obtain ⟨tail, htail⟩ := exists_of_prefix_pair hpre
        refine hjoin ⟨hc, ?_⟩
        rw [← head?_pad p, (List.cons.inj htail).2]
        rfl
    | false =>
      rw [pad_cons_of_neg hpc, pad_cons_of_neg (by simp [hpc]), joinGroups_cons_of_not, ih hrest]
      have hspace (tail : Text) : pad p (' ' :: tail) = ' ' :: pad p tail :=
        pad_cons_of_neg (Bool.eq_false_iff.2 fun hps => hp _ _ hps rfl)
      exact fun hc hpre => hgroups hc (prefix_pair_of_pass (head?_pad p) hspace hpre)

theorem closeMarkers_pad {s : Text} (h : Along MarkerClosed s)
    (hp : ∀ c rest, p c rest = true → rest.head? ≠ some ')') :
    closeMarkers (pad p s) =
      pad (fun c rest => p c rest && !(c = '(' && ['*', ')'].isPrefixOf rest)) s := by
  set q := fun c rest => p c rest && !(c = '(' && ['*', ')'].isPrefixOf rest) with hq
  induction s with
  | nil => rfl
  | cons c rest ih =>
    obtain ⟨hmarker, hrest⟩ := h
    have hspace : closeMarkers (' ' :: pad p rest) = ' ' :: closeMarkers (pad p rest) :=
      closeMarkers_cons_of_ne (by decide) _
    by_cases hopen : c = '(' ∧ ['*', ')'] <+: marks rest
    · obtain ⟨rfl, hpre⟩ := hopen
      obtain ⟨tail, rfl⟩ := exists_of_prefix_pair (hmarker rfl hpre)
      have hopen : q '(' ('*' :: ')' :: tail) = false := by simp [hq]
      have hstar : q '*' (')' :: tail) = false :=
        Bool.eq_false_iff.2 fun hqs => hp _ _ (Bool.and_eq_true_iff.1 hqs).1 rfl
      obtain ⟨last, hlast⟩ := List.head?_eq_some_iff.1 (head?_pad q (')' :: tail))
      have hclosed : closeMarkers (pad p ('*' :: ')' :: tail)) = '*' :: ')' :: last := by
        rw [ih hrest, pad_cons_of_neg hstar, hlast]
      rw [pad_cons_of_neg hopen, pad_cons_of_neg hstar, hlast]
      cases hpo : p '(' ('*' :: ')' :: tail) with
      | true =>
        rw [pad_cons_of_pos hpo]
        refine closeMarkers_open ?_
        rw [hspace, hclosed]
        exact afterMarker?_eq_some_iff.2 ⟨[' '], [], rfl, isGap_space, isGap_nil⟩
      | false =>
        rw [pad_cons_of_neg hpo]
        refine closeMarkers_open ?_
        rw [hclosed]
        exact afterMarker?_eq_some_iff.2 ⟨[], [], rfl, isGap_nil, isGap_nil⟩
    · have hnot : c = '(' → ¬['*', ')'] <+: marks rest := by simpa using hopen
      have hmark : (decide (c = '(') && ['*', ')'].isPrefixOf rest) = false := by
        rw [Bool.eq_false_iff, Ne, Bool.and_eq_true, decide_eq_true_iff]
        rintro ⟨hc, hpre⟩
        obtain ⟨tail, rfl⟩ := exists_of_prefix_pair (List.isPrefixOf_iff_prefix.1 hpre)
        exact hnot hc (by simp [marks_cons_of_not])
      have hqp : q c rest = p c rest := by
        simp only [hq, hmark, Bool.not_false, Bool.and_true]
      cases hpc : p c rest with
      | true =>
        rw [pad_cons_of_pos hpc, pad_cons_of_pos (hqp.trans hpc),
          closeMarkers_cons_of_not fun hc => by simpa [marks_cons_of_blank] using hnot hc, hspace,
          ih hrest]
      | false =>
        rw [pad_cons_of_neg hpc, pad_cons_of_neg (hqp.trans hpc),
          closeMarkers_cons_of_not fun hc => by simpa using hnot hc, ih hrest]

/-! ## A pass over a tidy text -/

theorem trimmed_pad {s : Text} (h : Trimmed s) (hp : ∀ c, p c [] = false) : Trimmed (pad p s) := by
  refine ⟨by simpa using h.start, ?_⟩
  have hlast : (pad p s).getLast? = s.getLast? := by
    clear h
    induction s with
    | nil => rfl
    | cons c rest ih =>
      cases rest with
      | nil => rw [pad_cons_of_neg (hp c)]; rfl
      | cons d tail =>
        obtain ⟨last, hpad⟩ := List.head?_eq_some_iff.1 (head?_pad p (d :: tail))
        rw [pad, hpad]
        split <;> simp_all [List.getLast?_cons_cons]
  rw [hlast]
  exact h.finish

theorem strip_lead (d : Char) (s : Text) : strip (lead d s) = strip s := by
  unfold lead
  split
  · exact strip_gap_append isGap_space s
  · rfl

/-- A step that goes past a space in front, and keeps how a text begins, goes past a space that
`lead` puts there. -/
theorem map_lead {f : Text → Text} {d : Char}
    (hspace : ∀ t : Text, t.head? = some d → f (' ' :: t) = ' ' :: f t)
    (hhead : ∀ t : Text, (f t).head? = some d ↔ t.head? = some d) (t : Text) :
    f (lead d t) = lead d (f t) := by
  by_cases ht : t.head? = some d
  · rw [lead, if_pos ht, lead, if_pos ((hhead t).2 ht), hspace t ht]
  · rw [lead, if_neg ht, lead, if_neg (ht ∘ (hhead t).1)]

/-- The last three steps before the text is stripped. -/
theorem closing_lead {d : Char} (hd : d ≠ ' ') (t : Text) :
    closeMarkers (joinGroups (squeeze (lead d t))) =
      lead d (closeMarkers (joinGroups (squeeze t))) := by
  rw [map_lead (f := squeeze) (fun t ht => squeeze_cons_of_not fun _ => by simp [ht, hd])
      (fun t => by rw [head?_squeeze]),
    map_lead (f := joinGroups) (fun t _ => joinGroups_cons_of_ne (by decide) t)
      (fun t => by rw [head?_joinGroups]),
    map_lead (f := closeMarkers) (fun t _ => closeMarkers_cons_of_ne (by decide) t)
      (fun t => by rw [head?_closeMarkers])]

/-- What the steps put in, one after the other. -/
theorem needsSpace_eq (c : Char) (rest : Text) :
    ((rest.head? = some '*' && c ≠ '*' || rest.head? = some '[') && c ≠ ' ' &&
        !(c = ']' && rest.head? = some '[') && !(c = '(' && ['*', ')'].isPrefixOf rest)) =
      needsSpace c rest := by
  rcases rest with _ | ⟨d, _ | ⟨e, tail⟩⟩
  · simp [needsSpace]
  · simp only [needsSpace, List.isPrefixOf, List.head?_cons]
    grind
  · simp only [needsSpace, List.isPrefixOf, List.head?_cons]
    grind

/-- The steps of a pass put the missing spaces in, if the rest stands in its place. -/
theorem respace_of_along {s : Text} (h : Along Settled s) :
    respace s = strip (pad needsSpace s) := by
  have hrun := h.imp fun _ _ hc => hc.run
  have halone := h.imp fun _ _ hc => hc.space
  have hgroups := h.imp fun _ _ hc => hc.groups
  have hmarker := h.imp fun _ _ hc => hc.marker
  have hstars : closeStars (spaceStars s) =
      lead '*' (pad (fun c rest => rest.head? = some '*' && c ≠ '*') s) := by
    rw [spaceStars_eq_pad, map_lead (f := closeStars)
      (fun t _ => closeStars_cons_of_not (by simp)) (fun t => by rw [head?_closeStars]),
      closeStars_pad hrun]
  have hbrackets : spaceBrackets (closeStars (spaceStars s)) = lead '*' (lead '['
      (pad (fun c rest => rest.head? = some '*' && c ≠ '*' || rest.head? = some '[') s)) := by
    rw [hstars, map_lead (f := spaceBrackets)
      (fun t _ => by rw [spaceBrackets_cons, if_neg (by decide)])
      (fun t => head?_spaceBrackets_ne (by decide) (by decide)),
      spaceBrackets_pad fun c rest hp hb => by simp [hb] at hp]
  rw [respace, hbrackets, closing_lead (by decide), closing_lead (by decide), strip_lead,
    strip_lead, squeeze_pad halone fun c rest hp hs => by simp [hs] at hp,
    joinGroups_pad hgroups fun c rest hp => by simp_all,
    closeMarkers_pad hmarker fun c rest hp hs => by simp [hs] at hp]
  rw [pad_congr needsSpace_eq]

theorem dropControls_of_forall {s : Text} (h : ∀ c ∈ s, isControl c = false) :
    dropControls s = s := by
  rw [dropControls, List.filter_eq_self]
  intro c hc
  rw [h c hc, Bool.not_false]

/-- **A pass over a tidy text puts the missing spaces in, trims the text and does nothing else.** -/
theorem once_of_tidy {s : Text} (h : Tidy s) : once s = strip (pad needsSpace s) := by
  rw [once_eq_respace, dropQualifiers_of_not_mem h.words, dropControls_of_forall h.controls,
    respace_of_along h.places]

theorem strip_pad {s : Text} (h : Trimmed s) : strip (pad needsSpace s) = pad needsSpace s :=
  strip_of_trimmed (trimmed_pad h fun _ => rfl)

/-! ## Normal texts -/

/-- The text is normal: no step of a pass changes it. -/
structure IsNormal (s : Text) : Prop where
  /-- No white space stands at the ends. -/
  trimmed : Trimmed s
  /-- There is no tab, line feed or carriage return. -/
  controls : '\t' ∉ s ∧ '\n' ∉ s ∧ '\r' ∉ s
  /-- No maximal word is a qualifier. -/
  words : ∀ w ∈ qualifiers, ¬StandsAlone w s
  /-- No two spaces are adjacent. -/
  spaces : ∀ before after, s ≠ before ++ ' ' :: ' ' :: after
  /-- What a star follows is a star, a space, or the parenthesis of a marker. -/
  stars : ∀ before c after, s = before ++ c :: '*' :: after →
    c = '*' ∨ c = ' ' ∨ c = '(' ∧ after.head? = some ')'
  /-- White space between two stars is nothing. -/
  runs : ∀ before gap after, s = before ++ '*' :: (gap ++ '*' :: after) → IsGap gap → gap = []
  /-- What an opening bracket follows is a closing one, or a space that does not follow one. -/
  brackets : ∀ before c after, s = before ++ c :: '[' :: after →
    c = ']' ∨ c = ' ' ∧ before.getLast? ≠ some ']'
  /-- A marker holds no white space. -/
  markers : ∀ before u v after, s = before ++ '(' :: (u ++ '*' :: (v ++ ')' :: after)) →
    IsGap u → IsGap v → u = [] ∧ v = []

theorem forall_controls_iff {s : Text} :
    (∀ c ∈ s, isControl c = false) ↔ '\t' ∉ s ∧ '\n' ∉ s ∧ '\r' ∉ s := by
  constructor
  · intro h
    refine ⟨fun hc => ?_, fun hc => ?_, fun hc => ?_⟩ <;> simpa [isControl] using h _ hc
  · rintro ⟨htab, hline, hreturn⟩ c hc
    rw [Bool.eq_false_iff]
    intro hcontrol
    obtain (rfl | rfl) | rfl : (c = '\t' ∨ c = '\n') ∨ c = '\r' := by
      simpa [isControl] using hcontrol
    · exact htab hc
    · exact hline hc
    · exact hreturn hc

theorem forall_words_iff {s : Text} :
    (∀ w ∈ qualifiers, w ∉ tokens s) ↔ ∀ w ∈ qualifiers, ¬StandsAlone w s := by
  refine forall₂_congr fun w hw => not_congr ?_
  obtain ⟨hne, hall⟩ := isWordChar_of_mem_qualifiers hw
  rw [standsAlone_iff hne hall, mem_chunks_iff_mem_tokens hw]

theorem exists_gap_of_head?_marks {s : Text} {c : Char} (h : (marks s).head? = some c) :
    ∃ gap after, s = gap ++ c :: after ∧ IsGap gap := by
  rw [← head?_dropWhile] at h
  obtain ⟨after, hafter⟩ := List.head?_eq_some_iff.1 h
  exact ⟨s.takeWhile isBlank, after, by rw [← hafter, List.takeWhile_append_dropWhile],
    fun d hd => List.mem_takeWhile_imp hd⟩

theorem along_starRun_iff {s : Text} : Along StarRun s ↔
    ∀ before gap after, s = before ++ '*' :: (gap ++ '*' :: after) → IsGap gap → gap = [] := by
  rw [along_iff]
  constructor
  · intro h before gap after hs hgap
    have hhead := h before '*' _ hs rfl (by simp [hgap.marks, marks_cons_of_not])
    cases gap with
    | nil => rfl
    | cons c rest =>
      obtain rfl : c = '*' := by simpa using hhead
      have := hgap '*' (by simp)
      simp at this
  · rintro h before c rest hs rfl hstar
    obtain ⟨gap, after, rfl, hgap⟩ := exists_gap_of_head?_marks hstar
    rw [h before gap after hs hgap]
    rfl

theorem along_markerClosed_iff {s : Text} : Along MarkerClosed s ↔
    ∀ before u v after, s = before ++ '(' :: (u ++ '*' :: (v ++ ')' :: after)) →
      IsGap u → IsGap v → u = [] ∧ v = [] := by
  rw [along_iff]
  constructor
  · intro h before u v after hs hu hv
    obtain ⟨rest, hrest⟩ := exists_of_prefix_pair
      (h before '(' _ hs rfl (by simp [hu.marks, hv.marks, marks_cons_of_not]))
    cases u with
    | nil =>
      cases v with
      | nil => exact ⟨rfl, rfl⟩
      | cons c tail =>
        simp only [List.nil_append, List.cons_append, List.cons.injEq, true_and] at hrest
        have := hv c (by simp)
        simp [hrest.1] at this
    | cons c tail =>
      simp only [List.cons_append, List.cons.injEq] at hrest
      have := hu c (by simp)
      simp [hrest.1] at this
  · rintro h before c rest hs rfl hmarks
    obtain ⟨after, hafter⟩ := exists_afterMarker? hmarks
    obtain ⟨u, v, rfl, hu, hv⟩ := afterMarker?_eq_some_iff.1 hafter
    obtain ⟨rfl, rfl⟩ := h before u v after hs hu hv
    simp

theorem along_placed_iff {s : Text} : Along Placed s ↔
    Along StarSpaced s ∧ Along BracketSpaced s ∧ Along Settled s := by
  simp only [along_iff]
  constructor
  · intro h
    exact ⟨fun a c b hs => (h a c b hs).star, fun a c b hs => (h a c b hs).bracket,
      fun a c b hs => (h a c b hs).settled⟩
  · intro ⟨hstar, hbracket, hsettled⟩ a c b hs
    have := hsettled a c b hs
    exact ⟨hstar a c b hs, this.run, hbracket a c b hs, this.space, this.groups, this.marker⟩

/-- A text is normal if it is trimmed and tidy and misses no space. -/
theorem isNormal_iff {s : Text} :
    IsNormal s ↔ Trimmed s ∧ Tidy s ∧ Along (fun c rest => needsSpace c rest = false) s := by
  constructor
  · intro h
    refine ⟨h.trimmed, ⟨forall_controls_iff.2 h.controls, forall_words_iff.2 h.words, ?_⟩, ?_⟩
    · refine along_iff.2 fun a c rest hs => ⟨?_, ?_, ?_, ?_⟩
      · rintro rfl hspace
        obtain ⟨after, rfl⟩ := List.head?_eq_some_iff.1 hspace
        exact h.spaces a after hs
      · exact along_iff.1 (along_starRun_iff.2 h.runs) a c rest hs
      · rintro rfl hpre
        obtain ⟨after, rfl⟩ := exists_of_prefix_pair hpre
        have := h.brackets (a ++ [']']) ' ' after (by simp [hs])
        simp at this
      · exact along_iff.1 (along_markerClosed_iff.2 h.markers) a c rest hs
    · refine along_iff.2 fun a c rest hs => ?_
      refine needsSpace_eq_false_iff.2 ⟨fun hstar => ?_, fun hb => ?_⟩
      · obtain ⟨after, rfl⟩ := List.head?_eq_some_iff.1 hstar
        exact h.stars a c after hs
      · obtain ⟨after, rfl⟩ := List.head?_eq_some_iff.1 hb
        exact (h.brackets a c after hs).symm.imp_left And.left
  · intro ⟨htrimmed, h, hneeds⟩
    have hplaces := along_iff.1 h.places
    have hspaced := fun a c rest hs => needsSpace_eq_false_iff.1 (along_iff.1 hneeds a c rest hs)
    refine ⟨htrimmed, forall_controls_iff.1 h.controls, forall_words_iff.1 h.words, ?_, ?_, ?_, ?_,
      ?_⟩
    · intro a b hs
      exact (hplaces a ' ' _ hs).space rfl rfl
    · intro a c b hs
      exact (hspaced a c _ hs).1 rfl
    · exact along_starRun_iff.1 (h.places.imp fun _ _ hc => hc.run)
    · intro a c b hs
      refine ((hspaced a c _ hs).2 rfl).symm.imp_right fun hc => ⟨hc, fun hlast => ?_⟩
      obtain ⟨front, rfl⟩ := List.getLast?_eq_some_iff.1 hlast
      subst hc
      exact (hplaces front ']' (' ' :: '[' :: b) (by simp [hs])).groups rfl (by simp)
    · exact along_markerClosed_iff.1 (h.places.imp fun _ _ hc => hc.marker)

/-! ## Passes -/

theorem isControl_of_mem_once {c : Char} {s : Text} (h : c ∈ once s) : isControl c = false := by
  rw [once_eq_respace] at h
  obtain hmem | rfl := mem_of_mem_respace h
  · simpa [dropControls] using (List.mem_filter.1 hmem).2
  · decide

/-- **One pass makes a text without control characters normal.** -/
theorem isNormal_once {s : Text} (h : ∀ c ∈ s, isControl c = false) : IsNormal (once s) := by
  have hcontrols : ∀ c ∈ dropQualifiers s, isControl c = false := by
    intro c hc
    refine h c ?_
    obtain ⟨w, hw, hcw⟩ := List.mem_flatten.1 hc
    rw [← flatten_chunks s]
    exact List.mem_flatten.2 ⟨w, List.mem_of_mem_filter hw, hcw⟩
  have hplaces := along_placed_iff.1 (along_respace (dropControls (dropQualifiers s)))
  rw [← once_eq_respace] at hplaces
  have htrimmed : Trimmed (once s) := by
    rw [once_eq_respace]
    exact trimmed_strip _
  have hwords : ∀ w ∈ qualifiers, w ∉ tokens (once s) := by
    intro w hw
    rw [once_eq_respace, tokens_respace, dropControls_of_forall hcontrols]
    exact not_mem_tokens_dropQualifiers hw s
  have hnone : ∀ c ∈ once s, isControl c = false := fun c hc => isControl_of_mem_once hc
  -- The pass itself must not be unfolded along its own result.
  generalize once s = t at *
  refine isNormal_iff.2 ⟨htrimmed, ⟨hnone, hwords, hplaces.2.2⟩, ?_⟩
  exact (hplaces.1.and hplaces.2.1).imp fun c rest hc => needsSpace_eq_false_iff.2 hc

theorem once_eq_self_iff {s : Text} : once s = s ↔ IsNormal s := by
  constructor
  · intro h
    rw [← h]
    exact isNormal_once fun c hc => isControl_of_mem_once (h.symm ▸ hc)
  · intro h
    obtain ⟨htrimmed, htidy, hneeds⟩ := isNormal_iff.1 h
    rw [once_of_tidy htidy, pad_of_along hneeds, strip_of_trimmed htrimmed]

/-- The second pass makes every text normal. -/
theorem isNormal_once_once (s : Text) : IsNormal (once (once s)) :=
  isNormal_once fun _ hc => isControl_of_mem_once hc

theorem settle_of_isNormal {s : Text} (h : IsNormal s) (fuel : Nat) : settle fuel s = s := by
  cases fuel with
  | zero => rfl
  | succ n => rw [settle, if_pos (once_eq_self_iff.2 h)]

theorem settle_add_two (fuel : Nat) (s : Text) : settle (fuel + 2) s = once (once s) := by
  unfold settle
  split
  · next h => rw [h, h]
  · unfold settle
    split
    · next h => rw [h]
    · exact settle_of_isNormal (isNormal_once_once s) fuel

/-- **Two passes make every spelling normal.** -/
theorem normalize_eq (s : Text) : normalize s = once (once s) := settle_add_two s.length s

theorem isNormal_normalize (s : Text) : IsNormal (normalize s) := by
  rw [normalize_eq]
  exact isNormal_once_once s

theorem isNormal_of_normalize {s : Text} (h : normalize s = s) : IsNormal s := by
  rw [← h]
  exact isNormal_normalize s

theorem normalize_of_isNormal {s : Text} (h : IsNormal s) : normalize s = s :=
  settle_of_isNormal h _

/-- The normal spelling of a tidy text is the text with the missing spaces, trimmed. -/
theorem normalize_of_tidy {s : Text} (h : Tidy s) : normalize s = strip (pad needsSpace s) := by
  rw [normalize_eq, once_of_tidy h, once_eq_self_iff.2]
  rw [← once_of_tidy h]
  exact isNormal_once h.controls

/-- Passes that start at the first text come to rest at the second: the loop without a bound on
the number of passes. -/
inductive Settles : Text → Text → Prop
  /-- The text is at rest. -/
  | rest {s : Text} : once s = s → Settles s s
  /-- A pass changes the text. -/
  | pass {s t : Text} : once s ≠ s → Settles (once s) t → Settles s t

theorem settles_of_isNormal {s : Text} (h : IsNormal s) : Settles s s :=
  .rest (once_eq_self_iff.2 h)

theorem Settles.of_once {s t : Text} (h : Settles (once s) t) : Settles s t := by
  by_cases hs : once s = s
  · rwa [hs] at h
  · exact .pass hs h

/-- **The passes over every text come to rest after at most two, and after one if there are no
control characters; the texts at rest are the normal ones.** -/
theorem settles_normalize (s : Text) :
    Settles s (normalize s) ∧ normalize s = once (once s) ∧
      ('\t' ∉ s ∧ '\n' ∉ s ∧ '\r' ∉ s → normalize s = once s) ∧
      IsNormal (normalize s) ∧ (normalize s = s ↔ IsNormal s) := by
  refine ⟨?_, normalize_eq s, fun h => ?_, isNormal_normalize s, isNormal_of_normalize,
    normalize_of_isNormal⟩
  · rw [normalize_eq]
    exact (settles_of_isNormal (isNormal_once_once s)).of_once.of_once
  · rw [normalize_eq]
    exact once_eq_self_iff.2 (isNormal_once (forall_controls_iff.2 h))

end CSpelling.Normal

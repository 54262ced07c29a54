import CSpelling.Proofs.Cuts
import CSpelling.Proofs.Pointers
import CSpelling.Proofs.Replacing
import CSpelling.Proofs.TokenSequences

/-!
# One more star

A star behind a spelling of words, spaces and stars is one star more in its normal spelling, and in
what is known of it (`Normal.normalize_append_star`, `Reading.known_append_star`). So such a
spelling is read as a pointer to what it was without the star
(`TakesStars.ofSpelling_append_star`), one star more is one pointer more
(`TakesStars.outcome_append_star`), and so are as many as there are
(`Registry.outcome_append_stars`).
-/

namespace CSpelling

open Text CSpelling.Normal CSpelling.Decorations

/-- The spelling is made of word characters, spaces and stars. -/
def IsPlain (s : Text) : Prop := ∀ c ∈ s, Reading.isElementChar c = true

instance (s : Text) : Decidable (IsPlain s) :=
  inferInstanceAs (Decidable (∀ c ∈ s, Reading.isElementChar c = true))

variable {s t m g w : Text}

theorem isElementChar_iff {c : Char} :
    Reading.isElementChar c = true ↔ isWordChar c = true ∨ c = '*' ∨ c = ' ' := by
  simp [Reading.isElementChar, or_assoc]

namespace IsPlain

theorem not_mem (h : IsPlain s) {c : Char} (hc : Reading.isElementChar c = false) : c ∉ s := by
  intro hmem
  simp [h c hmem] at hc

theorem isControl (h : IsPlain s) : ∀ c ∈ s, isControl c = false := by
  intro c hc
  rcases isElementChar_iff.1 (h c hc) with hword | rfl | rfl
  · exact isControl_of_isWordChar hword
  · decide
  · decide

theorem isPiece (h : IsPlain s) : IsPiece s := by
  intro c hc
  rw [Bool.eq_false_iff]
  intro hd
  obtain ⟨hstar, -, hspace, -⟩ := ne_of_isDelimiter hd
  rcases isElementChar_iff.1 (h c hc) with hword | rfl | rfl
  · simp [isWordChar_of_isDelimiter hd] at hword
  · exact hstar rfl
  · exact hspace rfl

/-- The white space of such a spelling is made of spaces. -/
theorem eq_space (h : IsPlain s) {c : Char} (hc : c ∈ s) (hblank : isBlank c = true) : c = ' ' := by
  rcases isElementChar_iff.1 (h c hc) with hword | rfl | rfl
  · simp [not_isWordChar_of_isBlank hblank] at hword
  · simp at hblank
  · rfl

theorem append_star (h : IsPlain s) : IsPlain (s ++ ['*']) := by
  intro c hc
  rcases List.mem_append.1 hc with hc | hc
  · exact h c hc
  · rw [List.mem_singleton.1 hc]
    exact isElementChar_iff.2 (.inr (.inl rfl))

theorem of_mem (h : IsPlain s) (hmem : ∀ c ∈ t, c ∈ s ∨ c = ' ') : IsPlain t := by
  intro c hc
  rcases hmem c hc with hc | rfl
  · exact h c hc
  · exact isElementChar_iff.2 (.inr (.inr rfl))

end IsPlain

/-! ## White space at the end -/

/-- A text that does not end in white space, and the white space behind it. -/
theorem exists_gap_behind (s : Text) :
    ∃ m g, s = m ++ g ∧ IsGap g ∧ ∀ c ∈ m.getLast?, isBlank c = false := by
  induction s using List.reverseRecOn with
  | nil => exact ⟨[], [], rfl, isGap_nil, by simp⟩
  | append_singleton s c ih =>
    cases hblank : isBlank c with
    | false => exact ⟨s ++ [c], [], by simp, isGap_nil, by simp [hblank]⟩
    | true =>
      obtain ⟨m, g, rfl, hg, hm⟩ := ih
      refine ⟨m, g ++ [c], by simp, fun d hd => ?_, hm⟩
      rcases List.mem_append.1 hd with hd | hd
      · exact hg d hd
      · rw [List.mem_singleton.1 hd, hblank]

/-- A text that does not end in white space loses what stands in front of it, and that alone. -/
theorem exists_eq_append_strip (hne : m ≠ []) (hm : ∀ c ∈ m.getLast?, isBlank c = false) :
    ∃ a, IsGap a ∧ m = a ++ strip m ∧ strip m ≠ [] := by
  obtain ⟨a, b, hsplit, ha, hb⟩ := exists_gaps m
  have hend {u v : Text} (hv : IsGap v) (h : m = u ++ v) : v = [] := by
    rcases List.eq_nil_or_concat v with rfl | ⟨v, c, rfl⟩
    · rfl
    · have hlast := hm c (by simp [h])
      rw [hv c (by simp)] at hlast
      cases hlast
  obtain rfl := hend hb hsplit
  rw [List.append_nil] at hsplit
  refine ⟨a, ha, hsplit, fun hstrip => hne ?_⟩
  rw [hstrip, List.append_nil] at hsplit
  exact hsplit.trans (hend (u := []) ha hsplit)

theorem strip_append (hne : m ≠ []) (hm : ∀ c ∈ m.getLast?, isBlank c = false)
    (ht : ∀ c ∈ t.getLast?, isBlank c = false) : strip (m ++ t) = strip m ++ t := by
  obtain ⟨a, ha, hsplit, hstrip⟩ := exists_eq_append_strip hne hm
  have htrimmed := trimmed_strip m
  have hboth : Trimmed (strip m ++ t) := by
    refine ⟨by rw [List.head?_append_of_ne_nil _ hstrip]; exact htrimmed.start, fun c hc => ?_⟩
    rw [List.getLast?_append] at hc
    rcases Option.or_eq_some_iff.1 hc with h | ⟨-, h⟩
    · exact ht c h
    · exact htrimmed.finish c h
  conv_lhs => rw [hsplit, List.append_assoc, strip_gap_append ha, strip_of_trimmed hboth]

theorem getLast?_strip (hm : ∀ c ∈ m.getLast?, isBlank c = false) :
    (strip m).getLast? = m.getLast? := by
  rcases eq_or_ne m [] with rfl | hne
  · rfl
  · obtain ⟨a, -, hsplit, hstrip⟩ := exists_eq_append_strip hne hm
    conv_rhs => rw [hsplit, List.getLast?_append_of_ne_nil _ hstrip]

namespace Normal

/-! ## A pass over one more star -/

theorem closeStars_gap_append (hg : IsGap g) (t : Text) :
    closeStars (g ++ t) = g ++ closeStars t := by
  induction g with
  | nil => rfl
  | cons c rest ih =>
    have hc : c ≠ '*' := by
      rintro rfl
      simpa using hg '*' (by simp)
    rw [List.cons_append, closeStars_cons_of_not fun h => absurd h hc,
      ih fun d hd => hg d (List.mem_cons_of_mem _ hd), List.cons_append]

/-- A star closes up to the stars at the end of a text, and stays apart from anything else. -/
theorem closeStars_append_star (hm : ∀ c ∈ m.getLast?, isBlank c = false) (hg : IsGap g) :
    closeStars (m ++ (g ++ ['*'])) =
      closeStars m ++ if m.getLast? = some '*' then ['*'] else g ++ ['*'] := by
  have hmarks : (marks (g ++ ['*'])).head? = some '*' := by
    rw [marks_append, hg.marks]
    rfl
  have hgap : closeStars (g ++ ['*']) = g ++ ['*'] := closeStars_gap_append hg ['*']
  induction m with
  | nil => exact hgap
  | cons c rest ih =>
    rw [List.cons_append]
    cases rest with
    | nil =>
      by_cases hc : c = '*'
      · subst hc
        rw [List.nil_append, closeStars_star hmarks, hgap,
          List.dropWhile_append_of_pos hg]
        rfl
      · rw [List.nil_append, closeStars_cons_of_not fun h => absurd h hc, hgap,
          if_neg (by simpa using hc)]
        rfl
    | cons d tail =>
      have ih := ih (by simpa using hm)
      have hne : marks (d :: tail) ≠ [] := by
        intro hnil
        have hgap := marks_eq_nil_iff.1 hnil
        have hlast := hm ((d :: tail).getLast (by simp)) (by simp [List.getLast?_eq_some_getLast])
        rw [hgap _ (List.getLast_mem (by simp))] at hlast
        cases hlast
      have hhead : (marks (d :: tail ++ (g ++ ['*']))).head? = (marks (d :: tail)).head? := by
        rw [marks_append, List.head?_append_of_ne_nil _ hne]
      rw [List.getLast?_cons_cons]
      by_cases hstar : c = '*' ∧ (marks (d :: tail)).head? = some '*'
      · obtain ⟨rfl, hrest⟩ := hstar
        have hdrop (t : Text) : (closeStars (d :: tail) ++ t).dropWhile isBlank =
            (closeStars (d :: tail)).dropWhile isBlank ++ t := by
          rw [List.dropWhile_append, if_neg]
          intro hempty
          rw [← marks_closeStars, ← head?_dropWhile, List.isEmpty_iff.1 hempty] at hrest
          cases hrest
        rw [closeStars_star hrest, closeStars_star (hhead.trans hrest), ih, hdrop, List.cons_append]
      · rw [closeStars_cons_of_not fun hc h => hstar ⟨hc, h⟩,
          closeStars_cons_of_not fun hc h => hstar ⟨hc, hhead ▸ h⟩, ih, List.cons_append]

theorem closeStars_append_gap (m : Text) (hg : IsGap g) :
    closeStars (m ++ g) = closeStars m ++ g := by
  have hgap : closeStars g = g := by simpa [closeStars] using closeStars_gap_append hg []
  rw [closeStars_append (by simp [hg.marks]), hgap]

theorem getLast?_closeStars (hm : ∀ c ∈ m.getLast?, isBlank c = false) :
    (closeStars m).getLast? = m.getLast? := by
  rcases List.eq_nil_or_concat m with rfl | ⟨front, c, rfl⟩
  · rfl
  rw [List.concat_eq_append] at hm ⊢
  by_cases hc : c = '*'
  · obtain ⟨front, g, rfl, hg, hfront⟩ := exists_gap_behind front
    rw [hc, List.append_assoc, closeStars_append_star hfront hg, ← List.append_assoc]
    split <;> simp
  · have hblank : isBlank c = false := hm c (by simp)
    rw [closeStars_append (by simpa [marks_cons_of_not hblank] using hc),
      closeStars_cons_of_not fun h => absurd h hc]
    simp [closeStars]

theorem squeeze_append (h : m.getLast? ≠ some ' ') (t : Text) :
    squeeze (m ++ t) = squeeze m ++ squeeze t := by
  rcases List.eq_nil_or_concat m with rfl | ⟨front, c, rfl⟩
  · rfl
  · have hc : c ≠ ' ' := by simpa using h
    rw [List.concat_eq_append, List.append_assoc, List.singleton_append, squeeze_append_cons hc,
      squeeze_append_cons hc]
    simp [squeeze]

theorem getLast?_squeeze (h : m.getLast? ≠ some ' ') : (squeeze m).getLast? = m.getLast? := by
  rcases List.eq_nil_or_concat m with rfl | ⟨front, c, rfl⟩
  · rfl
  · have hc : c ≠ ' ' := by simpa using h
    rw [List.concat_eq_append, squeeze_append_cons hc]
    simp [squeeze]

theorem squeeze_spaces_star (k : Nat) :
    squeeze (List.replicate (k + 1) ' ' ++ ['*']) = [' ', '*'] := by
  induction k with
  | zero => rfl
  | succ k ih =>
    rw [List.replicate_succ, List.cons_append, squeeze_space (by simp [List.replicate_succ]), ih]

theorem isGap_squeeze (hg : IsGap g) : IsGap (squeeze g) := by
  intro c hc
  rcases (respaced_squeeze g).mem c hc with hc | rfl
  · exact hg c hc
  · exact isBlank_space

theorem spaceBrackets_of_not_mem (h : '[' ∉ s) : spaceBrackets s = s := by
  induction s with
  | nil => rfl
  | cons c rest ih =>
    rw [List.mem_cons, not_or] at h
    rw [spaceBrackets_cons, if_neg (Ne.symm h.1), ih h.2]

theorem joinGroups_of_not_mem (h : '[' ∉ s) : joinGroups s = s := by
  induction s with
  | nil => rfl
  | cons c rest ih =>
    rw [List.mem_cons, not_or] at h
    rw [joinGroups_cons_of_not fun _ hpre => h.2 (hpre.subset (by simp)), ih h.2]

/-- Without brackets and parentheses a pass deals with stars and spaces alone. -/
theorem respace_of_isPlain (h : IsPlain s) :
    respace s = strip (squeeze (closeStars (spaceStars s))) := by
  have hstars : IsPlain (closeStars (spaceStars s)) :=
    h.of_mem ((respaced_spaceStars s).trans (respaced_closeStars _)).mem
  have hsqueeze : IsPlain (squeeze (closeStars (spaceStars s))) :=
    hstars.of_mem (respaced_squeeze _).mem
  rw [respace, spaceBrackets_of_not_mem (hstars.not_mem (by decide)),
    joinGroups_of_not_mem (hsqueeze.not_mem (by decide)), closeMarkers_piece hsqueeze.isPiece]

/-- Behind stars a star closes up, and behind anything else a single space is left. -/
theorem strip_squeeze_append_star (hm : ∀ c ∈ m.getLast?, isBlank c = false) (k : Nat) :
    strip (squeeze (m ++ if m.getLast? = some '*' then ['*']
      else List.replicate (k + 1) ' ' ++ ['*'])) = addStar (strip (squeeze m)) := by
  have hspace : m.getLast? ≠ some ' ' := fun hs => by simpa using hm ' ' hs
  have hsqueezed : ∀ c ∈ (squeeze m).getLast?, isBlank c = false := getLast?_squeeze hspace ▸ hm
  rw [squeeze_append hspace]
  rcases eq_or_ne m [] with rfl | hne
  · rw [if_neg (by simp), squeeze_spaces_star]
    rfl
  have hstrip := getLast?_strip hsqueezed
  rw [getLast?_squeeze hspace] at hstrip
  have hstripne : strip (squeeze m) ≠ [] := fun hnil => hne (by simpa [hnil] using hstrip.symm)
  have hsqueezene : squeeze m ≠ [] := fun hnil => hstripne (by rw [hnil]; rfl)
  by_cases hstarred : m.getLast? = some '*'
  · rw [if_pos hstarred, addStar_of_pos (.inr (hstrip.trans hstarred))]
    exact strip_append hsqueezene hsqueezed (by simp [squeeze])
  · rw [if_neg hstarred, squeeze_spaces_star,
      addStar_of_neg (by simp [hstripne, hstrip, hstarred])]
    exact strip_append hsqueezene hsqueezed (by simp)

theorem respace_append_star (h : IsPlain s) : respace (s ++ ['*']) = addStar (respace s) := by
  rw [respace_of_isPlain h, respace_of_isPlain h.append_star, spaceStars_append]
  have hplain : IsPlain (spaceStars s) := h.of_mem (respaced_spaceStars s).mem
  obtain ⟨m, g, hsplit, hg, hm⟩ := exists_gap_behind (spaceStars s)
  rw [hsplit] at hplain ⊢
  obtain ⟨k, rfl⟩ : ∃ k, g = List.replicate k ' ' := ⟨g.length, List.eq_replicate_of_mem
    fun c hc => hplain.eq_space (List.mem_append_right m hc) (hg c hc)⟩
  have hgap : IsGap (List.replicate (k + 1) ' ') := by
    intro c hc
    rw [List.eq_of_mem_replicate hc]
    exact isBlank_space
  have hstar : closeStars (m ++ List.replicate k ' ' ++ spaceStars ['*']) = closeStars m ++
      if m.getLast? = some '*' then ['*'] else List.replicate (k + 1) ' ' ++ ['*'] := by
    have := closeStars_append_star hm hgap
    simpa [spaceStars, List.replicate_succ'] using this
  -- What stands in front of the white space is closed up, and ends as before.
  have hlast := getLast?_closeStars hm
  have hclosed : ∀ c ∈ (closeStars m).getLast?, isBlank c = false := hlast ▸ hm
  have hspace : (closeStars m).getLast? ≠ some ' ' := fun hs => by simpa using hclosed ' ' hs
  rw [hstar, closeStars_append_gap m hg, ← hlast, strip_squeeze_append_star hclosed,
    squeeze_append hspace, strip_append_gap (isGap_squeeze hg)]

theorem once_append_star (h : IsPlain s) : once (s ++ ['*']) = addStar (once s) := by
  have hdrop : dropQualifiers (s ++ ['*']) = dropQualifiers s ++ ['*'] :=
    dropQualifiers_append_cons (by decide) s []
  have hplain : IsPlain (dropQualifiers s) := by
    intro c hc
    obtain ⟨w, hw, hcw⟩ := List.mem_flatten.1 hc
    refine h c ?_
    rw [← flatten_chunks s]
    exact List.mem_flatten.2 ⟨w, List.mem_of_mem_filter hw, hcw⟩
  rw [once_eq_respace, once_eq_respace, hdrop, dropControls_of_forall hplain.append_star.isControl,
    dropControls_of_forall hplain.isControl, respace_append_star hplain]

theorem normalize_eq_once (h : ∀ c ∈ s, isControl c = false) : normalize s = once s := by
  rw [normalize_eq, once_eq_self_iff.2 (isNormal_once h)]

/-- **One more star is one more star in the normal spelling.** -/
theorem normalize_append_star (h : IsPlain s) : normalize (s ++ ['*']) = addStar (normalize s) := by
  rw [normalize_eq_once h.append_star.isControl, normalize_eq_once h.isControl, once_append_star h]

end Normal

/-! ## Fragments -/

theorem replace_addStar {f : Text × Text} (hf : f ∈ fragments) (s : Text) :
    replace f.1 f.2 (addStar s) = addStar (replace f.1 f.2 s) := by
  obtain ⟨hne, -, -, hnew, -⟩ := Reading.ends_of_mem_fragments hf
  have hsnoc {c : Char} (hc : isWordChar c = false) (t : Text) :
      replace f.1 f.2 (t ++ [c]) = replace f.1 f.2 t ++ [c] := Reading.replace_snoc hf hc t
  have hlast : (replace f.1 f.2 s).getLast? = some '*' ↔ s.getLast? = some '*' := by
    constructor
    · intro h
      obtain ⟨front, hfront⟩ := List.getLast?_eq_some_iff.1 h
      obtain ⟨front', after, rfl, -, hafter⟩ :=
        Reading.exists_of_replace_split hf (by decide) hfront
      rw [Reading.eq_of_replace_gap hf isGap_nil hafter]
      simp
    · intro h
      obtain ⟨front, rfl⟩ := List.getLast?_eq_some_iff.1 h
      rw [hsnoc (by decide)]
      simp
  have hsame : replace f.1 f.2 s = [] ∨ (replace f.1 f.2 s).getLast? = some '*' ↔
      s = [] ∨ s.getLast? = some '*' := or_congr (replace_eq_nil_iff hne hnew) hlast
  by_cases h : s = [] ∨ s.getLast? = some '*'
  · rw [addStar_of_pos h, addStar_of_pos (hsame.2 h), hsnoc (by decide)]
  · have hsplit : s ++ [' ', '*'] = s ++ [' '] ++ ['*'] := by simp
    rw [addStar_of_neg h, addStar_of_neg (mt hsame.1 h), hsplit, hsnoc (by decide),
      hsnoc (by decide), List.append_assoc]
    rfl

namespace Reading

theorem substitute_addStar (s : Text) : substitute (addStar s) = addStar (substitute s) := by
  have hall : ∀ f ∈ fragments, ∀ s, replace f.1 f.2 (addStar s) = addStar (replace f.1 f.2 s) :=
    fun f hf s => replace_addStar hf s
  unfold substitute
  revert hall
  induction fragments generalizing s with
  | nil => exact fun _ => rfl
  | cons f fs ih =>
    intro hall
    rw [List.foldl_cons, List.foldl_cons, hall f (by simp)]
    exact ih _ fun g hg => hall g (by simp [hg])

/-- **The star stands behind what is known of the spelling.** -/
theorem known_append_star (h : IsPlain s) : known (s ++ ['*']) = addStar (known s) := by
  rw [known_eq (normalize_append_star h), known_eq rfl, substitute_addStar]

theorem isPlain_known (h : IsPlain s) : IsPlain (known s) := by
  intro c hc
  rw [known_eq rfl] at hc
  rcases mem_of_mem_substitute hc with hc | hc
  · exact h.of_mem (fun _ => mem_of_mem_normalize) c hc
  · exact (by decide : IsPlain "int".toList) c hc

theorem isNormal_known (s : Text) : IsNormal (known s) := by
  rw [known_eq rfl]
  exact isNormal_substitute (isNormal_normalize s)

end Reading

/-! ## Readings -/

theorem not_infix_addStar (h : ¬localeStruct <:+: s) : ¬localeStruct <:+: addStar s := by
  have hend : ∀ c ∈ localeStruct.getLast?, c ∉ [' ', '*'] ∧ c ∉ ['*'] := by decide
  unfold addStar
  split
  · exact not_infix_append h fun c hc => (hend c hc).2
  · exact not_infix_append h fun c hc => (hend c hc).1

namespace Reading

variable {reg : Registry} {unwind : Bool}

/-- A spelling that is not replaced as a whole is read by what is known of it. -/
theorem ofSpelling_eq_known (hcolon : ':' ∉ s) (hne : normalize s ≠ [])
    (hlocale : ¬localeStruct <:+: normalize s) :
    ofSpelling reg unwind s = (ofName? reg unwind (known s)).getD (ofForm (known s)) := by
  have hlocale : occurs localeStruct (normalize s) = false := by
    rwa [Bool.eq_false_iff, Ne, occurs_iff (by decide)]
  have hcolon : s.contains ':' = false := by simpa using hcolon
  have hempty : (normalize s).isEmpty = false := by simpa using hne
  rw [known_eq rfl, ofSpelling, hcolon]
  generalize normalize s = n at hlocale hempty ⊢
  simp only [hlocale, hempty, Bool.false_eq_true, if_false]

theorem normalize_eq_nil_of_known (h : known s = []) : normalize s = [] := by
  rw [known_eq rfl] at h
  refine substitute_induction (P := fun t => t = [] → normalize s = []) ?_ id h
  intro f hf t ht h
  obtain ⟨hne, -, -, hnew, -⟩ := ends_of_mem_fragments hf
  exact ht ((replace_eq_nil_iff hne hnew).1 h)

/-- What is known of a spelling is read as the spelling is. -/
theorem ofSpelling_known (h : IsPlain s) (hne : normalize s ≠ [])
    (hlocale : ¬localeStruct <:+: normalize s) :
    ofSpelling reg unwind (known s) = ofSpelling reg unwind s := by
  have hfree : FreeOf (known s) := by
    rw [known_eq rfl]
    exact freeOf_substitute hlocale
  rw [ofSpelling_eq_known (h.not_mem (by decide)) hne hlocale,
    ofSpelling_of_freeOf reg unwind ((isPlain_known h).not_mem (by decide))
      (normalize_of_isNormal (isNormal_known s)) (fun hnil => hne (normalize_eq_nil_of_known hnil))
      hfree]

end Reading

/-- A star behind the spelling is a pointer to it: it is not replaced as a whole, and neither is it
`void` nor a typedef of a function type, for which a pointer stands for something else. -/
structure TakesStars (reg : Registry) (s : Text) : Prop where
  /-- There are words, spaces and stars. -/
  plain : IsPlain s
  /-- The spelling does not stand for an `int` as a whole. -/
  locale : ¬localeStruct <:+: normalize s
  /-- The spelling is something. -/
  void : Reading.known s ≠ "void".toList
  /-- The spelling is no typedef of a function type. -/
  name : reg.namesFunction (Reading.known s) = false

namespace TakesStars

variable {reg : Registry} (hreg : reg.Without '*') (h : TakesStars reg s)

include hreg h

theorem append_star : TakesStars reg (s ++ ['*']) where
  plain := h.plain.append_star
  locale := by
    rw [normalize_append_star h.plain]
    exact not_infix_addStar h.locale
  void := by
    intro hvoid
    have hstar := mem_addStar (Reading.known s)
    rw [← Reading.known_append_star h.plain, hvoid] at hstar
    exact absurd hstar (by decide)
  name := by
    rw [Reading.known_append_star h.plain, Registry.namesFunction,
      hreg.underlying? (mem_addStar _)]
    rfl

theorem ofSpelling_append_star (unwind : Bool) : Reading.ofSpelling reg unwind (s ++ ['*']) =
    if Reading.known s = "char".toList then .named "[]byte".toList
    else .pointer (Reading.known s) := by
  have hnormal := normalize_append_star h.plain
  have hne : normalize (s ++ ['*']) ≠ [] := by
    rw [hnormal]
    exact List.ne_nil_of_mem (mem_addStar _)
  have hfunction : ¬(Reading.known s ≠ [] ∧ reg.namesFunction (Reading.known s) = true) :=
    fun hk => Bool.false_ne_true (h.name.symm.trans hk.2)
  rw [Reading.ofSpelling_eq_known (h.plain.append_star.not_mem (by decide)) hne
      (append_star hreg h).locale, Reading.known_append_star h.plain,
    Reading.read_addStar hreg unwind (Reading.isNormal_known s).trimmed
      ((Reading.isPlain_known h.plain).not_mem (by decide)),
    if_neg h.void, if_neg hfunction]

/-- **One star more is one pointer more.** -/
theorem outcome_append_star (config : Config) (levels : Nat) (chain : List Text) :
    (reg.descend config (levels + 2) chain (s ++ ['*'])).outcome =
      (reg.descend config (levels + 1) chain s).outcome.map pointerTo := by
  have hcolon : ':' ∉ s := h.plain.not_mem (by decide)
  rw [Registry.outcome_descend_succ, h.ofSpelling_append_star hreg]
  by_cases hempty : normalize s = []
  · have hknown : Reading.known s = [] := Reading.known_eq hempty
    rw [hknown, if_neg (by decide), Reading.describe, Trace.outcome_map,
      Registry.outcome_descend_succ, Registry.outcome_descend_succ,
      Reading.ofSpelling_of_empty reg _ (s := []) (by simp) (by decide),
      Reading.ofSpelling_of_empty reg _ hcolon hempty]
    rfl
  split_ifs with hchar
  · -- What stands for a character and its pointer are both in the tables.
    rw [Registry.outcome_descend_succ, Reading.ofSpelling_eq_known hcolon hempty h.locale, hchar]
    have hbyte : (Reading.ofName? reg config.unwind "char".toList).getD
        (Reading.ofForm "char".toList) = .named "byte".toList := rfl
    rw [hbyte, Reading.describe, Reading.describe, Trace.outcome, Trace.outcome,
      describeName_of_not_mem reg (by decide), describeName_of_not_mem reg (by decide)]
    rfl
  · rw [Reading.describe, Trace.outcome_map, Registry.outcome_descend_succ,
      Registry.outcome_descend_succ, Reading.ofSpelling_known h.plain hempty h.locale]

end TakesStars

/-- **As many stars more are as many pointers more.** -/
theorem Registry.outcome_append_stars {reg : Registry} {k : Nat}
    (h : k = 0 ∨ reg.Without '*' ∧ TakesStars reg s) (config : Config) (levels : Nat)
    (chain : List Text) :
    (reg.descend config (levels + 1 + k) chain (s ++ List.replicate k '*')).outcome =
      (Except.map pointerTo)^[k] (reg.descend config (levels + 1) chain s).outcome := by
  rcases h with rfl | ⟨hreg, h⟩
  · rw [List.replicate_zero, List.append_nil]
    rfl
  · have hall (k : Nat) : TakesStars reg (s ++ List.replicate k '*') ∧
        (reg.descend config (levels + 1 + k) chain (s ++ List.replicate k '*')).outcome =
          (Except.map pointerTo)^[k] (reg.descend config (levels + 1) chain s).outcome := by
      induction k with
      | zero => exact ⟨by simpa using h, by simp⟩
      | succ k ih =>
        obtain ⟨hk, ih⟩ := ih
        rw [List.replicate_succ', ← List.append_assoc, Function.iterate_succ_apply', ← ih]
        refine ⟨hk.append_star hreg, ?_⟩
        have hlevels : levels + 1 + (k + 1) = levels + k + 2 := by omega
        rw [hlevels, hk.outcome_append_star hreg, Nat.add_right_comm]
    exact (hall k).2

end CSpelling

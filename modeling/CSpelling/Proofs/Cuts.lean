import CSpelling.Proofs.TokenSequences
import CSpelling.Proofs.Words

/-!
# Parts of normal spellings

Normalising keeps what is no word and no white space (`mem_normalize_iff`).

A pointer and an array are read by cutting the end of a normal spelling off. What is left is normal
but for white space at its end (`Normal.normalize_of_append`), its words are words of the whole, and
it is no function type if the whole is none (`isFunction_of_append`).

The element of an array with sizes is looked for in the spelling without its parentheses, where it
ends as a whole word begins or ends (`exists_of_sizedArray?`); it need not be normal, but
normalising makes no new words of it (`mem_chunks_of_normalize`).
-/

namespace CSpelling

open Text CSpelling.Normal

variable {a b s t w : Text}

/-! ## Words -/

theorem endsWord_of_isGap (h : IsGap s) : endsWord s = false := by
  rw [endsWord, Option.any_eq_false]
  intro c hc
  simpa using not_isWordChar_of_isBlank (h c (List.mem_of_getLast? hc))

theorem startsWord_gap_append (ha : IsGap a) (hb : startsWord b = false) :
    startsWord (a ++ b) = false := by
  cases a with
  | nil => exact hb
  | cons c rest =>
    rw [List.cons_append, startsWord_cons]
    exact not_isWordChar_of_isBlank (ha c (by simp))

/-- A chunk of a part that is set off by something else than words is a chunk of the whole. -/
theorem mem_chunks_append (ha : endsWord a = false) (hb : startsWord b = false)
    (hw : w ∈ chunks s) : w ∈ chunks (a ++ s ++ b) := by
  rw [List.append_assoc, chunks_append (by simp [ha]), chunks_append (fun _ => hb)]
  simp [hw]

/-- No word goes on behind the word characters at the beginning of a text. -/
theorem startsWord_dropWhile (s : Text) : startsWord (s.dropWhile isWordChar) = false := by
  rw [startsWord, Option.any_eq_false]
  intro c hc
  have hhead := List.head?_dropWhile_not isWordChar s
  rw [hc] at hhead
  simpa using hhead

/-- No word goes on in front of the word characters at the end of a text. -/
theorem endsWord_rdropWhile (s : Text) : endsWord (s.rdropWhile isWordChar) = false := by
  rw [endsWord, Option.any_eq_false]
  intro c hc
  have hne : s.rdropWhile isWordChar ≠ [] := by
    intro hnil
    rw [hnil] at hc
    cases hc
  have hlast := List.rdropWhile_last_not isWordChar s hne
  rw [List.getLast?_eq_some_getLast hne] at hc
  obtain rfl := Option.some.inj hc
  simpa using hlast

/-- A word that occurs in a text occurs in one of its words. -/
theorem exists_chunk_of_infix (hw : IsWord w) (h : w <:+: s) :
    ∃ v ∈ chunks s, IsWord v ∧ w <:+: v := by
  obtain ⟨a, b, rfl⟩ := h
  have hbefore : ∀ c ∈ a.rtakeWhile isWordChar, isWordChar c = true :=
    fun c hc => List.mem_rtakeWhile_imp hc
  have hafter : ∀ c ∈ b.takeWhile isWordChar, isWordChar c = true :=
    fun c hc => List.mem_takeWhile_imp hc
  have hword : IsWord (a.rtakeWhile isWordChar ++ w ++ b.takeWhile isWordChar) := by
    refine ⟨by simp [hw.ne_nil], fun c hc => ?_⟩
    rcases List.mem_append.1 hc with hc | hc
    · exact (List.mem_append.1 hc).elim (hbefore c) (hw.chars c)
    · exact hafter c hc
  refine ⟨_, (standsAlone_iff hword.ne_nil hword.chars).1 ?_, hword, ⟨_, _, rfl⟩⟩
  refine ⟨a.rdropWhile isWordChar, b.dropWhile isWordChar, ?_, endsWord_rdropWhile a,
    startsWord_dropWhile b⟩
  calc a ++ w ++ b = (a.rdropWhile isWordChar ++ a.rtakeWhile isWordChar) ++ w ++
        (b.takeWhile isWordChar ++ b.dropWhile isWordChar) := by
          rw [List.rdropWhile_append_rtakeWhile, List.takeWhile_append_dropWhile]
    _ = _ := by simp only [List.append_assoc]

theorem infix_of_mem_chunks (h : w ∈ chunks s) : w <:+: s := by
  conv_rhs => rw [← flatten_chunks s]
  exact List.infix_of_mem_flatten h

theorem FreeOf.of_infix (h : FreeOf s) (hin : t <:+: s) : FreeOf t :=
  fun part hpart hpartInfix => h part hpart (hpartInfix.trans hin)

/-- A text is free of the texts of system headers if its words are. -/
theorem freeOf_of_chunks (h : ∀ w ∈ chunks s, IsWord w → FreeOf w) : FreeOf s := by
  have all : ∀ part ∈ systemTexts, ∃ word ∈ systemTexts,
      word ≠ [] ∧ (∀ c ∈ word, isWordChar c = true) ∧ word <:+: part := by
    decide
  intro part hpart hin
  obtain ⟨word, hword, hne, hchars, hsub⟩ := all part hpart
  obtain ⟨v, hv, hvword, hvsub⟩ := exists_chunk_of_infix ⟨hne, hchars⟩ (hsub.trans hin)
  exact h v hv hvword word hword hvsub

theorem mem_chunks_iff_of_isWord (hw : IsWord w) : w ∈ chunks s ↔ w ∈ tokens s := by
  rw [tokens, List.mem_filter]
  refine (and_iff_left ?_).symm
  obtain ⟨c, rest, rfl⟩ := List.exists_cons_of_ne_nil hw.ne_nil
  simp [isBlank_of_isWordChar (hw.chars c (by simp))]

theorem mem_of_mem_dropQualifiers {c : Char} (h : c ∈ dropQualifiers s) : c ∈ s := by
  obtain ⟨w, hw, hc⟩ := List.mem_flatten.1 h
  rw [← flatten_chunks s]
  exact List.mem_flatten.2 ⟨w, List.mem_of_mem_filter hw, hc⟩

/-- What is no word stays. -/
theorem mem_dropQualifiers {c : Char} (hc : isWordChar c = false) (h : c ∈ s) :
    c ∈ dropQualifiers s := by
  rw [← flatten_chunks s] at h
  obtain ⟨w, hw, hmem⟩ := List.mem_flatten.1 h
  refine List.mem_flatten.2 ⟨w, List.mem_filter.2 ⟨hw, ?_⟩, hmem⟩
  have hnot : w ∉ qualifiers := fun hq => by
    simp [(isWordChar_of_mem_qualifiers hq).2 c hmem] at hc
  simpa using hnot

theorem mem_of_mem_once {c : Char} (h : c ∈ once s) : c ∈ s ∨ c = ' ' := by
  rw [once_eq_respace] at h
  exact (mem_of_mem_respace h).imp_left fun hmem =>
    mem_of_mem_dropQualifiers (List.mem_of_mem_filter hmem)

theorem mem_of_mem_normalize {c : Char} (h : c ∈ normalize s) : c ∈ s ∨ c = ' ' := by
  rw [normalize_eq] at h
  exact (mem_of_mem_once h).elim mem_of_mem_once .inr

theorem mem_once_iff {c : Char} (hc : isWordChar c = false) (hblank : isBlank c = false) :
    c ∈ once s ↔ c ∈ s := by
  have hmarks (t : Text) : c ∈ marks t ↔ c ∈ t := mem_marks.trans (and_iff_left hblank)
  rw [← hmarks, marks_once, hmarks]
  exact ⟨mem_of_mem_dropQualifiers, mem_dropQualifiers hc⟩

/-- **Normalising keeps every character but those of words and white space.** -/
theorem mem_normalize_iff {c : Char} (hc : isWordChar c = false) (hblank : isBlank c = false) :
    c ∈ normalize s ↔ c ∈ s := by
  rw [normalize_eq, mem_once_iff hc hblank, mem_once_iff hc hblank]

/-- Normalising makes no new words where there are no control characters. -/
theorem mem_chunks_of_normalize (hs : ∀ c ∈ s, isControl c = false) (hw : IsWord w)
    (h : w ∈ chunks (normalize s)) : w ∈ chunks s := by
  rw [mem_chunks_iff_of_isWord hw] at h ⊢
  have hapart : Along WordsApart s := along_iff.2 fun before c rest hsplit _ hstart => by
    rwa [dropControls_of_forall fun d hd => hs d (by simp [hsplit, hd])] at hstart
  rw [tokens_normalize hapart] at h
  exact List.mem_of_mem_filter h

/-! ## Cutting the end off -/

namespace Normal

/-- What follows plays no part in what holds before it, if it does not close a marker. -/
theorem Placed.of_append {c : Char} {rest : Text} (hb : b.head? ≠ some ')')
    (h : Placed c (rest ++ b)) : Placed c rest := by
  have head {d : Char} (hd : rest.head? = some d) : (rest ++ b).head? = some d := by
    rw [List.head?_append, hd]
    rfl
  refine ⟨fun hs => ?_, fun hc hs => ?_, fun hs => h.bracket (head hs),
    fun hc hs => h.space hc (head hs),
    fun hc hs => h.groups hc (hs.trans (List.prefix_append _ _)), MarkerClosed.of_append h.marker⟩
  · obtain hc | hc | ⟨hc, hclose⟩ := h.star (head hs)
    · exact .inl hc
    · exact .inr (.inl hc)
    · refine .inr (.inr ⟨hc, ?_⟩)
      obtain ⟨tail, rfl⟩ := List.head?_eq_some_iff.1 hs
      cases tail with
      | nil => exact absurd hclose hb
      | cons d last => simpa using hclose
  · have hstar := h.run hc (by rw [marks_append, List.head?_append, hs]; rfl)
    cases rest with
    | nil => simp at hs
    | cons d tail => simpa using hstar

/-- **The beginning of a normal spelling is normal but for white space at its end**, if no word is
cut and no marker. -/
theorem normalize_of_append (h : IsNormal (a ++ b)) (hword : startsWord b = false)
    (hb : b.head? ≠ some ')') : normalize a = strip a := by
  obtain ⟨-, hcontrols, hwords, hplaced⟩ := isNormal_iff_placed.1 h
  have hplaced : Along Placed a := (along_append.1 hplaced).1.imp fun _ _ hc => hc.of_append hb
  have htidy : Tidy a := by
    refine ⟨fun c hc => hcontrols c (by simp [hc]), fun w hw hmem => ?_,
      hplaced.imp fun _ _ hc => hc.settled⟩
    exact hwords w hw (by rw [tokens_append fun _ => hword]; simp [hmem])
  rw [normalize_of_tidy htidy,
    pad_of_along (hplaced.imp fun _ _ hc => needsSpace_eq_false_iff.2 ⟨hc.star, hc.bracket⟩)]

theorem normalize_strip_of_append (h : IsNormal (a ++ b)) (hword : startsWord b = false)
    (hb : b.head? ≠ some ')') : normalize (strip a) = strip a := by
  rw [← normalize_of_append h hword hb]
  exact normalize_of_isNormal (isNormal_normalize a)

end Normal

/-! ## Function types -/

theorem isFunction_of_append (h : isFunction (a ++ s ++ b) = false) (hb : ')' ∉ b) :
    isFunction s = false := by
  rw [isFunction_eq_false_iff] at h ⊢
  rw [List.append_assoc] at h
  refine (along_append.1 (along_append.1 h).2).1.imp fun c rest hc hopen => ?_
  rcases prefix_pair_append (hc hopen) with hrest | ⟨-, hclose⟩ | ⟨-, hpre⟩
  · exact hrest
  · exact absurd (List.mem_of_head? hclose) hb
  · exact absurd (hpre.subset (by simp)) hb

/-- The markers stay when words are left out. -/
theorem along_marker_filter {keep : Text → Bool} (hkeep : ∀ w, startsWord w = false → keep w = true)
    {ws : List Text} (h : Chunked ws)
    (hmarker : Along (fun c rest => c = '(' → ['*', ')'] <+: rest) ws.flatten) :
    Along (fun c rest => c = '(' → ['*', ')'] <+: rest) (ws.filter keep).flatten := by
  induction ws with
  | nil => trivial
  | cons w rest ih =>
    obtain ⟨hw, -, hrest⟩ := h
    rw [List.flatten_cons] at hmarker
    have htail := ih hrest (along_append.1 hmarker).2
    rcases hw with ⟨-, hchars⟩ | ⟨c, rfl, hc⟩
    · cases hkept : keep w with
      | false => rwa [List.filter_cons_of_neg (by simp [hkept])]
      | true =>
        rw [List.filter_cons_of_pos hkept, List.flatten_cons]
        refine along_append.2 ⟨along_iff.2 fun before c after hsplit hopen => ?_, htail⟩
        have hword := hchars c (by simp [hsplit])
        rw [hopen, not_isWordChar_of_mem (by decide)] at hword
        cases hword
    · rw [List.filter_cons_of_pos (hkeep [c] (by simpa using hc)), List.flatten_cons]
      refine ⟨fun hopen => ?_, htail⟩
      obtain ⟨after, hafter⟩ : ∃ after, '*' :: ')' :: after = rest.flatten := hmarker.1 hopen
      have hstar : isWordChar '*' = false := not_isWordChar_of_mem (by decide)
      have hclose : isWordChar ')' = false := not_isWordChar_of_mem (by decide)
      -- The two characters after the parenthesis are chunks by themselves.
      have hchunks : rest = ['*'] :: [')'] :: chunks after := by
        rw [← hrest.chunks_flatten, ← hafter, chunks_cons_alone (by simp [hstar]),
          chunks_cons_alone (by simp [hclose])]
      rw [hchunks, List.filter_cons_of_pos (hkeep _ (by simpa using hstar)),
        List.filter_cons_of_pos (hkeep _ (by simpa using hclose))]
      exact ⟨_, rfl⟩

theorem isFunction_marks_of_false (h : isFunction s = false) : isFunction (marks s) = false := by
  rw [isFunction_eq_false_iff] at h ⊢
  induction s with
  | nil => trivial
  | cons c rest ih =>
    obtain ⟨hc, hrest⟩ := h
    rw [marks_cons]
    split_ifs
    · exact ih hrest
    · refine ⟨fun hopen => ?_, ih hrest⟩
      obtain ⟨after, rfl⟩ := hc hopen
      simp [marks_cons_of_not]

theorem isFunction_once (h : isFunction s = false) : isFunction (once s) = false := by
  have hdropped : isFunction (dropQualifiers s) = false := by
    rw [isFunction_eq_false_iff] at h ⊢
    rw [← flatten_chunks s] at h
    exact along_marker_filter (fun _ hw => not_contains_qualifiers hw) (chunked_chunks s) h
  have hmarks {t : Text} (ht : Along Placed t) : isFunction (marks t) = isFunction t :=
    isFunction_marks (ht.imp fun _ _ hc => hc.marker)
  rw [once_eq_respace, ← hmarks (along_respace _), ← once_eq_respace, marks_once]
  exact isFunction_marks_of_false hdropped

/-- Normalising makes no function type of a spelling that is none. -/
theorem isFunction_normalize (h : isFunction s = false) : isFunction (normalize s) = false := by
  rw [normalize_eq]
  exact isFunction_once (isFunction_once h)

/-! ## Arrays with sizes -/

/-- The element of an array with sizes begins where no element character stands in front, and size
groups follow it. -/
theorem exists_of_sizedArray? {element groups : Text}
    (h : Reading.sizedArray? s = some (element, groups)) :
    ∃ a b, s = a ++ b ∧ (∀ c ∈ a.getLast?, Reading.isElementChar c = false) ∧
      element = b.takeWhile Reading.isElementChar ∧
        groups = sizeGroups (b.dropWhile Reading.isElementChar) ∧ groups ≠ [] := by
  induction s with
  | nil => cases h
  | cons c rest ih =>
    rw [Reading.sizedArray?] at h
    split_ifs at h with hfound
    · cases h
      refine ⟨[], c :: rest, rfl, by simp, rfl, rfl, ?_⟩
      simpa using (Bool.and_eq_true_iff.1 hfound).2
    · obtain ⟨a, b, rfl, ha, helement, hgroups, hne⟩ := ih h
      refine ⟨c :: a, b, rfl, fun d hd => ?_, helement, hgroups, hne⟩
      cases a with
      | cons e tail => exact ha d (by simpa using hd)
      | nil =>
        -- An element character in front would have been found with the same groups.
        obtain rfl : c = d := by simpa using hd
        rw [Bool.eq_false_iff]
        intro hc
        rw [List.nil_append, List.dropWhile_cons_of_pos hc, ← hgroups] at hfound
        simp [hc, hne] at hfound

theorem isWordChar_of_not_isElementChar {c : Char} (h : Reading.isElementChar c = false) :
    isWordChar c = false := by
  simp only [Reading.isElementChar, Bool.or_eq_false_iff] at h
  exact h.1.1

/-- The element of an array with sizes is set off by something else than words. -/
theorem exists_append_of_sizedArray? {element groups : Text}
    (h : Reading.sizedArray? s = some (element, groups)) :
    ∃ a b, s = a ++ element ++ b ∧ endsWord a = false ∧ startsWord b = false ∧
      ∀ c ∈ element, Reading.isElementChar c = true := by
  obtain ⟨a, b, rfl, ha, rfl, -, -⟩ := exists_of_sizedArray? h
  refine ⟨a, b.dropWhile Reading.isElementChar, ?_, ?_, ?_, fun c hc => List.mem_takeWhile_imp hc⟩
  · rw [List.append_assoc, List.takeWhile_append_dropWhile]
  · rw [endsWord, Option.any_eq_false]
    intro c hc
    simpa using isWordChar_of_not_isElementChar (ha c hc)
  · rw [startsWord, Option.any_eq_false]
    intro c hc
    have hhead := List.head?_dropWhile_not Reading.isElementChar b
    rw [hc] at hhead
    simpa using isWordChar_of_not_isElementChar hhead

end CSpelling

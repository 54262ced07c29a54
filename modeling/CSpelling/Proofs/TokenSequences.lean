import CSpelling.Proofs.Respacing

/-!
# Spellings of one token sequence

The tokens of a spelling leave open where white space stands. `spread` writes tokens with single
spaces in front of stars and brackets and between words, and with nothing beside parentheses and
commas; the normal spelling of every `WellSpaced` spelling is that of its tokens without the
qualifiers (`mapPieces_normalize_eq`). So well spaced spellings with the same tokens are `Relaid`,
and resolve alike if they are regular (`Registry.resolve_of_tokens`).
-/

namespace CSpelling

open Text CSpelling.Normal CSpelling.FunctionTypes

variable {c d : Char} {p s t w v : Text} {ws : List Text}

/-! ## Words that are kept apart -/

/-- A word that follows another one is kept apart by more than tabs and line ends. -/
def WordsApart (c : Char) (rest : Text) : Prop :=
  isWordChar c = true → startsWord (dropControls rest) = true → startsWord rest = true

instance (c : Char) (rest : Text) : Decidable (WordsApart c rest) :=
  inferInstanceAs (Decidable (_ → _ → _))

theorem dropControls_cons_of_not (hc : isControl c = false) (s : Text) :
    dropControls (c :: s) = c :: dropControls s := List.filter_cons_of_pos (by simp [hc])

theorem dropControls_cons_of_control (hc : isControl c = true) (s : Text) :
    dropControls (c :: s) = dropControls s := List.filter_cons_of_neg (by simp [hc])

theorem dropControls_word (hw : ∀ c ∈ w, isWordChar c = true) : dropControls w = w :=
  dropControls_of_forall fun c hc => isControl_of_isWordChar (hw c hc)

section Leaving

variable {keep : Text → Bool} (hkeep : ∀ w, startsWord w = false → keep w = true)

include hkeep

/-- No word comes to stand at the beginning if words are left out. -/
theorem startsWord_dropControls_filter (h : Chunked ws)
    (hstart : startsWord (dropControls ws.flatten) = false) :
    startsWord (dropControls (ws.filter keep).flatten) = false := by
  induction ws with
  | nil => exact hstart
  | cons w rest ih =>
    obtain ⟨hw, -, hrest⟩ := h
    rw [List.flatten_cons, dropControls_append] at hstart
    rcases hw with ⟨hne, hall⟩ | ⟨c, rfl, hc⟩
    · obtain ⟨c, tail, rfl⟩ := List.exists_cons_of_ne_nil hne
      rw [dropControls_word hall, List.cons_append, startsWord_cons, hall c (by simp)] at hstart
      cases hstart
    · rw [List.filter_cons_of_pos (hkeep [c] (by simpa using hc)), List.flatten_cons]
      rw [List.singleton_append]
      rw [← dropControls_append, List.singleton_append] at hstart
      cases hcontrol : isControl c with
      | true =>
        rw [dropControls_cons_of_control hcontrol] at hstart ⊢
        exact ih hrest hstart
      | false => rw [dropControls_cons_of_not hcontrol, startsWord_cons, hc]

/-- Words that are kept apart stay so if some are left out. -/
theorem along_wordsApart_filter (h : Chunked ws) (hapart : Along WordsApart ws.flatten) :
    Along WordsApart (ws.filter keep).flatten := by
  induction ws with
  | nil => trivial
  | cons w rest ih =>
    obtain ⟨hw, hnext, hrest⟩ := h
    have ih := ih hrest (along_append.1 hapart).2
    cases hk : keep w with
    | false => rwa [List.filter_cons_of_neg (by simp [hk])]
    | true =>
      rw [List.filter_cons_of_pos hk, List.flatten_cons]
      refine along_append.2 ⟨along_iff.2 fun before c after hsplit hc hstart => ?_, ih⟩
      rcases hw with ⟨-, hall⟩ | ⟨e, rfl, he⟩
      · cases after with
        | cons e tail =>
          rw [List.cons_append, startsWord_cons]
          exact hall e (by simp [hsplit])
        | nil =>
          -- The word ends here, and no word follows what is left behind it.
          have hlast := along_iff.1 hapart before c rest.flatten (by simp [hsplit])
          have hword : startsWord w = true := by
            rw [hsplit, startsWord, List.head?_append]
            cases before with
            | nil => simpa using hc
            | cons e tail => simpa using hall e (by simp [hsplit])
          have hbehind : startsWord (dropControls rest.flatten) = false := by
            rw [Bool.eq_false_iff]
            intro hstart
            exact absurd (hlast hc hstart) (by simp [hnext hword])
          rw [List.nil_append, startsWord_dropControls_filter hkeep hrest hbehind] at hstart
          cases hstart
      · have hmem : c ∈ [e] := by simp [hsplit]
        rw [List.mem_singleton.1 hmem, he] at hc
        cases hc

end Leaving

/-- Words that are kept apart stay tokens without the control characters. -/
theorem tokens_dropControls (h : Along WordsApart s) : tokens (dropControls s) = tokens s := by
  induction s with
  | nil => rfl
  | cons c rest ih =>
    obtain ⟨hc, hrest⟩ := h
    cases hcontrol : isControl c with
    | true =>
      rw [dropControls_cons_of_control hcontrol,
        tokens_cons_of_blank (isBlank_of_isControl hcontrol), ih hrest]
    | false =>
      rw [dropControls_cons_of_not hcontrol]
      cases hword : isWordChar c with
      | true =>
        refine tokens_cons_congr (Bool.eq_iff_iff.2 ⟨hc hword, fun hstart => ?_⟩) (ih hrest) c
        cases rest with
        | nil => cases hstart
        | cons d tail =>
          rw [startsWord_cons] at hstart
          rw [dropControls_cons_of_not (isControl_of_isWordChar hstart), startsWord_cons, hstart]
      | false =>
        cases hblank : isBlank c with
        | true => rw [tokens_cons_of_blank hblank, tokens_cons_of_blank hblank, ih hrest]
        | false =>
          rw [tokens_cons_alone hblank (by simp [hword]),
            tokens_cons_alone hblank (by simp [hword]), ih hrest]

theorem tokens_once (h : Along WordsApart s) :
    tokens (once s) = (tokens s).filter fun w => !qualifiers.contains w := by
  have hapart : Along WordsApart (dropQualifiers s) :=
    along_wordsApart_filter (fun _ hw => not_contains_qualifiers hw) (chunked_chunks s)
      (by rwa [flatten_chunks])
  rw [once_eq_respace, tokens_respace, tokens_dropControls hapart, tokens_dropQualifiers]

/-- Without control characters words are kept apart. -/
theorem tokens_once_of_forall (h : ∀ c ∈ s, isControl c = false) :
    tokens (once s) = (tokens s).filter fun w => !qualifiers.contains w := by
  refine tokens_once (along_iff.2 fun before c rest hsplit _ hstart => ?_)
  rwa [dropControls_of_forall fun d hd => h d (by simp [hsplit, hd])] at hstart

/-- **The tokens of the normal spelling are those of the spelling without the qualifiers** if its
words are kept apart. -/
theorem tokens_normalize (h : Along WordsApart s) :
    tokens (normalize s) = (tokens s).filter fun w => !qualifiers.contains w := by
  rw [normalize_eq, tokens_once_of_forall fun _ hc => isControl_of_mem_once hc, tokens_once h,
    List.filter_filter]
  simp only [Bool.and_self]

/-! ## Tokens with spaces -/

/-- A space stands between the two tokens. -/
def needsGap (w v : Text) : Bool :=
  !w.any isDelimiter &&
    ((v = ['*'] && w ≠ ['*']) || (v = ['['] && w ≠ [']']) || (startsWord w && startsWord v))

/-- The tokens behind each other, with the spaces that stand between them. -/
def spread : List Text → Text
  | [] => []
  | w :: rest => w ++ if rest.head?.any (needsGap w) then ' ' :: spread rest else spread rest

theorem spread_cons (w : Text) (rest : List Text) : spread (w :: rest) =
    w ++ if rest.head?.any (needsGap w) then ' ' :: spread rest else spread rest := rfl

theorem needsGap_delimiter (hd : isDelimiter d = true) (w : Text) : needsGap w [d] = false := by
  obtain ⟨hstar, hbracket, -, -⟩ := ne_of_isDelimiter hd
  simp [needsGap, hstar, hbracket, isWordChar_of_isDelimiter hd]

/-- No space stands beside a parenthesis or a comma. -/
theorem spread_append_delimiter (hd : isDelimiter d = true) (ws vs : List Text) :
    spread (ws ++ [d] :: vs) = spread ws ++ d :: spread vs := by
  induction ws with
  | nil =>
    have hnone (v : Text) : needsGap [d] v = false := by simp [needsGap, hd]
    have hhead : vs.head?.any (needsGap [d]) = false := by cases vs <;> simp [hnone]
    rw [List.nil_append, spread_cons, hhead]
    rfl
  | cons w rest ih =>
    have hhead : (rest ++ [d] :: vs).head?.any (needsGap w) = rest.head?.any (needsGap w) := by
      cases rest with
      | nil => simp [needsGap_delimiter hd]
      | cons v tail => rfl
    rw [List.cons_append, spread_cons, spread_cons, hhead, ih]
    split <;> simp

/-- A word is spread as its end is. -/
theorem spread_cons_word (hc : isWordChar c = true) (hw : startsWord w = true) (ws : List Text) :
    spread ((c :: w) :: ws) = c :: spread (w :: ws) := by
  have hgap (v : Text) : needsGap (c :: w) v = needsGap w v := by
    have hdelimiter : isDelimiter c = false := by
      rw [Bool.eq_false_iff]
      intro hd
      simp [isWordChar_of_isDelimiter hd] at hc
    have hne {d : Char} (hd : isWordChar d = false) : c :: w ≠ [d] ∧ w ≠ [d] := by
      refine ⟨?_, ?_⟩
      · rintro ⟨⟩
        simp [hd] at hc
      · rintro rfl
        simp [hd] at hw
    obtain ⟨hcstar, hwstar⟩ := hne (d := '*') (by decide)
    obtain ⟨hcclose, hwclose⟩ := hne (d := ']') (by decide)
    simp only [needsGap, List.any_cons, hdelimiter, startsWord_cons, hc, hw, Bool.false_or,
      decide_eq_true hcstar, decide_eq_true hwstar, decide_eq_true hcclose, decide_eq_true hwclose]
  rw [spread_cons, spread_cons, show needsGap (c :: w) = needsGap w from funext hgap]
  rfl

/-! ## Well spaced spellings -/

/-- White space behind the character is one space, in front of a star or a bracket or between two
words. -/
def GapFits (c : Char) : Text → Prop
  | [] => True
  | b :: rest => isBlank b = true → b = ' ' ∧
      (rest.head? = some '*' ∨ rest.head? = some '[' ∨
        isWordChar c = true ∧ startsWord rest = true)

instance (c : Char) (rest : Text) : Decidable (GapFits c rest) := by
  cases rest with
  | nil => exact inferInstanceAs (Decidable True)
  | cons b rest => exact inferInstanceAs (Decidable (_ → _ ∧ (_ ∨ _ ∨ _)))

/-- Words are kept apart in the spelling, and other white space that is left in the normal spellings
of its pieces is that between tokens. -/
structure WellSpaced (s : Text) : Prop where
  /-- Words are kept apart. -/
  words : Along WordsApart s
  /-- Other white space is that between tokens. -/
  gaps : Along GapFits (mapPieces normalize s)

instance (s : Text) : Decidable (WellSpaced s) :=
  decidable_of_iff (_ ∧ _) ⟨fun ⟨h, h'⟩ => ⟨h, h'⟩, fun h => ⟨h.words, h.gaps⟩⟩

/-- A token begins with the first character, and is this character alone outside of words. -/
theorem exists_tokens_cons (hc : isBlank c = false) (s : Text) :
    ∃ w ws, tokens (c :: s) = (c :: w) :: ws ∧ (isWordChar c = false → w = []) := by
  by_cases hjoin : isWordChar c = true ∧ startsWord s = true
  · exact ⟨_, _, tokens_cons_join hjoin.1 hjoin.2, fun h => absurd hjoin.1 (by simp [h])⟩
  · exact ⟨[], tokens s, tokens_cons_alone hc (by simpa using hjoin), fun _ => rfl⟩

/-- White space in a text in place stands in front of a token that calls for it. -/
theorem exists_of_gapFits {rest : Text} (hplaced : Placed c (d :: rest))
    (hgap : GapFits c (d :: rest)) (hd : isBlank d = true) :
    d = ' ' ∧ ∃ e after, rest = e :: after ∧ isBlank e = false ∧
      (e = '*' ∧ c ≠ '*' ∨ e = '[' ∧ c ≠ ']' ∨ isWordChar c = true ∧ isWordChar e = true) := by
  obtain ⟨rfl, hnext⟩ := hgap hd
  refine ⟨rfl, ?_⟩
  rcases hnext with h | h | ⟨hc, h⟩
  · obtain ⟨after, rfl⟩ := List.head?_eq_some_iff.1 h
    refine ⟨'*', after, rfl, isBlank_star, .inl ⟨rfl, fun hc => ?_⟩⟩
    have hrun := hplaced.run hc (by simp [marks_cons])
    simp at hrun
  · obtain ⟨after, rfl⟩ := List.head?_eq_some_iff.1 h
    exact ⟨'[', after, rfl, isBlank_bracket, .inr (.inl ⟨rfl, fun hc =>
      hplaced.groups hc (by simp)⟩)⟩
  · cases rest with
    | nil => cases h
    | cons e after =>
      rw [startsWord_cons] at h
      refine ⟨e, after, rfl, Bool.eq_false_iff.2 fun hb => ?_, .inr (.inr ⟨hc, h⟩)⟩
      simp [not_isWordChar_of_isBlank hb] at h

/-- A space in a text in place is one that stands between tokens. -/
theorem spread_tokens_gap {rest : Text} (hc : isBlank c = false)
    (hdelimiter : isDelimiter c = false) (hplaced : Placed c (d :: rest))
    (hgap : GapFits c (d :: rest)) (hd : isBlank d = true) :
    spread (tokens (c :: d :: rest)) = c :: d :: spread (tokens rest) ∧
      rest.dropWhile isBlank = rest := by
  obtain ⟨rfl, e, after, rfl, he, hneeds⟩ := exists_of_gapFits hplaced hgap hd
  obtain ⟨w, ws, htokens, hw⟩ := exists_tokens_cons he after
  have hneeds : needsGap [c] (e :: w) = true := by
    rcases hneeds with ⟨rfl, hc⟩ | ⟨rfl, hc⟩ | ⟨hc, he⟩
    · simp [needsGap, hdelimiter, hw (by decide), hc]
    · simp [needsGap, hdelimiter, hw (by decide), hc]
    · simp [needsGap, hdelimiter, hc, he]
  refine ⟨?_, List.dropWhile_cons_of_neg (by simp [he])⟩
  rw [tokens_cons_alone hc (by simp [not_isWordChar_of_isBlank hd]), spread_cons,
    tokens_cons_of_blank hd, htokens, List.head?_cons, Option.any_some, hneeds, if_pos rfl,
    List.singleton_append]

/-- No token of a text in place calls for a space where there is none. -/
theorem spread_tokens_beside {rest : Text} (hc : isBlank c = false) (hd : isBlank d = false)
    (hplaced : Placed c (d :: rest)) :
    spread (tokens (c :: d :: rest)) = c :: spread (tokens (d :: rest)) := by
  obtain ⟨w, ws, htokens, -⟩ := exists_tokens_cons hd rest
  by_cases hjoin : isWordChar c = true ∧ isWordChar d = true
  · obtain ⟨hcword, hdword⟩ := hjoin
    rw [tokens_cons_join hcword (by simpa using hdword), htokens, List.headI_cons,
      List.tail_cons, spread_cons_word hcword (by simpa using hdword)]
  · have hneeds : needsGap [c] (d :: w) = false := by
      rw [Bool.eq_false_iff]
      intro hneeds
      obtain ⟨hdelimiter, (⟨⟨rfl, -⟩, hne⟩ | ⟨⟨rfl, -⟩, hne⟩) | hwords⟩ :
          isDelimiter c = false ∧ (((d = '*' ∧ w = []) ∧ c ≠ '*' ∨
            (d = '[' ∧ w = []) ∧ c ≠ ']') ∨ isWordChar c = true ∧ isWordChar d = true) := by
        simpa [needsGap] using hneeds
      · rcases hplaced.star rfl with h | rfl | ⟨rfl, -⟩
        · exact hne h
        · simp at hc
        · cases hdelimiter
      · rcases hplaced.bracket rfl with rfl | h
        · simp at hc
        · exact hne h
      · exact hjoin hwords
    rw [tokens_cons_alone hc (by simpa using hjoin), spread_cons, htokens, List.head?_cons,
      Option.any_some, hneeds]
    rfl

/-- A text in place, without parentheses and commas, is that of its tokens. -/
theorem spread_tokens (hp : IsPiece s) (hplaced : Along Placed s) (hgaps : Along GapFits s) :
    spread (tokens s) = s.dropWhile isBlank := by
  induction s with
  | nil => rfl
  | cons c rest ih =>
    obtain ⟨hplaced, hrest⟩ := hplaced
    obtain ⟨hgap, hgaps⟩ := hgaps
    have ih := ih (hp.subset (List.subset_cons_self c rest)) hrest hgaps
    cases hblank : isBlank c with
    | true => rw [tokens_cons_of_blank hblank, List.dropWhile_cons_of_pos hblank, ih]
    | false =>
      rw [List.dropWhile_cons_of_neg (by simp [hblank])]
      cases rest with
      | nil =>
        rw [tokens_cons_alone hblank (by simp)]
        rfl
      | cons d tail =>
        cases hd : isBlank d with
        | true =>
          obtain ⟨hspread, hstart⟩ := spread_tokens_gap hblank (hp c (by simp)) hplaced hgap hd
          rw [tokens_cons_of_blank hd, List.dropWhile_cons_of_pos hd, hstart] at ih
          rw [hspread, ih]
        | false =>
          rw [List.dropWhile_cons_of_neg (by simp [hd])] at ih
          rw [spread_tokens_beside hblank hd hplaced, ih]

theorem along_wordsApart_append_cons (h : Along WordsApart (s ++ d :: t)) :
    Along WordsApart s ∧ Along WordsApart t := by
  obtain ⟨hs, -, ht⟩ := along_append.1 h
  refine ⟨hs.imp fun c rest hc hword hstart => ?_, ht⟩
  cases rest with
  | nil => cases hstart
  | cons e tail =>
    refine hc hword ?_
    rw [dropControls_append]
    cases hrest : dropControls (e :: tail) with
    | nil =>
      rw [hrest] at hstart
      cases hstart
    | cons e' tail' => rwa [hrest] at hstart

theorem along_gapFits_append_cons (hd : isDelimiter d = true) (h : Along GapFits (s ++ d :: t)) :
    Along GapFits s ∧ Along GapFits t := by
  obtain ⟨hstar, hbracket, -, -⟩ := ne_of_isDelimiter hd
  obtain ⟨hs, -, ht⟩ := along_append.1 h
  refine ⟨hs.imp fun c rest hc => ?_, ht⟩
  match rest, hc with
  | [], _ => trivial
  | [b], hc =>
    intro hb
    obtain ⟨-, hnext⟩ := hc hb
    simp [hstar, hbracket, isWordChar_of_isDelimiter hd] at hnext
  | b :: e :: tail, hc => exact hc

/-- **The normal spellings of the pieces are those of the tokens without the qualifiers.** -/
theorem mapPieces_normalize_eq (h : WellSpaced s) :
    mapPieces normalize s = spread ((tokens s).filter fun w => !qualifiers.contains w) := by
  -- The normal spelling of a piece has a name, so that it is not unfolded along the text.
  have hpiece {p n : Text} (hp : IsPiece p) (hwords : Along WordsApart p) (hn : normalize p = n)
      (hgaps : Along GapFits n) : n = spread ((tokens p).filter fun w => !qualifiers.contains w) := by
    have hnormal : IsNormal n := hn ▸ isNormal_normalize p
    obtain ⟨htrimmed, -, -, hplaced⟩ := isNormal_iff_placed.1 hnormal
    rw [← tokens_normalize hwords, hn, spread_tokens (hn ▸ isPiece_normalize hp) hplaced hgaps,
      dropWhile_of_head? htrimmed.start]
  obtain ⟨hwords, hgaps⟩ := h
  induction s using pieces_induction with
  | piece p hp =>
    obtain ⟨n, hn⟩ : ∃ n, normalize p = n := ⟨_, rfl⟩
    rw [mapPieces_piece hp, hn] at hgaps ⊢
    exact hpiece hp hwords hn hgaps
  | cons p d s hp hd ih =>
    obtain ⟨n, hn⟩ : ∃ n, normalize p = n := ⟨_, rfl⟩
    have hblank := isBlank_of_isDelimiter hd
    have hword := isWordChar_of_isDelimiter hd
    have hkeep := not_contains_qualifiers (w := [d]) (by simpa using hword)
    have htokens : tokens (p ++ d :: s) = tokens p ++ [d] :: tokens s := by
      rw [tokens_append fun _ => by simp [hword], tokens_cons_alone hblank (by simp [hword])]
    obtain ⟨hwordsp, hwordss⟩ := along_wordsApart_append_cons hwords
    rw [mapPieces_cons hp hd, hn] at hgaps ⊢
    obtain ⟨hgapsp, hgapss⟩ := along_gapFits_append_cons hd hgaps
    rw [htokens, List.filter_append,
      List.filter_cons_of_pos (p := fun w => !qualifiers.contains w) hkeep,
      spread_append_delimiter hd, ← ih hwordss hgapss, ← hpiece hp hwordsp hn hgapsp]

/-- Well spaced spellings with the same tokens differ in their layout alone. -/
theorem Relaid.of_tokens (h : tokens s = tokens t) (hs : WellSpaced s) (ht : WellSpaced t) :
    Relaid s t := by
  have hmem (s : Text) : ':' ∈ s ↔ ':' ∈ marks s :=
    (mem_marks.trans (and_iff_left (by decide))).symm
  refine ⟨?_, by rw [hmem s, hmem t, ← flatten_tokens, h, flatten_tokens]⟩
  rw [mapPieces_normalize_eq hs, mapPieces_normalize_eq ht, h]

/-! ## Resolution -/

theorem outcome_of_tokens {reg : Registry} (hreg : reg.Without '(') (config : Config)
    (h : tokens s = tokens t) (hs : WellSpaced s) (ht : WellSpaced t) (hsRegular : Regular s)
    (htRegular : Regular t) : outcome reg config s = outcome reg config t := by
  rw [outcome_eq, outcome_eq]
  exact Registry.outcome_descend_relaid hreg config hsRegular htRegular (.of_tokens h hs ht) _ []

end CSpelling

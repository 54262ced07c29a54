import CSpelling.Normal
import CSpelling.Proofs.Texts

/-!
# Tokens

* `chunks_append` cuts two texts, one behind the other, at a place where no word goes on, and
  `chunks_flatten` recovers a row of chunks in which no two words touch (`Chunked`).
* `standsAlone_iff` says that the words among the chunks are the maximal words of a text.
* `dropQualifiers` filters the chunks (`chunks_dropQualifiers`) and so the tokens.
* `Respaced s t` says that `t` has the tokens of `s`, and no new characters but spaces.
-/

namespace CSpelling.Text

/-! ## Chunks -/

@[simp] theorem startsWord_nil : startsWord [] = false := rfl

@[simp] theorem startsWord_cons (c : Char) (s : Text) : startsWord (c :: s) = isWordChar c := by
  simp [startsWord]

/-- The text ends in a word character. -/
def endsWord (s : Text) : Bool := s.getLast?.any isWordChar

theorem startsWord_append {s : Text} (h : s ≠ []) (t : Text) :
    startsWord (s ++ t) = startsWord s := by
  cases s with
  | nil => contradiction
  | cons c rest => simp

theorem exists_chunks_cons (c : Char) (s : Text) : ∃ w ws, chunks (c :: s) = (c :: w) :: ws := by
  simp only [chunks]
  cases chunks s with
  | nil => exact ⟨[], [], rfl⟩
  | cons v vs =>
    simp only [consChunk]
    split
    · exact ⟨v, vs, rfl⟩
    · exact ⟨[], v :: vs, rfl⟩

/-- The first chunk begins as the text does. -/
theorem startsWord_of_chunks {s w : Text} {ws : List Text} (h : chunks s = w :: ws) :
    startsWord w = startsWord s := by
  cases s with
  | nil => simp [chunks] at h
  | cons c rest =>
    obtain ⟨v, vs, hv⟩ := exists_chunks_cons c rest
    obtain ⟨rfl, -⟩ := List.cons.inj (h.symm.trans hv)
    simp

theorem chunks_cons_alone {c : Char} {s : Text} (h : isWordChar c = true → startsWord s = false) :
    chunks (c :: s) = [c] :: chunks s := by
  simp only [chunks]
  cases hs : chunks s with
  | nil => rfl
  | cons w ws =>
    rw [consChunk, if_neg]
    rw [startsWord_of_chunks hs, Bool.and_eq_true]
    rintro ⟨hc, hw⟩
    exact Bool.false_ne_true ((h hc).symm.trans hw)

theorem chunks_cons_join {c : Char} {s w : Text} {ws : List Text} (hc : isWordChar c = true)
    (hs : startsWord s = true) (h : chunks s = w :: ws) : chunks (c :: s) = (c :: w) :: ws := by
  rw [chunks, h, consChunk, if_pos]
  rw [hc, startsWord_of_chunks h, hs, Bool.and_self]

/-- A text is cut where no word goes on. -/
theorem chunks_append {s t : Text} (h : endsWord s = true → startsWord t = false) :
    chunks (s ++ t) = chunks s ++ chunks t := by
  induction s with
  | nil => rfl
  | cons c rest ih =>
    cases rest with
    | nil =>
      rw [List.singleton_append, chunks_cons_alone (by simpa [endsWord] using h),
        chunks_cons_alone (by simp)]
      rfl
    | cons d tail =>
      have hrest := ih (by simpa [endsWord] using h)
      obtain ⟨w, ws, hw⟩ := exists_chunks_cons d tail
      by_cases hjoin : isWordChar c = true ∧ isWordChar d = true
      · rw [chunks_cons_join hjoin.1 (by simpa using hjoin.2) hw, List.cons_append,
          chunks_cons_join hjoin.1 (by simpa using hjoin.2) (hrest.trans (by rw [hw]; rfl))]
        rfl
      · have alone : isWordChar c = true → isWordChar d = false := by simpa using hjoin
        rw [chunks_cons_alone (by simpa using alone), List.cons_append,
          chunks_cons_alone (by simpa using alone), hrest]
        rfl

/-- A word, or one character outside of words. -/
def IsChunk (w : Text) : Prop :=
  (w ≠ [] ∧ ∀ c ∈ w, isWordChar c = true) ∨ ∃ c, w = [c] ∧ isWordChar c = false

/-- Chunks of which no two words touch. -/
def Chunked : List Text → Prop
  | [] => True
  | w :: ws => IsChunk w ∧ (startsWord w = true → startsWord ws.flatten = false) ∧ Chunked ws

theorem IsChunk.ne_nil {w : Text} (h : IsChunk w) : w ≠ [] := by
  obtain ⟨h, -⟩ | ⟨c, rfl, -⟩ := h
  · exact h
  · simp

theorem IsChunk.endsWord {w : Text} (h : IsChunk w) : endsWord w = startsWord w := by
  obtain ⟨hne, hall⟩ | ⟨c, rfl, hc⟩ := h
  · obtain ⟨c, rest, rfl⟩ := List.exists_cons_of_ne_nil hne
    have last := hall _ (List.getLast_mem hne)
    rw [Text.endsWord, List.getLast?_eq_some_getLast hne, Option.any_some, last, startsWord_cons,
      hall c (by simp)]
  · simp [Text.endsWord]

theorem chunks_of_isChunk {w : Text} (h : IsChunk w) : chunks w = [w] := by
  obtain ⟨hne, hall⟩ | ⟨c, rfl, hc⟩ := h
  · induction w with
    | nil => contradiction
    | cons c rest ih =>
      cases rest with
      | nil => rfl
      | cons d tail =>
        have hd : startsWord (d :: tail) = true := by simp [hall d]
        have hrest := ih (by simp) fun e he => hall e (by simp [he])
        exact chunks_cons_join (hall c (by simp)) hd hrest
  · rfl

theorem Chunked.isChunk {ws : List Text} (h : Chunked ws) {w : Text} (hw : w ∈ ws) :
    IsChunk w := by
  induction ws with
  | nil => simp at hw
  | cons v rest ih =>
    obtain ⟨hv, -, hrest⟩ := h
    obtain rfl | hmem := List.mem_cons.1 hw
    · exact hv
    · exact ih hrest hmem

/-- Chunks of which no two words touch are those of their text. -/
theorem Chunked.chunks_flatten {ws : List Text} (h : Chunked ws) : chunks ws.flatten = ws := by
  induction ws with
  | nil => rfl
  | cons w rest ih =>
    obtain ⟨hw, hnext, hrest⟩ := h
    rw [List.flatten_cons, chunks_append (by rwa [hw.endsWord]), chunks_of_isChunk hw, ih hrest]
    rfl

theorem chunked_chunks (s : Text) : Chunked (chunks s) := by
  induction s with
  | nil => trivial
  | cons c rest ih =>
    by_cases hjoin : isWordChar c = true ∧ startsWord rest = true
    · obtain ⟨hc, hstart⟩ := hjoin
      cases hs : chunks rest with
      | nil => rw [← flatten_chunks rest, hs] at hstart; simp at hstart
      | cons w ws =>
        rw [chunks_cons_join hc hstart hs]
        rw [hs] at ih
        obtain ⟨hw, hnext, hws⟩ := ih
        have hword : startsWord w = true := (startsWord_of_chunks hs).trans hstart
        refine ⟨.inl ⟨by simp, ?_⟩, fun _ => hnext hword, hws⟩
        obtain ⟨-, hall⟩ | ⟨d, rfl, hd⟩ := hw
        · simpa [hc] using hall
        · simp [hd] at hword
    · have alone : isWordChar c = true → startsWord rest = false := by simpa using hjoin
      rw [chunks_cons_alone alone]
      refine ⟨?_, by simpa using alone, ih⟩
      cases hc : isWordChar c with
      | true => exact .inl ⟨by simp, by simpa using hc⟩
      | false => exact .inr ⟨c, rfl, hc⟩

/-- No two words touch after some words are left out. -/
theorem Chunked.filter {keep : Text → Bool} (hkeep : ∀ w, startsWord w = false → keep w = true)
    {ws : List Text} (h : Chunked ws) : Chunked (ws.filter keep) := by
  induction ws with
  | nil => trivial
  | cons w rest ih =>
    obtain ⟨hw, hnext, hrest⟩ := h
    cases hk : keep w with
    | false => simpa [hk] using ih hrest
    | true =>
      rw [List.filter_cons_of_pos hk]
      refine ⟨hw, fun hstart => ?_, ih hrest⟩
      cases rest with
      | nil => rfl
      | cons v tail =>
        have hv : startsWord v = false := by
          rw [← startsWord_append hrest.1.ne_nil tail.flatten]
          exact hnext hstart
        rw [List.filter_cons_of_pos (hkeep v hv), List.flatten_cons,
          startsWord_append hrest.1.ne_nil]
        exact hv

/-! ## Words that stand alone -/

/-- The text `w` stands in `s` with no word character next to it. -/
def StandsAlone (w s : Text) : Prop :=
  ∃ before after, s = before ++ w ++ after ∧ endsWord before = false ∧ startsWord after = false

theorem Chunked.exists_flatten {ws : List Text} {w : Text} (h : Chunked ws) (hw : w ∈ ws)
    (hstart : startsWord w = true) : StandsAlone w ws.flatten := by
  induction ws with
  | nil => simp at hw
  | cons v rest ih =>
    obtain ⟨hv, hnext, hrest⟩ := h
    obtain rfl | hmem := List.mem_cons.1 hw
    · exact ⟨[], rest.flatten, by simp, rfl, hnext hstart⟩
    · obtain ⟨before, after, heq, hbefore, hafter⟩ := ih hrest hmem
      refine ⟨v ++ before, after, by simp [heq], ?_, hafter⟩
      cases before with
      | nil =>
        cases hvw : startsWord v with
        | false => rw [List.append_nil, hv.endsWord, hvw]
        | true =>
          have hw0 : w ≠ [] := by rintro rfl; simp at hstart
          rw [heq, List.nil_append, startsWord_append hw0, hstart] at hnext
          simp [hvw] at hnext
      | cons c tail =>
        rw [endsWord, List.getLast?_append_of_ne_nil _ (by simp)]
        exact hbefore

/-- The words that stand alone are the words among the chunks. -/
theorem standsAlone_iff {w s : Text} (hw : w ≠ []) (hall : ∀ c ∈ w, isWordChar c = true) :
    StandsAlone w s ↔ w ∈ chunks s := by
  have hchunk : IsChunk w := .inl ⟨hw, hall⟩
  constructor
  · rintro ⟨before, after, rfl, hbefore, hafter⟩
    rw [chunks_append (fun _ => hafter), chunks_append (by simp [hbefore]),
      chunks_of_isChunk hchunk]
    simp
  · intro hmem
    obtain ⟨c, rest, rfl⟩ := List.exists_cons_of_ne_nil hw
    have := (chunked_chunks s).exists_flatten hmem (by simp [hall c])
    rwa [flatten_chunks] at this

/-! ## Tokens -/

theorem tokens_cons_of_blank {c : Char} (h : isBlank c = true) (s : Text) :
    tokens (c :: s) = tokens s := by
  rw [tokens, chunks_cons_alone (by simp [not_isWordChar_of_isBlank h]),
    List.filter_cons_of_neg (by simp [h])]
  rfl

theorem tokens_cons_alone {c : Char} {s : Text} (hb : isBlank c = false)
    (h : isWordChar c = true → startsWord s = false) : tokens (c :: s) = [c] :: tokens s := by
  rw [tokens, chunks_cons_alone h, List.filter_cons_of_pos (by simp [hb])]
  rfl

theorem tokens_cons_join {c : Char} {s : Text} (hc : isWordChar c = true)
    (hs : startsWord s = true) :
    tokens (c :: s) = (c :: (tokens s).headI) :: (tokens s).tail := by
  have word (d : Char) (hd : isWordChar d = true) : isBlank d = false :=
    Bool.eq_false_iff.2 fun hb => by simp [not_isWordChar_of_isBlank hb] at hd
  cases s with
  | nil => simp at hs
  | cons d rest =>
    rw [startsWord_cons] at hs
    obtain ⟨w, ws, hw⟩ := exists_chunks_cons d rest
    rw [tokens, tokens, chunks_cons_join hc (by simpa using hs) hw, hw,
      List.filter_cons_of_pos (by simp [word c hc]), List.filter_cons_of_pos (by simp [word d hs])]
    rfl

/-- Texts that start alike and have the same tokens stay so behind one more character. -/
theorem tokens_cons_congr {s t : Text} (hstart : startsWord s = startsWord t)
    (h : tokens s = tokens t) (c : Char) : tokens (c :: s) = tokens (c :: t) := by
  cases hb : isBlank c with
  | true => rw [tokens_cons_of_blank hb, tokens_cons_of_blank hb, h]
  | false =>
    by_cases hjoin : isWordChar c = true ∧ startsWord s = true
    · rw [tokens_cons_join hjoin.1 hjoin.2, tokens_cons_join hjoin.1 (hstart ▸ hjoin.2), h]
    · have alone : isWordChar c = true → startsWord s = false := by simpa using hjoin
      rw [tokens_cons_alone hb alone, tokens_cons_alone hb (hstart ▸ alone), h]

/-- The tokens of a text make up its marks. -/
theorem flatten_tokens (s : Text) : (tokens s).flatten = marks s := by
  induction s with
  | nil => rfl
  | cons c rest ih =>
    cases hb : isBlank c with
    | true => rw [tokens_cons_of_blank hb, marks_cons_of_blank hb, ih]
    | false =>
      rw [marks_cons_of_not hb, ← ih]
      by_cases hjoin : isWordChar c = true ∧ startsWord rest = true
      · rw [tokens_cons_join hjoin.1 hjoin.2]
        cases hrest : tokens rest with
        | nil =>
          cases rest with
          | nil => simp at hjoin
          | cons d tail =>
            have hd : d ∈ marks (d :: tail) := by
              rw [mem_marks]
              refine ⟨by simp, Bool.eq_false_iff.2 fun hblank => ?_⟩
              simp [not_isWordChar_of_isBlank hblank] at hjoin
            rw [← ih, hrest] at hd
            simp at hd
        | cons w ws => rfl
      · rw [tokens_cons_alone hb (by simpa using hjoin)]
        rfl

/-! ## Respacing -/

/-- The second text has the tokens of the first and starts like it, and holds no new characters
but spaces. -/
structure Respaced (s t : Text) : Prop where
  /-- Both start with a word or neither. -/
  start : startsWord s = startsWord t
  /-- The tokens are the same. -/
  tokens_eq : tokens s = tokens t
  /-- New characters are spaces. -/
  mem : ∀ c ∈ t, c ∈ s ∨ c = ' '

namespace Respaced

theorem refl (s : Text) : Respaced s s := ⟨rfl, rfl, fun _ h => .inl h⟩

theorem trans {s t u : Text} (h : Respaced s t) (h' : Respaced t u) : Respaced s u :=
  ⟨h.start.trans h'.start, h.tokens_eq.trans h'.tokens_eq, fun c hc =>
    (h'.mem c hc).elim (h.mem c) .inr⟩

theorem keep {s t : Text} (h : Respaced s t) (c : Char) : Respaced (c :: s) (c :: t) := by
  refine ⟨by simp, tokens_cons_congr h.start h.tokens_eq c, fun d hd => ?_⟩
  obtain rfl | hd := List.mem_cons.1 hd
  · simp
  · exact (h.mem d hd).imp_left (List.mem_cons_of_mem c)

/-- A space may come in front of what is not a word. -/
theorem insert {s t : Text} (h : Respaced s t) (ht : startsWord t = false) :
    Respaced s (' ' :: t) := by
  refine ⟨?_, ?_, fun d hd => ?_⟩
  · rw [h.start, ht, startsWord_cons, not_isWordChar_of_isBlank isBlank_space]
  · rw [tokens_cons_of_blank isBlank_space, h.tokens_eq]
  · exact (List.mem_cons.1 hd).elim .inr (h.mem d)

/-- White space may go in front of what is not a word. -/
theorem delete {s t : Text} {b : Char} (hb : isBlank b = true) (h : Respaced s t)
    (hs : startsWord s = false) : Respaced (b :: s) t := by
  refine ⟨?_, ?_, fun d hd => (h.mem d hd).imp_left (List.mem_cons_of_mem b)⟩
  · rw [startsWord_cons, not_isWordChar_of_isBlank hb, ← h.start, hs]
  · rw [tokens_cons_of_blank hb, h.tokens_eq]

/-- A gap may go in front of what is not a word. -/
theorem dropGap {u t : Text} (hu : IsGap u) (ht : startsWord t = false) : Respaced (u ++ t) t := by
  induction u with
  | nil => exact refl t
  | cons b rest ih =>
    have hrest := ih fun c hc => hu c (by simp [hc])
    exact delete (hu b (by simp)) hrest (hrest.start.trans ht)

theorem dropBlanks {s : Text} (h : startsWord (s.dropWhile isBlank) = false) :
    Respaced s (s.dropWhile isBlank) := by
  have hgap : IsGap (s.takeWhile isBlank) := fun c hc => List.mem_takeWhile_imp hc
  have := dropGap hgap h
  rwa [List.takeWhile_append_dropWhile] at this

theorem marks_eq {s t : Text} (h : Respaced s t) : marks s = marks t := by
  rw [← flatten_tokens, h.tokens_eq, flatten_tokens]

end Respaced

theorem tokens_gap_append {a : Text} (ha : IsGap a) (s : Text) : tokens (a ++ s) = tokens s := by
  induction a with
  | nil => rfl
  | cons c rest ih =>
    rw [List.cons_append, tokens_cons_of_blank (ha c (by simp)),
      ih fun d hd => ha d (by simp [hd])]

theorem respaced_append_gap {b : Text} (hb : IsGap b) (s : Text) : Respaced (s ++ b) s := by
  induction s with
  | nil =>
    have := Respaced.dropGap hb (t := []) rfl
    rwa [List.append_nil] at this
  | cons c rest ih => exact ih.keep c

@[simp] theorem tokens_strip (s : Text) : tokens (strip s) = tokens s := by
  obtain ⟨a, b, hs, ha, hb⟩ := exists_gaps s
  conv_rhs => rw [hs, (respaced_append_gap hb _).tokens_eq, tokens_gap_append ha]

end CSpelling.Text

namespace CSpelling.Normal

open Text

/-! ## Control characters -/

theorem isBlank_of_isControl {c : Char} (h : isControl c = true) : isBlank c = true := by
  have hcases : (c = '\t' ∨ c = '\n') ∨ c = '\r' := by simpa [isControl] using h
  rcases hcases with (rfl | rfl) | rfl <;> decide

theorem isControl_of_isWordChar {c : Char} (h : isWordChar c = true) : isControl c = false := by
  rw [Bool.eq_false_iff]
  intro hcontrol
  simp [not_isWordChar_of_isBlank (isBlank_of_isControl hcontrol)] at h

theorem dropControls_append (s t : Text) :
    dropControls (s ++ t) = dropControls s ++ dropControls t := List.filter_append s t

/-! ## Leaving out qualifiers -/

theorem isWordChar_of_mem_qualifiers {w : Text} (h : w ∈ qualifiers) :
    w ≠ [] ∧ ∀ c ∈ w, isWordChar c = true := by
  revert w
  decide

/-- What is not a word is not a qualifier. -/
theorem not_contains_qualifiers {w : Text} (hw : startsWord w = false) :
    (!qualifiers.contains w) = true := by
  rw [Bool.not_eq_true', Bool.eq_false_iff, Ne, List.contains_iff_mem]
  intro hmem
  obtain ⟨hne, hall⟩ := isWordChar_of_mem_qualifiers hmem
  obtain ⟨c, rest, rfl⟩ := List.exists_cons_of_ne_nil hne
  simp [hall c] at hw

theorem dropQualifiers_append {s t : Text} (h : endsWord s = true → startsWord t = false) :
    dropQualifiers (s ++ t) = dropQualifiers s ++ dropQualifiers t := by
  rw [dropQualifiers, chunks_append h, List.filter_append, List.flatten_append]
  rfl

theorem dropQualifiers_cons {c : Char} (hc : isWordChar c = false) (s : Text) :
    dropQualifiers (c :: s) = c :: dropQualifiers s := by
  rw [dropQualifiers, chunks_cons_alone (by simp [hc]),
    List.filter_cons_of_pos (p := fun w => !qualifiers.contains w)
      (not_contains_qualifiers (by simpa using hc)), List.flatten_cons, List.singleton_append]
  rfl

theorem dropQualifiers_append_cons {c : Char} (hc : isWordChar c = false) (s t : Text) :
    dropQualifiers (s ++ c :: t) = dropQualifiers s ++ c :: dropQualifiers t := by
  rw [dropQualifiers_append fun _ => by rw [startsWord_cons, hc], dropQualifiers_cons hc]

theorem chunks_dropQualifiers (s : Text) :
    chunks (dropQualifiers s) = (chunks s).filter fun w => !qualifiers.contains w :=
  ((chunked_chunks s).filter fun _ hw => not_contains_qualifiers hw).chunks_flatten

theorem tokens_dropQualifiers (s : Text) :
    tokens (dropQualifiers s) = (tokens s).filter fun w => !qualifiers.contains w := by
  rw [tokens, chunks_dropQualifiers, List.filter_filter, tokens, List.filter_filter]
  simp only [Bool.and_comm]

theorem mem_chunks_iff_mem_tokens {w : Text} (h : w ∈ qualifiers) (s : Text) :
    w ∈ chunks s ↔ w ∈ tokens s := by
  have hblank : ∀ w ∈ qualifiers, w.all isBlank = false := by decide
  simp [tokens, hblank w h]

theorem not_mem_tokens_dropQualifiers {w : Text} (h : w ∈ qualifiers) (s : Text) :
    w ∉ tokens (dropQualifiers s) := by
  rw [← mem_chunks_iff_mem_tokens h, chunks_dropQualifiers]
  simp [h]

theorem dropQualifiers_of_not_mem {s : Text} (h : ∀ w ∈ qualifiers, w ∉ tokens s) :
    dropQualifiers s = s := by
  rw [dropQualifiers, List.filter_eq_self.2, flatten_chunks]
  intro w hw
  cases hmem : qualifiers.contains w with
  | false => rfl
  | true =>
    have hq := List.contains_iff_mem.1 hmem
    exact absurd ((mem_chunks_iff_mem_tokens hq s).1 hw) (h w hq)

end CSpelling.Normal

import CSpelling.Proofs.Joining
import CSpelling.Proofs.Pieces

/-!
# Texts of system headers in pieces

The texts that are looked for in a spelling begin and end in letters and hold no delimiters. So they
occur in the pieces of a text (`infix_tighten_iff`), and what they are replaced by depends on the
pieces alone, but for white space at their ends (`tighten_substitute`). Markers stay closed
(`along_markerClosed_substitute`).
-/

namespace CSpelling

open Text CSpelling.Normal

namespace Text

variable {old new s t : Text} {c : Char}

/-! ## Replacing along an append -/

theorem prefix_of_prefix_append (h : old <+: s ++ t) (ht : ∀ u ≠ [], u <+: t → ¬u <:+ old) :
    old <+: s := by
  rcases List.prefix_or_prefix_of_prefix h (List.prefix_append s t) with h' | ⟨u, rfl⟩
  · exact h'
  · cases u with
    | nil => simp
    | cons c u =>
      exact absurd (List.suffix_append s (c :: u))
        (ht (c :: u) (by simp) ((List.prefix_append_right_inj s).1 h))

/-- Occurrences that do not reach from one text into the other are replaced in each. -/
theorem replaceAfter_append (h : ∀ u, u <:+ s → old <+: u ++ t → old <+: u) (new : Text)
    {skip : Nat} (hskip : skip ≤ s.length) :
    replaceAfter old new skip (s ++ t) = replaceAfter old new skip s ++ replace old new t := by
  induction s generalizing skip with
  | nil =>
    obtain rfl := Nat.le_zero.1 hskip
    rfl
  | cons c rest ih =>
    have hrest (u : Text) (hu : u <:+ rest) : old <+: u ++ t → old <+: u :=
      h u (hu.trans (List.suffix_cons c rest))
    cases skip with
    | succ skip => exact ih hrest (Nat.le_of_succ_le_succ hskip)
    | zero =>
      rw [List.cons_append, replaceAfter, replaceAfter]
      by_cases hpre : old <+: c :: rest
      · have hlength : old.length - 1 ≤ rest.length := by
          have := hpre.length_le
          simp at this
          omega
        have hpre' : old <+: c :: (rest ++ t) := hpre.trans (List.prefix_append (c :: rest) t)
        rw [if_pos (List.isPrefixOf_iff_prefix.2 hpre), if_pos (List.isPrefixOf_iff_prefix.2 hpre'),
          ih hrest hlength, List.append_assoc]
      · have hnot : ¬old <+: c :: (rest ++ t) := fun hpre' => hpre (h _ List.suffix_rfl hpre')
        rw [if_neg (mt List.isPrefixOf_iff_prefix.1 hpre),
          if_neg (mt List.isPrefixOf_iff_prefix.1 hnot), ih hrest (Nat.zero_le _), List.cons_append]

theorem replace_append (h : ∀ u ≠ [], u <+: t → ¬u <:+ old) (new s : Text) :
    replace old new (s ++ t) = replace old new s ++ replace old new t :=
  replaceAfter_append (fun _ _ hu => prefix_of_prefix_append hu h) new (Nat.zero_le _)

theorem replace_cons (hne : old ≠ []) (hc : old.head? ≠ some c) (new s : Text) :
    replace old new (c :: s) = c :: replace old new s := by
  rw [replace, replaceAfter, if_neg, replace]
  rw [List.isPrefixOf_iff_prefix]
  intro hpre
  obtain ⟨d, rest, rfl⟩ := List.exists_cons_of_ne_nil hne
  exact hc (by rw [(List.cons_prefix_cons.1 hpre).1]; rfl)

/-- What stands on both sides of a character that the replaced text does not hold is replaced by
itself. -/
theorem replace_append_cons (hne : old ≠ []) (hc : c ∉ old) (new s t : Text) :
    replace old new (s ++ c :: t) = replace old new s ++ c :: replace old new t := by
  have hsuffix : ∀ u ≠ [], u <+: c :: t → ¬u <:+ old := by
    intro u hu hut hsuffix
    obtain ⟨d, rest, rfl⟩ := List.exists_cons_of_ne_nil hu
    obtain ⟨rfl, -⟩ := List.cons_prefix_cons.1 hut
    exact hc (hsuffix.subset (by simp))
  rw [replace_append hsuffix, replace_cons hne fun hhead => hc (List.mem_of_head? hhead)]

/-- A character that the replaced text does not hold stays. -/
theorem mem_replaceAfter (hne : old ≠ []) (hc : c ∉ old) (new : Text) {skip : Nat}
    (h : c ∈ s.drop skip) : c ∈ replaceAfter old new skip s := by
  induction s generalizing skip with
  | nil => simp at h
  | cons d rest ih =>
    cases skip with
    | succ skip => exact ih h
    | zero =>
      rw [replaceAfter]
      split_ifs with hpre
      · obtain ⟨e, tail, rfl⟩ := List.exists_cons_of_ne_nil hne
        obtain ⟨rfl, after, rfl⟩ := List.cons_prefix_cons.1 (List.isPrefixOf_iff_prefix.1 hpre)
        have hafter : c ∈ after := by
          have hmem : c ∈ e :: tail ++ after := h
          exact (List.mem_append.1 hmem).resolve_left hc
        exact List.mem_append_right _ (ih (by simpa using hafter))
      · rcases List.mem_cons.1 h with rfl | h
        · exact List.mem_cons_self ..
        · exact List.mem_cons_of_mem _ (ih h)

/-- What stands in the result comes from the text or from what is put in. -/
theorem mem_of_mem_replaceAfter {skip : Nat} (h : c ∈ replaceAfter old new skip s) :
    c ∈ s ∨ c ∈ new := by
  induction s generalizing skip with
  | nil => cases h
  | cons d rest ih =>
    cases skip with
    | succ skip => exact (ih h).imp_left (List.mem_cons_of_mem d)
    | zero =>
      rw [replaceAfter] at h
      split_ifs at h
      · rcases List.mem_append.1 h with h | h
        · exact .inr h
        · exact (ih h).imp_left (List.mem_cons_of_mem d)
      · rcases List.mem_cons.1 h with rfl | h
        · exact .inl (List.mem_cons_self ..)
        · exact (ih h).imp_left (List.mem_cons_of_mem d)

/-- What a text is replaced by stands in the result. -/
theorem subset_replace (h : old <:+: s) (hne : s ≠ []) (new : Text) : new ⊆ replace old new s := by
  unfold replace
  induction s with
  | nil => exact absurd rfl hne
  | cons c rest ih =>
    rw [replaceAfter]
    split_ifs with hpre
    · exact List.subset_append_left ..
    · have hrest := (List.infix_cons_iff.1 h).resolve_left (mt List.isPrefixOf_iff_prefix.2 hpre)
      refine List.subset_cons_of_subset _ (ih hrest ?_)
      rintro rfl
      obtain rfl := List.infix_nil.1 hrest
      exact hpre (by simp)

end Text

/-! ## Fragments -/

/-- The text begins and ends in something else than white space and holds no delimiter. -/
structure IsFragment (s : Text) : Prop where
  /-- There is something. -/
  ne_nil : s ≠ []
  /-- There is no white space at the ends. -/
  trimmed : Trimmed s
  /-- There is no delimiter. -/
  piece : IsPiece s

theorem isFragment_of_mem {part : Text} (h : part ∈ systemTexts) : IsFragment part := by
  have all : ∀ part ∈ systemTexts, part ≠ [] ∧ (∀ c ∈ part.head?, isBlank c = false) ∧
      (∀ c ∈ part.getLast?, isBlank c = false) ∧ IsPiece part := by decide +kernel
  obtain ⟨hne, hstart, hfinish, hpiece⟩ := all part h
  exact ⟨hne, ⟨hstart, hfinish⟩, hpiece⟩

namespace IsFragment

variable {old new part s t p a b : Text} {d : Char}

theorem not_suffix_of_gap (h : IsFragment old) (hb : IsGap b) :
    ∀ u ≠ [], u <+: b → ¬u <:+ old := by
  rintro u hu hub ⟨front, rfl⟩
  have hlast := h.trimmed.finish (u.getLast hu) (by
    rw [List.getLast?_append_of_ne_nil _ hu, List.getLast?_eq_some_getLast hu]
    rfl)
  rw [hb _ (hub.subset (List.getLast_mem hu))] at hlast
  cases hlast

theorem head?_ne (h : IsFragment old) (hd : isDelimiter d = true ∨ isBlank d = true) :
    old.head? ≠ some d := by
  intro hhead
  rcases hd with hd | hd
  · exact h.piece.not_mem hd (List.mem_of_head? hhead)
  · simp [h.trimmed.start d hhead] at hd

theorem replace_gap (h : IsFragment old) (ha : IsGap a) (new s : Text) :
    replace old new (a ++ s) = a ++ replace old new s := by
  induction a with
  | nil => rfl
  | cons c rest ih =>
    rw [List.cons_append, replace_cons h.ne_nil (h.head?_ne (.inr (ha c (by simp)))),
      ih fun d hd => ha d (List.mem_cons_of_mem _ hd), List.cons_append]

theorem replace_gaps (h : IsFragment old) (ha : IsGap a) (hb : IsGap b) (new s : Text) :
    replace old new (a ++ s ++ b) = a ++ replace old new s ++ b := by
  have hback : replace old new b = b := by
    have := h.replace_gap hb new []
    rwa [List.append_nil, show replace old new [] = [] from rfl, List.append_nil] at this
  rw [replace_append (h.not_suffix_of_gap hb), h.replace_gap ha, hback]

/-! ## Occurrences -/

theorem infix_append_cons_iff (h : IsFragment part) (hd : isDelimiter d = true) :
    part <:+: s ++ d :: t ↔ part <:+: s ∨ part <:+: t := by
  constructor
  · intro hin
    by_contra hnot
    obtain ⟨hs, ht⟩ := not_or.1 hnot
    exact not_infix_append_cons (h.piece.not_mem hd) hs ht hin
  · rintro (hs | ht)
    · exact hs.trans (List.prefix_append s _).isInfix
    · exact ht.trans ((List.suffix_cons d t).trans (List.suffix_append s _)).isInfix

theorem infix_strip_iff (h : IsFragment part) : part <:+: strip s ↔ part <:+: s := by
  obtain ⟨a, b, hs, ha, hb⟩ := exists_gaps s
  constructor
  · intro hin
    rw [hs, List.append_assoc]
    exact hin.trans ((List.prefix_append (strip s) b).isInfix.trans
      (List.suffix_append a _).isInfix)
  · intro hin
    by_contra hnot
    have hback : ¬part <:+: strip s ++ b := not_infix_append hnot fun c hc hmem => by
      have hblank := hb c hmem
      simp [h.trimmed.finish c hc] at hblank
    rw [hs, List.append_assoc] at hin
    clear hs
    induction a with
    | nil => exact hback hin
    | cons c rest ih =>
      refine ih (fun d hd => ha d (List.mem_cons_of_mem _ hd)) ?_
      by_contra hrest
      exact not_infix_cons (h.head?_ne (.inr (ha c (by simp)))) hrest hin

/-- **A fragment occurs in the pieces.** -/
theorem infix_tighten_iff (h : IsFragment part) : part <:+: tighten s ↔ part <:+: s := by
  induction s using pieces_induction with
  | piece p hp => rw [tighten_piece hp, h.infix_strip_iff]
  | cons p d s hp hd ih =>
    rw [tighten_append_cons hd, tighten_piece hp, h.infix_append_cons_iff hd,
      h.infix_append_cons_iff hd, ih, h.infix_strip_iff]

end IsFragment

/-! ## Substituted texts -/

namespace Reading

variable {s t p a b : Text} {d : Char}

theorem isFragment_of_mem_fragments {f : Text × Text} (hf : f ∈ fragments) : IsFragment f.1 :=
  isFragment_of_mem (List.mem_cons_of_mem _ (List.mem_map_of_mem hf))

/-- What each replacement keeps, all of them keep. -/
theorem substitute_induction {P : Text → Prop}
    (step : ∀ f ∈ fragments, ∀ t, P t → P (replace f.1 f.2 t)) (hs : P s) : P (substitute s) := by
  have hall (fs : List (Text × Text)) (hfs : ∀ f ∈ fs, f ∈ fragments) (t : Text) (ht : P t) :
      P (fs.foldl (fun t f => replace f.1 f.2 t) t) := by
    induction fs generalizing t with
    | nil => exact ht
    | cons f fs ih =>
      exact ih (fun g hg => hfs g (List.mem_cons_of_mem _ hg)) _ (step f (hfs f (by simp)) t ht)
  exact hall fragments (fun _ hf => hf) s hs

/-- What stands on both sides of a character that no fragment holds is substituted by itself. -/
theorem substitute_append_cons_of_not_mem (hd : ∀ f ∈ fragments, d ∉ f.1) (s t : Text) :
    substitute (s ++ d :: t) = substitute s ++ d :: substitute t := by
  have hne : ∀ f ∈ fragments, f.1 ≠ [] := fun f hf => (isFragment_of_mem_fragments hf).ne_nil
  unfold substitute
  revert hd hne
  induction fragments generalizing s t with
  | nil => exact fun _ _ => rfl
  | cons f fs ih =>
    intro hd hne
    rw [List.foldl_cons, replace_append_cons (hne f (by simp)) (hd f (by simp))]
    exact ih _ _ (fun g hg => hd g (by simp [hg])) fun g hg => hne g (by simp [hg])

theorem substitute_append_cons (hd : isDelimiter d = true) (s t : Text) :
    substitute (s ++ d :: t) = substitute s ++ d :: substitute t :=
  substitute_append_cons_of_not_mem
    (fun _ hf => (isFragment_of_mem_fragments hf).piece.not_mem hd) s t

theorem substitute_gaps (ha : IsGap a) (hb : IsGap b) (s : Text) :
    substitute (a ++ s ++ b) = a ++ substitute s ++ b := by
  have hfragments : ∀ f ∈ fragments, IsFragment f.1 := fun f hf => isFragment_of_mem_fragments hf
  unfold substitute
  revert hfragments
  induction fragments generalizing s with
  | nil => exact fun _ => rfl
  | cons f fs ih =>
    intro hfs
    rw [List.foldl_cons, (hfs f (by simp)).replace_gaps ha hb]
    exact ih _ fun g hg => hfs g (by simp [hg])

theorem mem_of_mem_substitute {c : Char} (h : c ∈ substitute s) : c ∈ s ∨ c ∈ "int".toList := by
  have hnew : ∀ f ∈ fragments, f.2 = "int".toList := by decide +kernel
  refine substitute_induction (P := fun t => c ∈ t → c ∈ s ∨ c ∈ "int".toList) ?_ .inl h
  intro f hf t ht hc
  rcases mem_of_mem_replaceAfter hc with hc | hc
  · exact ht hc
  · exact .inr (hnew f hf ▸ hc)

theorem isPiece_substitute (hp : IsPiece p) : IsPiece (substitute p) := by
  intro c hc
  rcases mem_of_mem_substitute hc with hc | hc
  · exact hp c hc
  · exact (by decide : IsPiece "int".toList) c hc

/-- A text is left as it is, or a letter is put in. -/
theorem substitute_eq_or_mem (s : Text) : substitute s = s ∨ 'i' ∈ substitute s := by
  have hall : ∀ f ∈ fragments, 'i' ∉ f.1 ∧ 'i' ∈ f.2 := by decide +kernel
  refine substitute_induction (P := fun t => t = s ∨ 'i' ∈ t) ?_ (.inl rfl)
  rintro f hf t (rfl | ht)
  · by_cases hin : f.1 <:+: t
    · refine .inr (subset_replace hin ?_ _ (hall f hf).2)
      rintro rfl
      exact (isFragment_of_mem_fragments hf).ne_nil (List.infix_nil.1 hin)
    · exact .inl <| replace_of_not_infix hin _
  · exact .inr (mem_replaceAfter (isFragment_of_mem_fragments hf).ne_nil (hall f hf).1 _ ht)

/-- **What is put in depends on the pieces alone.** -/
theorem tighten_substitute (s : Text) :
    tighten (substitute s) = mapPieces (strip ∘ substitute) (tighten s) := by
  have hstrip (p : Text) : strip (substitute (strip p)) = strip (substitute p) := by
    obtain ⟨a, b, hp, ha, hb⟩ := exists_gaps p
    conv_rhs => rw [hp, substitute_gaps ha hb, strip_append_gap hb, strip_gap_append ha]
  rw [eq_mapPieces (f := substitute) (fun d s t hd => substitute_append_cons hd s t) s, tighten,
    tighten, mapPieces_mapPieces (f := substitute) fun p hp => isPiece_substitute hp,
    mapPieces_mapPieces (f := strip) fun p hp => isPiece_strip hp]
  exact mapPieces_congr (fun p _ => (hstrip p).symm) s

end Reading

/-! ## Closed markers -/

/-- Markers are closed if the pieces in them are nothing but a star. -/
theorem along_markerClosed_iff_pieces {s : Text} : Along MarkerClosed s ↔
    ∀ a p b, s = a ++ '(' :: (p ++ ')' :: b) → IsPiece p → marks p = ['*'] → p = ['*'] := by
  rw [along_iff]
  constructor
  · rintro h a p b rfl hp hmarks
    have hpre : ['*', ')'] <+: p ++ ')' :: b :=
      h a '(' _ rfl rfl (by simp [hmarks, marks_cons_of_not])
    rcases prefix_pair_append hpre with h | ⟨h, -⟩ | ⟨-, h⟩
    · exact absurd (h.subset (by simp)) (hp.not_mem (d := ')') (by decide))
    · exact h
    · exact absurd (List.cons_prefix_cons.1 h).1 (by decide)
  · rintro h before c rest rfl rfl hpre
    induction rest using pieces_induction with
    | piece p hp =>
      have hmem : ')' ∈ p := (mem_marks.1 (hpre.subset (by simp))).1
      exact absurd hmem (hp.not_mem (by decide))
    | cons p d b hp hd ih =>
      rw [marks_append, marks_cons_of_not (isBlank_of_isDelimiter hd)] at hpre
      rcases prefix_pair_append hpre with h' | ⟨hstar, hclose⟩ | ⟨-, h'⟩
      · exact absurd (mem_marks.1 (h'.subset (by simp))).1 (hp.not_mem (d := ')') (by decide))
      · obtain rfl : d = ')' := Option.some.inj hclose
        rw [h before p b rfl hp hstar]
        simp
      · rw [← (List.cons_prefix_cons.1 h').1] at hd
        exact absurd hd (by decide)

theorem along_markerClosed_substitute {s : Text} (h : Along MarkerClosed s) :
    Along MarkerClosed (Reading.substitute s) := by
  rw [along_markerClosed_iff_pieces] at h ⊢
  intro a p b hs hp hmarks
  have hkeep : ∀ p, IsPiece p → IsPiece (Reading.substitute p) := fun p hp =>
    Reading.isPiece_substitute hp
  rw [eq_mapPieces (f := Reading.substitute)
    (fun d s t hd => Reading.substitute_append_cons hd s t) s] at hs
  obtain ⟨a, rest, rfl, -, hrest⟩ := exists_of_mapPieces hkeep (by decide) hs
  obtain ⟨q, b, rfl, hq, -⟩ := exists_of_mapPieces hkeep (by decide) hrest
  have hpiece : IsPiece q := (isPiece_mapPieces hkeep).1 (hq ▸ hp)
  rw [mapPieces_piece hpiece] at hq
  rcases Reading.substitute_eq_or_mem q with heq | hmem
  · rw [← hq, heq] at hmarks ⊢
    exact h a q b rfl hpiece hmarks
  · -- A star is not what is put in.
    have hmem := mem_marks.2 ⟨hq ▸ hmem, by decide⟩
    rw [hmarks] at hmem
    exact absurd hmem (by decide)

end CSpelling

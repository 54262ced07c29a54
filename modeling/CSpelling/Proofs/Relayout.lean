import CSpelling.Proofs.Fragments

/-!
# Function types in other layouts

Two texts with the same tight text differ in white space beside their parentheses and commas. If
markers are closed in both, both are function types or neither (`isFunction_congr`), and they are
split into parts that differ in the same way (`Parts.exists_alike`).

A block has to be plain. One of deep indirection, or with a comma in front of its stars, leaves its
white space in the indirection.
-/

namespace CSpelling

open Text CSpelling.Normal

variable {s t n m p : Text} {d : Char}

/-! ## Closed markers -/

/-- Markers are closed in a part of a text if they are in the whole. -/
theorem Normal.MarkerClosed.of_append {c : Char} {rest : Text}
    (h : MarkerClosed c (rest ++ t)) : MarkerClosed c rest := by
  intro hc hpre
  have hwhole := h hc (by rw [marks_append]; exact hpre.trans (List.prefix_append _ _))
  rcases prefix_pair_append hwhole with h | ⟨rfl, -⟩ | ⟨rfl, -⟩
  · exact h
  · exact absurd hpre.length_le (by simp [marks_cons_of_not])
  · exact absurd hpre.length_le (by simp)

theorem along_markerClosed_of_infix (h : Along MarkerClosed t) (hs : s <:+: t) :
    Along MarkerClosed s := by
  obtain ⟨a, b, rfl⟩ := hs
  exact (along_append.1 (h.of_suffix ⟨a, (List.append_assoc a s b).symm⟩)).1.imp
    fun _ _ hc => hc.of_append

/-- Where markers are closed, white space does not tell what a function type is. -/
theorem isFunction_marks (h : Along MarkerClosed s) : isFunction (marks s) = isFunction s := by
  rw [Bool.eq_iff_iff, ← not_iff_not, Bool.not_eq_true, Bool.not_eq_true, isFunction_eq_false_iff,
    isFunction_eq_false_iff]
  induction s with
  | nil => rfl
  | cons c rest ih =>
    obtain ⟨hclosed, hrest⟩ := h
    cases hc : isBlank c with
    | true =>
      have hopen : c ≠ '(' := by
        rintro rfl
        simp at hc
      rw [marks_cons_of_blank hc, ih hrest, along_cons]
      exact (and_iff_right fun h => absurd h hopen).symm
    | false =>
      have hmarker : ['*', ')'] <+: rest → ['*', ')'] <+: marks rest := by
        rintro ⟨after, rfl⟩
        simp [marks_cons_of_not]
      rw [marks_cons_of_not hc, along_cons, along_cons, ih hrest]
      exact and_congr_left fun _ => ⟨fun h hc => hclosed hc (h hc), fun h hc => hmarker (h hc)⟩

theorem isFunction_congr (h : tighten s = tighten t) (hs : Along MarkerClosed s)
    (ht : Along MarkerClosed t) : isFunction s = isFunction t := by
  rw [← isFunction_marks hs, ← isFunction_marks ht, ← marks_tighten s, h, marks_tighten]

/-! ## Cutting at a marker -/

theorem cut_marker_marker (s : Text) : cut marker ('(' :: '*' :: ')' :: s) = some ([], s) := by
  have hstart : dropStart? marker ('(' :: '*' :: ')' :: s) = some s := dropStart?_eq_some_iff.2 rfl
  rw [cut, hstart]

theorem cut_marker_cons {c : Char} (h : c = '(' → ¬['*', ')'] <+: s) :
    cut marker (c :: s) = (cut marker s).map fun halves => (c :: halves.1, halves.2) := by
  have hstart : dropStart? marker (c :: s) = none := by
    rw [dropStart?, if_neg]
    rw [List.isPrefixOf_iff_prefix, marker, List.cons_prefix_cons]
    exact fun hpre => h hpre.1.symm hpre.2
  rw [cut, hstart]

/-- **Where markers are closed, the first one is found in every layout.** -/
theorem cut_marker_tighten (h : Along MarkerClosed s) :
    cut marker (tighten s) = (cut marker s).map (Prod.map tighten tighten) := by
  induction s using pieces_induction with
  | piece p hp =>
    rw [tighten_piece hp, marker, cut_of_not_mem (hp.not_mem (d := '(') (by decide)),
      cut_of_not_mem ((isPiece_strip hp).not_mem (d := '(') (by decide))]
    rfl
  | cons p d s hp hd ih =>
    have happend {p : Text} (hp : IsPiece p) (t : Text) : cut marker (p ++ t) =
        (cut marker t).map fun halves => (p ++ halves.1, halves.2) :=
      cut_append_of_not_mem (hp.not_mem (d := '(') (by decide)) t
    obtain ⟨hclosed, hs⟩ : Along MarkerClosed (d :: s) := h.of_suffix (List.suffix_append p _)
    rw [tighten_append_cons hd, tighten_piece hp, happend hp, happend (isPiece_strip hp)]
    by_cases hmarker : d = '(' ∧ ['*', ')'] <+: s
    · obtain ⟨rfl, after, rfl⟩ := hmarker
      have htight : tighten ('*' :: ')' :: after) = '*' :: ')' :: tighten after :=
        tighten_append_cons (by decide) ['*'] after
      rw [List.cons_append, List.cons_append, List.nil_append, htight, cut_marker_marker,
        cut_marker_marker]
      simp [tighten_piece hp]
    · have htight : d = '(' → ¬['*', ')'] <+: tighten s := by
        rintro rfl ⟨after, hafter⟩
        obtain ⟨q, b, rfl, hq, -⟩ := exists_of_tighten (s := s) (u := ['*']) (by decide) hafter.symm
        have hmarks : marks q = ['*'] := by rw [← marks_tighten, hq]; rfl
        exact hmarker ⟨rfl, hclosed rfl (by simp [hmarks, marks_cons_of_not])⟩
      rw [cut_marker_cons htight, cut_marker_cons (by simpa using hmarker), ih hs]
      simp only [Option.map_map]
      congr 1
      funext halves
      simp [tighten_append_cons hd, tighten_piece hp]

/-! ## Blocks -/

/-- A block that may be written in any layout. -/
structure IsPlainBlock (block : Text) : Prop where
  /-- It is not one of deep indirection. -/
  shape : BlockShape.ofBlock ('(' :: (block ++ [')'])) ≠ .deepIndirection
  /-- No comma stands in front of its first parenthesis. -/
  commas : ',' ∉ block.takeWhile (· ≠ '(')

instance (block : Text) : Decidable (IsPlainBlock block) :=
  decidable_of_iff (_ ∧ _) ⟨fun ⟨h, h'⟩ => ⟨h, h'⟩, fun h => ⟨h.shape, h.commas⟩⟩

/-- A text that ends in parentheses is cut like another one of the same tight text. -/
theorem exists_parenthesized {before inner : Text} (hm : Trimmed m)
    (h : tighten m = tighten (before ++ '(' :: (inner ++ [')']))) :
    ∃ before' inner', m = before' ++ '(' :: (inner' ++ [')']) ∧
      tighten before' = tighten before ∧ tighten inner' = tighten inner := by
  rw [tighten_append_cons (by decide), tighten_append_cons (by decide)] at h
  obtain ⟨before', rest, rfl, hbefore, hrest⟩ := exists_of_tighten (by decide) h
  obtain ⟨inner', last, rfl, hinner, hlast⟩ := exists_of_tighten (by decide) hrest
  have hgap : IsGap last := tighten_eq_nil_iff.1 hlast
  have hlast : last = [] := by
    by_contra hne
    have hblank := hm.finish (last.getLast hne) (by
      rw [List.getLast?_append_cons, List.getLast?_cons_of_ne_nil (by simp),
        List.getLast?_append_cons, List.getLast?_cons_of_ne_nil hne,
        List.getLast?_eq_some_getLast hne]
      rfl)
    simp [hgap _ (List.getLast_mem hne)] at hblank
  exact ⟨before', inner', by rw [hlast], hbefore, hinner⟩

theorem cutAtOpen_append {stars : Text} (h : '(' ∉ stars) (rest : Text) :
    cutAtOpen (stars ++ '(' :: rest) = some (stars, '(' :: rest) := by
  have hstart : dropStart? ['('] ('(' :: rest) = some rest := dropStart?_eq_some_iff.2 rfl
  rw [cutAtOpen, cut_append_of_not_mem h, cut, hstart]
  simp

/-- The first parenthesis of a text stands in the same place if the text is changed behind it. -/
theorem takeWhile_open_append (s t u : Text) :
    (s ++ '(' :: t).takeWhile (· ≠ '(') = (s ++ '(' :: u).takeWhile (· ≠ '(') := by
  induction s with
  | nil => simp
  | cons c rest ih => simp only [List.cons_append, List.takeWhile_cons, ih]

theorem exists_takeWhile_open (h : '(' ∈ s) :
    ∃ rest, s = s.takeWhile (· ≠ '(') ++ '(' :: rest := by
  induction s with
  | nil => cases h
  | cons c rest ih =>
    by_cases hc : c = '('
    · exact ⟨rest, by simp [hc]⟩
    · obtain ⟨after, hafter⟩ := ih ((List.mem_cons.1 h).resolve_left (Ne.symm hc))
      refine ⟨after, ?_⟩
      rw [List.takeWhile_cons_of_pos (by simpa using hc), List.cons_append, ← hafter]

theorem strip_erase_congr (h : strip s = strip t) : strip (s.erase '*') = strip (t.erase '*') := by
  have hstrip (s : Text) : strip (s.erase '*') = strip ((strip s).erase '*') := by
    obtain ⟨a, b, hs, ha, hb⟩ := exists_gaps s
    conv_lhs => rw [hs, erase_gaps ha hb, strip_append_gap hb, strip_gap_append ha]
  rw [hstrip s, h, ← hstrip t]

section Blocks

variable {block stars rest : Text}

/-- Stars in front of arguments without a marker wrap a function with these arguments. -/
theorem unwrapBlock_sequence (hblock : block = stars ++ '(' :: rest) (hstars : '(' ∉ stars)
    (hmarker : cut marker ('(' :: (block ++ [')'])) = none) (base : Text) :
    unwrapBlock ('(' :: (block ++ [')'])) base =
      if stars.contains '*' then .ok (removeFirst ['*'] stars, base ++ '(' :: rest)
      else .error ⟨.blockWithoutIndirection, '(' :: (block ++ [')']), []⟩ := by
  have hcount : ('(' :: (block ++ [')'])).count '(' ≠ 1 := by
    rw [hblock]
    simp
  rw [unwrapBlock, BlockShape.ofBlock_eq_indirectionSequence_iff.2 ⟨hmarker, hcount⟩]
  simp only [interior_parenthesized]
  rw [hblock, cutAtOpen_append hstars]

/-- Stars around a marker with arguments wrap a function with these arguments. -/
theorem unwrapBlock_nested {front after : Text}
    (hshape : BlockShape.ofBlock ('(' :: (block ++ [')'])) = .nestedFunctionPointer)
    (hmarker : cut marker ('(' :: (block ++ [')'])) = some ('(' :: front, after ++ [')']))
    (hsplit : front ++ after = stars ++ '(' :: rest) (hstars : '(' ∉ stars) (base : Text) :
    unwrapBlock ('(' :: (block ++ [')'])) base = .ok (stars, base ++ '(' :: rest) := by
  rw [unwrapBlock, hshape]
  simp only [interior_removeFirst hmarker]
  rw [hsplit, cutAtOpen_append hstars]

namespace IsPlainBlock

/-- No delimiter stands in front of the first parenthesis. -/
theorem isPiece_takeWhile (h : IsPlainBlock block) (hbalanced : Balanced block) :
    IsPiece (block.takeWhile (· ≠ '(')) := by
  have hopen : '(' ∉ block.takeWhile (· ≠ '(') := fun hmem => by
    simpa using List.mem_takeWhile_imp hmem
  rw [← List.takeWhile_append_dropWhile (p := (· ≠ '(')) (l := block)] at hbalanced
  exact isPiece_iff.2 ⟨hopen, hbalanced.not_mem_close hopen, h.commas⟩

theorem isPiece (h : IsPlainBlock block) (hbalanced : Balanced block) (hopen : '(' ∉ block) :
    IsPiece block := by
  have hpiece := h.isPiece_takeWhile hbalanced
  rwa [List.takeWhile_eq_self_iff.2 fun c hc => by
    simpa using ne_of_mem_of_not_mem hc hopen] at hpiece

/-- A marker beside a parenthesis stands in front of arguments. -/
theorem ofBlock_eq_nested (h : IsPlainBlock block) (hopen : '(' ∈ block) {halves : Text × Text}
    (hmarker : cut marker ('(' :: (block ++ [')'])) = some halves) :
    BlockShape.ofBlock ('(' :: (block ++ [')'])) = .nestedFunctionPointer := by
  have hne : '(' :: (block ++ [')']) ≠ marker := by
    intro heq
    have hmem : '(' ∈ ['*', ')'] := (List.cons.inj heq).2 ▸ List.mem_append_left _ hopen
    exact absurd hmem (by decide)
  have hshape := h.shape
  rw [BlockShape.ofBlock_of_cut_eq_some hmarker, if_neg hne] at hshape ⊢
  split_ifs at hshape ⊢ with hafter
  · rfl
  · exact absurd rfl hshape

end IsPlainBlock

theorem tighten_append_cons_congr (hd : isDelimiter d = true) {s s' t t' : Text}
    (hs : tighten s' = tighten s) (ht : tighten t' = tighten t) :
    tighten (s' ++ d :: t') = tighten (s ++ d :: t) := by
  rw [tighten_append_cons hd, tighten_append_cons hd, hs, ht]

/-- A first parenthesis without a delimiter in front of it is the first one in every layout. -/
theorem exists_open_alike (hstars : IsPiece stars)
    (h : tighten t = tighten (stars ++ '(' :: rest)) :
    ∃ stars' rest', t = stars' ++ '(' :: rest' ∧ IsPiece stars' ∧ strip stars' = strip stars ∧
      tighten rest' = tighten rest := by
  rw [tighten_append_cons (by decide)] at h
  obtain ⟨stars', rest', hsplit, heq, hrest⟩ := exists_of_tighten (by decide) h
  have hstars' : IsPiece stars' := isPiece_tighten.1 (heq ▸ isPiece_tighten.2 hstars)
  refine ⟨stars', rest', hsplit, hstars', ?_, hrest⟩
  rw [← tighten_piece hstars, ← tighten_piece hstars', heq]

variable {block' base base' indirection extended : Text}

/-- What a block without inner parentheses wraps does not depend on its layout. -/
theorem exists_unwrapBlock_alike_of_isPiece (hpiece : IsPiece block)
    (hblock : tighten block' = tighten block) (hbase : tighten base' = tighten base)
    (h : unwrapBlock ('(' :: (block ++ [')'])) base = .ok (indirection, extended)) :
    ∃ indirection' extended',
      unwrapBlock ('(' :: (block' ++ [')'])) base' = .ok (indirection', extended') ∧
      strip indirection' = strip indirection ∧ tighten extended' = tighten extended := by
  have hpiece' : IsPiece block' := isPiece_tighten.1 (hblock ▸ isPiece_tighten.2 hpiece)
  have hflat {block : Text} (hpiece : IsPiece block) : ∀ c ∈ block, c ≠ '(' ∧ c ≠ ')' :=
    fun c hc => ⟨ne_of_mem_of_not_mem hc (isPiece_iff.1 hpiece).1,
      ne_of_mem_of_not_mem hc (isPiece_iff.1 hpiece).2.1⟩
  obtain ⟨stars, hunwrap, hstars⟩ := exists_unwrapBlock_flat (hflat hpiece) base
  obtain ⟨stars', hunwrap', hstars'⟩ := exists_unwrapBlock_flat (hflat hpiece') base'
  rw [hunwrap] at h
  obtain ⟨rfl, rfl⟩ := Prod.mk.inj (Except.ok.inj h)
  refine ⟨stars', base', hunwrap', ?_, hbase⟩
  rw [hstars, hstars']
  exact strip_erase_congr (by rw [← tighten_piece hpiece, ← tighten_piece hpiece', hblock])

/-- What stars in front of arguments wrap does not depend on their layout. -/
theorem exists_unwrapBlock_alike_of_sequence (hsplit : block = stars ++ '(' :: rest)
    (hpiece : IsPiece stars) (hblock : tighten block' = tighten block)
    (hbase : tighten base' = tighten base)
    (hmarker : cut marker ('(' :: (block ++ [')'])) = none)
    (hmarker' : cut marker ('(' :: (block' ++ [')'])) = none)
    (h : unwrapBlock ('(' :: (block ++ [')'])) base = .ok (indirection, extended)) :
    ∃ indirection' extended',
      unwrapBlock ('(' :: (block' ++ [')'])) base' = .ok (indirection', extended') ∧
      strip indirection' = strip indirection ∧ tighten extended' = tighten extended := by
  obtain ⟨stars', rest', hsplit', hpiece', hstrip, hrest⟩ :=
    exists_open_alike hpiece (hblock.trans (congrArg tighten hsplit))
  rw [unwrapBlock_sequence hsplit (isPiece_iff.1 hpiece).1 hmarker] at h
  split_ifs at h with hstar
  obtain ⟨rfl, rfl⟩ := Prod.mk.inj (Except.ok.inj h)
  have hstar' : stars'.contains '*' = true := by
    have hmem : '*' ∈ marks (strip stars') := by
      rw [hstrip, marks_strip, mem_marks]
      exact ⟨by simpa using hstar, by decide⟩
    rw [marks_strip, mem_marks] at hmem
    simpa using hmem.1
  rw [unwrapBlock_sequence hsplit' (isPiece_iff.1 hpiece').1 hmarker', if_pos hstar']
  refine ⟨_, _, rfl, ?_, tighten_append_cons_congr (by decide) hbase hrest⟩
  rw [removeFirst_singleton, removeFirst_singleton, strip_erase_congr hstrip]

/-- What a marker in front of arguments wraps does not depend on its layout. -/
theorem exists_unwrapBlock_alike_of_nested (hbalanced : Balanced block)
    (hbalanced' : Balanced block') (hpiece : IsPiece (block.takeWhile (· ≠ '(')))
    (hshape : BlockShape.ofBlock ('(' :: (block ++ [')'])) = .nestedFunctionPointer)
    (hshape' : BlockShape.ofBlock ('(' :: (block' ++ [')'])) = .nestedFunctionPointer)
    (hhalves : (cut marker ('(' :: (block' ++ [')']))).map (Prod.map tighten tighten) =
      (cut marker ('(' :: (block ++ [')']))).map (Prod.map tighten tighten))
    (hbase : tighten base' = tighten base)
    (h : unwrapBlock ('(' :: (block ++ [')'])) base = .ok (indirection, extended)) :
    ∃ indirection' extended',
      unwrapBlock ('(' :: (block' ++ [')'])) base' = .ok (indirection', extended') ∧
      strip indirection' = strip indirection ∧ tighten extended' = tighten extended := by
  obtain ⟨front, after, hsplit, hmarker⟩ := exists_of_nested hbalanced hshape
  obtain ⟨front', after', -, hmarker'⟩ := exists_of_nested hbalanced' hshape'
  -- The texts that are left without the marker are alike too.
  have hrest : tighten (front' ++ '(' :: after') = tighten (front ++ '(' :: after) := by
    have hopen (s : Text) : tighten ('(' :: s) = '(' :: tighten s :=
      tighten_append_cons (by decide) [] s
    rw [hmarker, hmarker'] at hhalves
    obtain ⟨hfront, hback⟩ := Prod.mk.inj (Option.some.inj hhalves)
    rw [hopen, hopen, List.cons.injEq] at hfront
    rw [List.cons_append, List.cons_append, tighten_parenthesized, tighten_parenthesized,
      List.cons.injEq, List.append_cancel_right_eq] at hback
    exact tighten_append_cons_congr (by decide) hfront.2 hback.2
  have hfirst : block.takeWhile (· ≠ '(') = (front ++ '(' :: after).takeWhile (· ≠ '(') := by
    rw [hsplit, List.append_assoc]
    exact takeWhile_open_append front _ after
  rw [hfirst] at hpiece
  obtain ⟨rest, hopen⟩ := exists_takeWhile_open (s := front ++ '(' :: after) (by simp)
  obtain ⟨stars', rest', hopen', hpiece', hstrip, htight⟩ :=
    exists_open_alike hpiece (hrest.trans (congrArg tighten hopen))
  rw [unwrapBlock_nested hshape hmarker hopen (isPiece_iff.1 hpiece).1] at h
  obtain ⟨rfl, rfl⟩ := Prod.mk.inj (Except.ok.inj h)
  exact ⟨_, _, unwrapBlock_nested hshape' hmarker' hopen' (isPiece_iff.1 hpiece').1 base', hstrip,
    tighten_append_cons_congr (by decide) hbase htight⟩

/-- **What a plain block wraps does not depend on its layout.** -/
theorem exists_unwrapBlock_alike (hblock : tighten block' = tighten block)
    (hbase : tighten base' = tighten base) (hbalanced : Balanced block)
    (hplain : IsPlainBlock block) (hplain' : IsPlainBlock block')
    (hclosed : Along MarkerClosed ('(' :: (block ++ [')'])))
    (hclosed' : Along MarkerClosed ('(' :: (block' ++ [')'])))
    (h : unwrapBlock ('(' :: (block ++ [')'])) base = .ok (indirection, extended)) :
    ∃ indirection' extended',
      unwrapBlock ('(' :: (block' ++ [')'])) base' = .ok (indirection', extended') ∧
      strip indirection' = strip indirection ∧ tighten extended' = tighten extended := by
  by_cases hopen : '(' ∈ block
  · have hpiece := hplain.isPiece_takeWhile hbalanced
    obtain ⟨rest, hsplit⟩ := exists_takeWhile_open hopen
    have hhalves : (cut marker ('(' :: (block' ++ [')']))).map (Prod.map tighten tighten) =
        (cut marker ('(' :: (block ++ [')']))).map (Prod.map tighten tighten) := by
      rw [← cut_marker_tighten hclosed, ← cut_marker_tighten hclosed', tighten_parenthesized,
        tighten_parenthesized, hblock]
    cases hmarker : cut marker ('(' :: (block ++ [')'])) with
    | none =>
      rw [hmarker, Option.map_none, Option.map_eq_none_iff] at hhalves
      exact exists_unwrapBlock_alike_of_sequence hsplit hpiece hblock hbase hmarker hhalves h
    | some halves =>
      obtain ⟨halves', hmarker', -⟩ := Option.map_eq_some_iff.1 (hmarker ▸ hhalves)
      have hopen' : '(' ∈ block' := by
        obtain ⟨stars', rest', hsplit', -, -, -⟩ :=
          exists_open_alike hpiece (hblock.trans (congrArg tighten hsplit))
        simp [hsplit']
      have hbalanced' : Balanced block' :=
        (balanced_tighten block').1 (hblock ▸ (balanced_tighten block).2 hbalanced)
      exact exists_unwrapBlock_alike_of_nested hbalanced hbalanced' hpiece
        (hplain.ofBlock_eq_nested hopen hmarker) (hplain'.ofBlock_eq_nested hopen' hmarker')
        hhalves hbase h
  · exact exists_unwrapBlock_alike_of_isPiece (hplain.isPiece hbalanced hopen) hblock hbase h

end Blocks

/-! ## Parts -/

/-- The inside of the block in front of the arguments of a function type. -/
def block? (s : Text) : Option Text :=
  (lastOpenIndex (strip s)).bind fun index =>
    let returns := strip ((strip s).take index)
    if returns.getLast? = some ')' then
      (lastOpenIndex returns).map fun start => interior (returns.drop start)
    else none

/-- The block in front of the arguments, if there is one, may be written in any layout. -/
def HasPlainBlock (s : Text) : Prop := ∀ block ∈ block? s, IsPlainBlock block

instance (s : Text) : Decidable (HasPlainBlock s) :=
  inferInstanceAs (Decidable (∀ block ∈ block? s, IsPlainBlock block))

theorem block?_eq_some {before inner base block : Text}
    (hsplit : strip s = before ++ '(' :: (inner ++ [')'])) (hinner : Balanced inner)
    (hreturns : strip before = base ++ '(' :: (block ++ [')'])) (hblock : Balanced block) :
    block? s = some block := by
  have hlast : (base ++ '(' :: (block ++ [')'])).getLast? = some ')' := by
    rw [List.getLast?_append_cons, ← List.cons_append, List.getLast?_concat]
  rw [block?, hsplit, lastOpenIndex_append before hinner, Option.bind_some]
  simp only [List.take_left, hreturns, if_pos hlast, lastOpenIndex_append base hblock,
    Option.map_some, List.drop_left, interior_parenthesized]

namespace Parts

/-- Parts that differ in their layout alone. -/
structure Alike (p q : Parts) : Prop where
  /-- The indirection is the same. -/
  indirection : p.indirection = q.indirection
  /-- The fields are alike. -/
  fields : p.fields.map tighten = q.fields.map tighten
  /-- The returned types are alike. -/
  returns : tighten p.returns = tighten q.returns

/-- Markers are closed in the block that stands in front of arguments. -/
theorem along_markerClosed_of_split {before inner base block : Text}
    (hclosed : Along MarkerClosed s) (hsplit : strip s = before ++ '(' :: (inner ++ [')']))
    (hreturns : strip before = base ++ '(' :: (block ++ [')'])) :
    Along MarkerClosed ('(' :: (block ++ [')'])) := by
  obtain ⟨a, b, hbefore, -, -⟩ := exists_gaps before
  obtain ⟨c, d, hs, -, -⟩ := exists_gaps s
  refine along_markerClosed_of_infix hclosed
    ⟨c ++ (a ++ base), b ++ '(' :: (inner ++ [')']) ++ d, ?_⟩
  conv_rhs => rw [hs, hsplit, hbefore, hreturns]
  simp

/-- **A function type is split in every layout as in one.** -/
theorem exists_alike {parts : Parts} (h : tighten t = tighten s) (hs : Along MarkerClosed s)
    (ht : Along MarkerClosed t) (hplain : HasPlainBlock s) (hplain' : HasPlainBlock t)
    (hparts : ofSpelling s = .ok parts) :
    ∃ parts', ofSpelling t = .ok parts' ∧ Alike parts parts' := by
  obtain ⟨hfunction, before, inner, hsplit, hinner, hne, hreturns⟩ := ofSpelling_eq_ok_iff.1 hparts
  have hstrip {s : Text} (hs : Along MarkerClosed s) : Along MarkerClosed (strip s) := by
    obtain ⟨a, b, heq, -, -⟩ := exists_gaps s
    exact along_markerClosed_of_infix hs ⟨a, b, heq.symm⟩
  have htight : tighten (strip t) = tighten (strip s) := by rw [tighten_strip, h, tighten_strip]
  have hfunction' : isFunction (strip t) = true := by
    rw [isFunction_congr htight (hstrip ht) (hstrip hs), hfunction]
  obtain ⟨before', inner', hsplit', hbefore, hfields⟩ :=
    exists_parenthesized (trimmed_strip t) (hsplit ▸ htight)
  have hinner' : Balanced inner' :=
    (balanced_tighten inner').1 (hfields ▸ (balanced_tighten inner).2 hinner)
  have htopFields : (topFields inner).map tighten = (topFields inner').map tighten := by
    rw [map_tighten_topFields, map_tighten_topFields, hfields]
  have hmarks : marks (strip before') = marks (strip before) := by
    rw [marks_strip, marks_strip, ← marks_tighten, hbefore, marks_tighten]
  have hne' : strip before' ≠ [] := by
    rwa [Ne, ← (trimmed_strip before').marks_eq_nil_iff, hmarks,
      (trimmed_strip before).marks_eq_nil_iff]
  have hlast : (strip before').getLast? = (strip before).getLast? := by
    rw [← (trimmed_strip before').getLast?_marks, hmarks, (trimmed_strip before).getLast?_marks]
  have hresult (parts' : Parts)
      (hreturns' : ofReturns (strip t) (strip before') ('(' :: (inner' ++ [')'])) = .ok parts') :
      ofSpelling t = .ok parts' :=
    ofSpelling_eq_ok_iff.2 ⟨hfunction', before', inner', hsplit', hinner', hne', hreturns'⟩
  rcases ofReturns_eq_ok_iff.1 hreturns with
    ⟨hclose, rfl⟩ | ⟨base, block, indirection, extended, hbase, hblock, hunwrap, rfl⟩
  · refine ⟨_, hresult _ (ofReturns_eq_ok_iff.2 (.inl ⟨hlast ▸ hclose, rfl⟩)), rfl, htopFields, ?_⟩
    rw [tighten_strip, tighten_strip, hbefore]
  · have hfront : tighten (strip before') = tighten (base ++ '(' :: (block ++ [')'])) := by
      rw [tighten_strip, hbefore, ← tighten_strip before, hbase]
    obtain ⟨base', block', hbase', hbases, hblocks⟩ :=
      exists_parenthesized (trimmed_strip before') hfront
    have hblock' : Balanced block' :=
      (balanced_tighten block').1 (hblocks ▸ (balanced_tighten block).2 hblock)
    have hplain := hplain block (block?_eq_some hsplit hinner hbase hblock)
    have hplain' := hplain' block' (block?_eq_some hsplit' hinner' hbase' hblock')
    have hclosed := along_markerClosed_of_split hs hsplit hbase
    have hclosed' := along_markerClosed_of_split ht hsplit' hbase'
    obtain ⟨indirection', extended', hunwrap', hindirection, hextended⟩ :=
      exists_unwrapBlock_alike hblocks hbases hblock hplain hplain' hclosed hclosed' hunwrap
    refine ⟨_, hresult _ (ofReturns_eq_ok_iff.2
      (.inr ⟨base', block', _, _, hbase', hblock', hunwrap', rfl⟩)), hindirection.symm,
      htopFields, ?_⟩
    rw [tighten_strip, tighten_strip, hextended]

end Parts

end CSpelling

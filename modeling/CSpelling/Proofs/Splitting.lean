import CSpelling.Proofs.Occurrences
import CSpelling.Proofs.Parentheses
import Mathlib.Data.List.Basic

/-!
# Splitting texts that end in arguments

A text `before(inner)` with balanced parentheses inside is split in front of `(inner)`, whatever
white space stands around its parts. Without a block, all in front is the returned type
(`ofSpelling_closed`). A block has its shape from its first marker and from what stands behind that
(`BlockShape.ofBlock_of_cut_eq_none`, `BlockShape.ofBlock_of_cut_eq_some`). One that holds no
parentheses of its own leaves all but its first star (`exists_unwrapBlock_flat`), and the returned
type is what stands in front of it (`ofSpelling_blocked`).

The arguments of such a text are its fields, trimmed (`topFields_intercalate`).
-/

namespace CSpelling

open Text

variable {before inner s t : Text}

/-! ## White space -/

/-- White space in front of a trimmed text reaches up to the last mark before it. -/
theorem Text.strip_append_trimmed (s : Text) (ht : Trimmed t) (hne : t ≠ []) :
    strip (s ++ t) = s.dropWhile isBlank ++ t := by
  have hhead : ∀ c ∈ t.head?, isBlank c = false := ht.start
  have hdrop : (s ++ t).dropWhile isBlank = s.dropWhile isBlank ++ t := by
    rw [List.dropWhile_append]
    split_ifs with hempty
    · rw [List.isEmpty_iff.1 hempty, dropWhile_of_head? hhead, List.nil_append]
    · rfl
  rw [strip, hdrop]
  exact dropEndWhile_of_getLast? fun c hc => ht.finish c
    (by rwa [List.getLast?_append_of_ne_nil _ hne] at hc)

theorem Text.strip_dropWhile (s : Text) : strip (s.dropWhile isBlank) = strip s := by
  rw [strip, strip, List.dropWhile_idempotent]

/-- Parentheses stand around a text without white space. -/
theorem trimmed_parenthesized (s : Text) : Trimmed ('(' :: (s ++ [')'])) := by
  refine ⟨fun c hc => ?_, fun c hc => ?_⟩
  · obtain rfl : '(' = c := Option.some.inj hc
    exact isBlank_open
  · rw [← List.cons_append, List.getLast?_concat] at hc
    obtain rfl : ')' = c := Option.some.inj hc
    exact isBlank_close

/-! ## Arguments -/

/-- Arguments that make no marker with their parentheses make a function type of everything in
front of them. -/
theorem isFunction_closed (hmarker : ¬['*', ')'] <+: inner ++ [')']) (before : Text) :
    isFunction (before ++ '(' :: (inner ++ [')'])) = true := by
  by_contra hnot
  have halong := isFunction_eq_false_iff.1 (Bool.eq_false_iff.2 hnot)
  exact hmarker ((along_append.1 halong).2.1 rfl)

/-- The text without white space at its ends, in front of arguments. -/
theorem strip_arguments (before inner : Text) : strip (before ++ '(' :: (inner ++ [')'])) =
    before.dropWhile isBlank ++ '(' :: (inner ++ [')']) :=
  strip_append_trimmed before (trimmed_parenthesized inner) (by simp)

/-- **Without a block, everything in front of the arguments is the returned type.** -/
theorem Parts.ofSpelling_closed (hbalanced : Balanced inner)
    (hmarker : ¬['*', ')'] <+: inner ++ [')']) (hne : strip before ≠ [])
    (hlast : (strip before).getLast? ≠ some ')') :
    Parts.ofSpelling (before ++ '(' :: (inner ++ [')'])) =
      .ok ⟨[], topFields inner, strip before⟩ := by
  rw [Parts.ofSpelling_eq_ok_iff, strip_arguments]
  refine ⟨isFunction_closed hmarker _, before.dropWhile isBlank, inner, rfl, hbalanced, ?_, ?_⟩
  · rwa [strip_dropWhile]
  · rw [strip_dropWhile]
    exact Parts.ofReturns_eq_ok_iff.2 (.inl ⟨hlast, rfl⟩)

/-! ## Shapes of blocks -/

namespace BlockShape

variable {block : Text}

/-- Without a marker, the parentheses of a block give it its shape. -/
theorem ofBlock_of_cut_eq_none (h : cut marker block = none) :
    ofBlock block = if block.count '(' = 1 then arrayOfPointers else indirectionSequence := by
  have hne : block ≠ marker := by
    rintro rfl
    cases h
  rw [ofBlock, if_neg hne, h]

/-- With a marker, what stands behind the marker gives a block its shape. -/
theorem ofBlock_of_cut_eq_some {front after : Text} (h : cut marker block = some (front, after)) :
    ofBlock block = if block = marker then trivialPointer
      else if 1 < after.length ∧ after.head? = some '(' then nestedFunctionPointer
      else deepIndirection := by
  rw [ofBlock, h]

theorem ofBlock_eq_trivialPointer_iff : ofBlock block = trivialPointer ↔ block = marker := by
  constructor
  · intro h
    cases hcut : cut marker block with
    | none =>
      rw [ofBlock_of_cut_eq_none hcut] at h
      split_ifs at h
    | some halves =>
      rw [ofBlock_of_cut_eq_some hcut] at h
      split_ifs at h with hmarker
      exact hmarker
  · rintro rfl
    rfl

theorem ofBlock_eq_indirectionSequence_iff : ofBlock block = indirectionSequence ↔
    cut marker block = none ∧ block.count '(' ≠ 1 := by
  cases hcut : cut marker block with
  | none => simp [ofBlock_of_cut_eq_none hcut]
  | some halves =>
    rw [ofBlock_of_cut_eq_some hcut]
    split_ifs <;> simp

theorem ofBlock_eq_nestedFunctionPointer_iff : ofBlock block = nestedFunctionPointer ↔
    ∃ front after, cut marker block = some (front, '(' :: after) ∧ after ≠ [] := by
  cases hcut : cut marker block with
  | none =>
    rw [ofBlock_of_cut_eq_none hcut]
    split_ifs <;> simp
  | some halves =>
    obtain ⟨front, after⟩ := halves
    rw [ofBlock_of_cut_eq_some hcut]
    constructor
    · intro h
      split_ifs at h with _ hafter
      obtain ⟨rest, rfl⟩ := List.head?_eq_some_iff.1 hafter.2
      refine ⟨front, rest, rfl, ?_⟩
      rintro rfl
      simp at hafter
    · rintro ⟨_, rest, heq, hne⟩
      obtain ⟨rfl, rfl⟩ := Prod.mk.inj (Option.some.inj heq)
      have hmarker : block ≠ marker := by
        rintro rfl
        cases hcut
      rw [if_neg hmarker, if_pos ⟨Nat.succ_lt_succ (List.length_pos_iff.2 hne), rfl⟩]

end BlockShape

/-- In front of the first parenthesis that is opened none is closed. -/
theorem Balanced.not_mem_close (h : Balanced (s ++ t)) (hopen : '(' ∉ s) : ')' ∉ s := by
  have hcount := h.upTo s (List.prefix_append s t)
  rw [List.count_eq_zero.2 hopen] at hcount
  exact List.count_eq_zero.1 (Nat.le_zero.1 hcount)

/-- A marker with arguments behind it stands inside of a balanced block. -/
theorem exists_of_nested {block : Text} (hbalanced : Balanced block)
    (hshape : BlockShape.ofBlock ('(' :: (block ++ [')'])) = .nestedFunctionPointer) :
    ∃ front after, block = front ++ marker ++ '(' :: after ∧
      cut marker ('(' :: (block ++ [')'])) = some ('(' :: front, '(' :: after ++ [')']) := by
  obtain ⟨start, rest, hcut, hne⟩ := BlockShape.ofBlock_eq_nestedFunctionPointer_iff.1 hshape
  obtain ⟨rest, last, rfl⟩ := (List.eq_nil_or_concat rest).resolve_left hne
  have hwhole := eq_of_cut hcut
  cases start with
  | nil =>
    -- No block begins with a star and a closing parenthesis.
    have hblock : block = '*' :: ')' :: '(' :: rest := by
      have heq : block ++ [')'] = ('*' :: ')' :: '(' :: rest) ++ [last] := by
        simpa [marker] using hwhole
      exact (List.append_inj' heq rfl).1
    have hcount := hbalanced.upTo ['*', ')'] ⟨'(' :: rest, hblock.symm⟩
    simp at hcount
  | cons c front =>
    have heq : block ++ [')'] = (front ++ marker ++ '(' :: rest) ++ [last] := by
      simpa using (List.cons.inj hwhole).2
    obtain ⟨hblock, hlast⟩ := List.append_inj' heq rfl
    refine ⟨front, rest, hblock, ?_⟩
    rw [hcut, ← (List.cons.inj hwhole).1, List.concat_eq_append, hlast, List.cons_append]

/-- A block without its first marker has what stands around that between its outer parentheses. -/
theorem interior_removeFirst {front after : Text}
    (h : cut marker s = some ('(' :: front, after ++ [')'])) :
    interior (removeFirst marker s) = front ++ after := by
  have hgroup : removeFirst marker s = '(' :: ((front ++ after) ++ [')']) := by
    rw [removeFirst, h]
    simp
  rw [hgroup, interior_parenthesized]

/-! ## Blocks -/

/-- Removing a single character is removing its first occurrence from the list. -/
theorem Text.removeFirst_singleton (c : Char) (s : Text) : removeFirst [c] s = s.erase c := by
  induction s with
  | nil => rfl
  | cons d rest ih =>
    unfold removeFirst at ih ⊢
    unfold cut
    by_cases hd : d = c
    · subst hd
      have hstart : dropStart? [d] (d :: rest) = some rest := dropStart?_eq_some_iff.2 rfl
      simp [hstart]
    · rw [List.erase_cons_tail (by simpa using hd), ← ih, dropStart?_cons_of_ne hd]
      cases cut [c] rest <;> rfl

/-- White space around a text stays where it is when the first star is removed. -/
theorem Text.erase_gaps {a b : Text} (ha : IsGap a) (hb : IsGap b) (s : Text) :
    (a ++ s ++ b).erase '*' = a ++ s.erase '*' ++ b := by
  have hstar {g : Text} (hg : IsGap g) : '*' ∉ g := fun h => by simpa using hg _ h
  rw [List.append_assoc, List.erase_append_right _ (hstar ha), List.append_assoc, List.erase_append]
  split_ifs with hmem
  · rfl
  · rw [List.erase_of_not_mem (hstar hb), List.erase_of_not_mem hmem]

/-- A block without parentheses of its own leaves all of it but the first star. -/
theorem exists_unwrapBlock_flat {block : Text} (hblock : ∀ c ∈ block, c ≠ '(' ∧ c ≠ ')')
    (base : Text) :
    ∃ indirection, unwrapBlock ('(' :: (block ++ [')'])) base = .ok (indirection, base) ∧
      strip indirection = strip (block.erase '*') := by
  by_cases hstar : block = ['*']
  · subst hstar
    exact ⟨[], rfl, by decide⟩
  have hopen : '(' ∉ block := fun hmem => (hblock _ hmem).1 rfl
  have hclose : ')' ∉ block := fun hmem => (hblock _ hmem).2 rfl
  have hmarker : cut marker ('(' :: (block ++ [')'])) = none := by
    rw [← Option.isNone_iff_eq_none, ← Option.not_isSome, Bool.not_eq_true', ← occurs,
      Bool.eq_false_iff, Ne, occurs_iff (by decide), List.infix_cons_iff]
    rintro (hpre | hin)
    · -- Between the parentheses there is nothing but a star.
      have hpre := (List.cons_prefix_cons.1 hpre).2
      match block with
      | [] => simp at hpre
      | [c] =>
        obtain ⟨rfl, -⟩ := List.cons_prefix_cons.1 hpre
        exact hstar rfl
      | c :: d :: rest =>
        obtain ⟨-, hd⟩ := List.cons_prefix_cons.1 hpre
        obtain ⟨rfl, -⟩ := List.cons_prefix_cons.1 hd
        simp at hclose
    · have : '(' ∈ block ++ [')'] := hin.subset (by decide)
      simp [hopen] at this
  have hshape : BlockShape.ofBlock ('(' :: (block ++ [')'])) = .arrayOfPointers := by
    rw [BlockShape.ofBlock_of_cut_eq_none hmarker, if_pos]
    simp [List.count_eq_zero.2 hopen]
  have hmap : ('(' :: (block ++ [')'])).map (fun c => if c = '(' ∨ c = ')' then ' ' else c) =
      [' '] ++ block ++ [' '] := by
    have hid : block.map (fun c => if c = '(' ∨ c = ')' then ' ' else c) = block := by
      conv_rhs => rw [← List.map_id block]
      exact List.map_congr_left fun c hc => if_neg (not_or.2 (hblock c hc))
    simp [hid]
  have hflat : flattenBlock ('(' :: (block ++ [')'])) = [' '] ++ block.erase '*' ++ [' '] := by
    rw [flattenBlock, hmap, removeFirst_singleton, erase_gaps isGap_space isGap_space]
  refine ⟨_, by rw [unwrapBlock, hshape], ?_⟩
  rw [hflat, strip_append_gap isGap_space, strip_gap_append isGap_space]

/-- **With a block, the returned type stands in front of it.** -/
theorem Parts.ofSpelling_blocked (hbalanced : Balanced inner)
    (hmarker : ¬['*', ')'] <+: inner ++ [')']) {block gap : Text}
    (hblock : ∀ c ∈ block, c ≠ '(' ∧ c ≠ ')') (hgap : IsGap gap) (base : Text) :
    Parts.ofSpelling (base ++ '(' :: (block ++ ')' :: (gap ++ '(' :: (inner ++ [')'])))) =
      .ok ⟨strip (block.erase '*'), topFields inner, strip base⟩ := by
  have hsplit : base ++ '(' :: (block ++ ')' :: (gap ++ '(' :: (inner ++ [')']))) =
      (base ++ '(' :: (block ++ [')']) ++ gap) ++ '(' :: (inner ++ [')']) := by simp
  have hreturns : strip (base ++ '(' :: (block ++ [')']) ++ gap) =
      base.dropWhile isBlank ++ '(' :: (block ++ [')']) := by
    rw [strip_append_gap hgap, strip_arguments]
  obtain ⟨indirection, hunwrap, hindirection⟩ :=
    exists_unwrapBlock_flat hblock (base.dropWhile isBlank)
  rw [hsplit, Parts.ofSpelling_eq_ok_iff, strip_arguments]
  refine ⟨isFunction_closed hmarker _, _, inner, rfl, hbalanced, ?_, ?_⟩
  · rw [strip_dropWhile, hreturns]
    simp
  · rw [strip_dropWhile, hreturns, Parts.ofReturns_eq_ok_iff, ← hindirection,
      ← strip_dropWhile base]
    exact .inr ⟨_, block, _, _, rfl, Balanced.of_forall hblock, hunwrap, rfl⟩

/-! ## Fields -/

theorem Balanced.parenthesized (h : Balanced s) : Balanced ('(' :: (s ++ [')'])) := by
  refine ⟨by simp [h.total], fun t ht => ?_⟩
  cases t with
  | nil => exact Nat.zero_le _
  | cons c rest =>
    obtain ⟨rfl, hrest⟩ := List.cons_prefix_cons.1 ht
    have hcount : rest.count ')' ≤ rest.count '(' + 1 := by
      rcases List.prefix_concat_iff.1 hrest with rfl | hrest
      · simp [h.total]
      · exact (h.upTo rest hrest).trans (Nat.le_succ _)
    simpa using hcount

namespace IsField

theorem of_forall (h : ∀ c ∈ s, c ≠ '(' ∧ c ≠ ')' ∧ c ≠ ',') : IsField s := by
  refine ⟨Balanced.of_forall fun c hc => ⟨(h c hc).1, (h c hc).2.1⟩, fun t ht => ?_⟩
  exact absurd rfl (h ',' (ht.subset (by simp))).2.2

theorem append (hs : IsField s) (ht : IsField t) : IsField (s ++ t) := by
  refine ⟨hs.balanced.append ht.balanced, fun u hu => ?_⟩
  rcases List.prefix_or_prefix_of_prefix hu (List.prefix_append s t) with h | ⟨v, hv⟩
  · exact hs.commas u h
  · cases v using List.reverseRecOn with
    | nil => exact hs.commas u ⟨[], by simpa using hv.symm⟩
    | append_singleton v c =>
      rw [← List.append_assoc] at hv
      obtain ⟨rfl, hc⟩ := List.append_inj' hv rfl
      obtain rfl : c = ',' := by simpa using hc
      rw [List.append_assoc] at hu
      have hcomma := ht.commas v ((List.prefix_append_right_inj s).1 hu)
      rw [List.count_append, List.count_append, hs.balanced.total]
      omega

theorem parenthesized (h : Balanced s) : IsField ('(' :: (s ++ [')'])) := by
  refine ⟨h.parenthesized, fun t ht => ?_⟩
  cases t with
  | nil => cases (List.cons_prefix_cons.1 ht).1
  | cons c rest =>
    obtain ⟨rfl, hrest⟩ := List.cons_prefix_cons.1 ht
    have hinner : rest <+: s := by
      rcases List.prefix_concat_iff.1 hrest with heq | hpre
      · exact absurd (List.append_inj' heq rfl).2 (by decide)
      · exact (List.prefix_append rest [',']).trans hpre
    simpa using Nat.lt_succ_of_le (h.upTo rest hinner)

end IsField

/-- Fields are joined to a balanced text. -/
theorem balanced_intercalate {fields : List Text} (h : ∀ f ∈ fields, Balanced f) :
    Balanced (listSeparator.intercalate fields) := by
  have hseparator : Balanced listSeparator := Balanced.of_forall (by decide)
  induction fields with
  | nil => exact Balanced.of_forall (by simp)
  | cons field rest ih =>
    cases rest with
    | nil => simpa using h field (by simp)
    | cons next rest =>
      rw [List.intercalate_cons_cons]
      exact ((h field (by simp)).append hseparator).append (ih fun f hf => h f (by simp [hf]))

/-- The fields of joined arguments are the arguments, trimmed. -/
theorem topFields_intercalate {field : Text} {fields : List Text}
    (h : ∀ f ∈ field :: fields, IsField f) :
    topFields (listSeparator.intercalate (field :: fields)) = (field :: fields).map strip := by
  rw [topFields, fieldsWithin_intercalate (h field (by simp)) fun f hf => h f (by simp [hf]),
    List.map_cons, List.map_cons, List.map_map]
  exact congrArg _ (List.map_congr_left fun f _ => strip_gap_append isGap_space f)

end CSpelling

import CSpelling.Proofs.Relayout
import Mathlib.Data.List.Perm.Basic

/-!
# Splitting loses nothing

A function type that is split ends in a group, a balanced text in parentheses, and in one only
(`EndsInGroup.unique`, `Parts.ofReturns_of_endsInGroup`). The fields are what the group holds, cut
at the commas outside of inner parentheses (`intercalate_fieldsWithin`, `isField_of_mem_topFields`).

The indirection and the returned type are made of what stands in front. `Unwraps` says how, for each
way in which a block wraps a result: nothing is moved but a parenthesised text, and nothing is left
out but parentheses, white space and one star (`Unwraps.content`). So the indirection holds no
parenthesis, and those of the returned type match each other if those of the whole do
(`Unwraps.balanced`).

`Parts.ofSpelling_conserves` puts this together.
-/

namespace CSpelling

open Text

variable {s t : Text}

/-! ## Parts of balanced texts -/

namespace Balanced

theorem of_append_right (h : Balanced (s ++ t)) (ht : Balanced t) : Balanced s := by
  refine ⟨?_, fun u hu => h.upTo u (hu.trans (List.prefix_append s t))⟩
  have htotal := h.total
  rw [List.count_append, List.count_append, ht.total] at htotal
  exact Nat.add_right_cancel htotal

/-- What is left of a balanced text without a balanced part of it is balanced. -/
theorem remove {front part after : Text} (h : Balanced (front ++ part ++ after))
    (hpart : Balanced part) : Balanced (front ++ after) := by
  refine ⟨?_, fun u hu => ?_⟩
  · have htotal := h.total
    simp only [List.count_append, hpart.total] at htotal ⊢
    omega
  · rcases List.prefix_or_prefix_of_prefix hu (List.prefix_append front after) with
      hfront | ⟨v, rfl⟩
    · exact h.upTo u (hfront.trans (by simp))
    · have hv : v <+: after := (List.prefix_append_right_inj front).1 hu
      have hcount := h.upTo (front ++ part ++ v) ((List.prefix_append_right_inj _).2 hv)
      simp only [List.count_append, hpart.total] at hcount ⊢
      omega

theorem of_append_left (h : Balanced (s ++ t)) (hs : Balanced s) : Balanced t := by
  have hremove : Balanced ([] ++ s ++ t) := h
  exact hremove.remove hs

theorem strip_iff : Balanced (strip s) ↔ Balanced s := by
  have hgap {g : Text} (hg : IsGap g) : Balanced g := by
    refine of_forall fun c hc => ⟨?_, ?_⟩ <;> rintro rfl <;> simpa using hg _ hc
  obtain ⟨a, b, hs, ha, hb⟩ := exists_gaps s
  constructor
  · intro h
    rw [hs]
    exact ((hgap ha).append h).append (hgap hb)
  · intro h
    rw [hs] at h
    exact (h.of_append_right (hgap hb)).of_append_left (hgap ha)

end Balanced

/-- The text ends in a balanced text in parentheses. -/
structure EndsInGroup (s before inner : Text) : Prop where
  /-- The group is the end of the text. -/
  split : s = before ++ '(' :: (inner ++ [')'])
  /-- Inside, the parentheses match each other. -/
  balanced : Balanced inner

/-- The group that a text ends in is told by the text. -/
theorem EndsInGroup.unique {before inner before' inner' : Text} (h : EndsInGroup s before inner)
    (h' : EndsInGroup s before' inner') : before = before' ∧ inner = inner' := by
  have hlength : before.length = before'.length := by
    rw [← Option.some.injEq, ← lastOpenIndex_append before h.balanced,
      ← lastOpenIndex_append before' h'.balanced, ← h.split, ← h'.split]
  obtain ⟨rfl, hgroup⟩ := List.append_inj (h.split.symm.trans h'.split) hlength
  exact ⟨rfl, List.append_cancel_right (List.cons.inj hgroup).2⟩

/-! ## Fields -/

theorem intercalate_consField (c : Char) (field : Text) (fields : List Text) :
    [','].intercalate (consField c (field :: fields)) =
      c :: [','].intercalate (field :: fields) := by
  cases fields <;> simp [consField, List.intercalate_cons_cons]

/-- **The fields are all that stands between the commas.** -/
theorem intercalate_fieldsWithin (depth : Nat) (s : Text) :
    [','].intercalate (fieldsWithin depth s) = s := by
  induction s generalizing depth with
  | nil => simp [fieldsWithin]
  | cons c rest ih =>
    have hcons (n : Nat) : [','].intercalate (consField c (fieldsWithin n rest)) = c :: rest := by
      obtain ⟨field, fields, heq⟩ := exists_fieldsWithin n rest
      rw [heq, intercalate_consField, ← heq, ih]
    rw [fieldsWithin]
    split_ifs with hopen hclose hcomma
    · exact hcons _
    · exact hcons _
    · obtain ⟨field, fields, heq⟩ := exists_fieldsWithin depth rest
      rw [heq, List.intercalate_cons_cons, ← heq, ih, hcomma.1]
      rfl
    · exact hcons _

theorem marks_intercalate_strip (fields : List Text) :
    marks ([','].intercalate (fields.map strip)) = marks ([','].intercalate fields) := by
  induction fields with
  | nil => rfl
  | cons field rest ih =>
    cases rest with
    | nil => simp
    | cons next rest =>
      rw [List.map_cons] at ih ⊢
      rw [List.map_cons, List.intercalate_cons_cons, List.intercalate_cons_cons, marks_append,
        marks_append, ih, marks_append, marks_append, marks_strip]

/-- A comma outside of parentheses ends a first field, and what follows is balanced. -/
theorem exists_first_field (h : Balanced s) (hcommas : ¬CommasInside s) :
    ∃ field rest, s = field ++ ',' :: rest ∧ IsField field ∧ Balanced rest := by
  -- Of the texts in front of such commas, one has none of these commas in it.
  have hfield (field : Text) (hpre : field ++ [','] <+: s)
      (hout : field.count '(' ≤ field.count ')') :
      ∃ field, field ++ [','] <+: s ∧ field.count '(' ≤ field.count ')' ∧ CommasInside field := by
    induction hn : field.length using Nat.strong_induction_on generalizing field with
    | h n ih =>
      by_cases hin : CommasInside field
      · exact ⟨field, hpre, hout, hin⟩
      · obtain ⟨front, hfront, hcount⟩ : ∃ front, front ++ [','] <+: field ∧
            front.count '(' ≤ front.count ')' := by
          simpa [CommasInside] using hin
        have hlength := hfront.length_le
        rw [List.length_append, List.length_singleton] at hlength
        exact ih front.length (by omega) front
          (hfront.trans ((List.prefix_append field [',']).trans hpre)) hcount rfl
  obtain ⟨front, hfront, hcount⟩ : ∃ front, front ++ [','] <+: s ∧
      front.count '(' ≤ front.count ')' := by
    simpa [CommasInside] using hcommas
  obtain ⟨field, ⟨rest, hsplit⟩, hout, hin⟩ := hfield front hfront hcount
  have hupTo (t : Text) (ht : t <+: field) : t.count ')' ≤ t.count '(' :=
    h.upTo t (ht.trans ((List.prefix_append field [',']).trans ⟨rest, hsplit⟩))
  have hbalanced : Balanced field := ⟨le_antisymm (hupTo field List.prefix_rfl) hout, hupTo⟩
  have hcomma : Balanced [','] := Balanced.of_forall (by decide)
  refine ⟨field, rest, by rw [← hsplit]; simp, ⟨hbalanced, hin⟩, ?_⟩
  rw [← hsplit] at h
  exact h.of_append_left (hbalanced.append hcomma)

theorem isField_of_mem_fieldsWithin {field : Text} (h : Balanced s)
    (hfield : field ∈ fieldsWithin 0 s) : IsField field := by
  induction hn : s.length using Nat.strong_induction_on generalizing s with
  | h n ih =>
    by_cases hcommas : CommasInside s
    · have hsplit := (IsField.mk h hcommas).fieldsWithin_append []
      rw [List.append_nil, fieldsWithin, foldr_consField, List.append_nil] at hsplit
      rw [hsplit, List.mem_singleton] at hfield
      rw [hfield]
      exact ⟨h, hcommas⟩
    · obtain ⟨first, rest, rfl, hfirst, hrest⟩ := exists_first_field h hcommas
      rw [hfirst.fieldsWithin_append, fieldsWithin, if_neg (by decide), if_neg (by decide),
        if_pos ⟨rfl, rfl⟩, foldr_consField, List.append_nil, List.mem_cons] at hfield
      rcases hfield with rfl | hfield
      · exact hfirst
      · exact ih rest.length (by rw [← hn]; simp; omega) hrest hfield rfl

theorem IsField.strip (h : IsField s) : IsField (strip s) := by
  refine ⟨Balanced.strip_iff.2 h.balanced, fun t ht => ?_⟩
  obtain ⟨a, b, hs, ha, hb⟩ := exists_gaps s
  have hpre : (a ++ t) ++ [','] <+: s := by
    rw [hs, List.append_assoc, List.append_assoc, List.prefix_append_right_inj]
    exact ht.trans (List.prefix_append _ _)
  have hnone {c : Char} (hc : isBlank c = false) : a.count c = 0 :=
    List.count_eq_zero.2 fun hmem => by simp [ha c hmem] at hc
  have hcount := h.commas _ hpre
  rwa [List.count_append, List.count_append, hnone isBlank_close, hnone isBlank_open, Nat.zero_add,
    Nat.zero_add] at hcount

/-- **A field is balanced, and has its commas inside of parentheses.** -/
theorem isField_of_mem_topFields {field : Text} (h : Balanced s) (hfield : field ∈ topFields s) :
    IsField field := by
  obtain ⟨f, hf, rfl⟩ := List.mem_map.1 hfield
  exact (isField_of_mem_fieldsWithin h hf).strip

/-! ## What counts in a text -/

/-- The characters of a text other than parentheses and white space. -/
def content (s : Text) : Text := s.filter fun c => !isBlank c && c != '(' && c != ')'

@[simp] theorem content_nil : content [] = [] := rfl

@[simp] theorem content_append (s t : Text) : content (s ++ t) = content s ++ content t :=
  List.filter_append ..

@[simp] theorem content_open (s : Text) : content ('(' :: s) = content s := by simp [content]

@[simp] theorem content_close (s : Text) : content (')' :: s) = content s := by simp [content]

@[simp] theorem content_star (s : Text) : content ('*' :: s) = '*' :: content s := by simp [content]

theorem content_eq_nil {s : Text} (h : IsGap s) : content s = [] :=
  List.filter_eq_nil_iff.2 fun c hc => by simp [h c hc]

@[simp] theorem content_strip (s : Text) : content (strip s) = content s := by
  obtain ⟨a, b, hs, ha, hb⟩ := exists_gaps s
  conv_rhs => rw [hs, content_append, content_append, content_eq_nil ha, content_eq_nil hb,
    List.nil_append, List.append_nil]

/-- A text consists of what is left of it without its first star, and the star. -/
theorem content_erase_star (s : Text) :
    (content s).Perm (content (s.erase '*') ++ if '*' ∈ s then ['*'] else []) := by
  split_ifs with hstar
  · refine ((List.perm_cons_erase hstar).filter _).trans ?_
    rw [List.filter_cons_of_pos (by decide)]
    exact (List.perm_append_singleton _ _).symm
  · rw [List.erase_of_not_mem hstar, List.append_nil]

theorem content_map_blank (s : Text) :
    content (s.map fun c => if c = '(' ∨ c = ')' then ' ' else c) = content s := by
  induction s with
  | nil => rfl
  | cons c rest ih =>
    rw [content] at ih ⊢
    by_cases hc : c = '(' ∨ c = ')'
    · rcases hc with rfl | rfl <;> simp [content, ih]
    · rw [List.map_cons, if_neg hc, content, List.filter_cons, List.filter_cons, ih, content]

/-- A flattened block is the block without its parentheses and its first star. -/
theorem content_flattenBlock (block : Text) :
    (content block).Perm (content (flattenBlock ('(' :: (block ++ [')']))) ++
      if '*' ∈ block then ['*'] else []) := by
  have hblank := content_erase_star
    (('(' :: (block ++ [')'])).map fun c => if c = '(' ∨ c = ')' then ' ' else c)
  have hstar : '*' ∈ ('(' :: (block ++ [')'])).map (fun c => if c = '(' ∨ c = ')' then ' ' else c) ↔
      '*' ∈ block := by
    have hmem (t : Text) : '*' ∈ content t ↔ '*' ∈ t := by simp [content]
    rw [← hmem, content_map_blank, hmem]
    simp
  have hcontent : content ('(' :: (block ++ [')'])) = content block := by simp
  rw [flattenBlock, removeFirst_singleton]
  simpa only [hstar, content_map_blank, hcontent] using hblank

/-! ## Blocks -/

/-- The ways in which a block wraps a result: the indirection and the returned type that
`(block)` makes of `base`. -/
inductive Unwraps (base block : Text) : Text → Text → Prop
  /-- A marker alone. -/
  | bare (hblock : block = ['*']) : Unwraps base block [] base
  /-- All of the block is indirection, but for its parentheses and its first star. -/
  | flat : Unwraps base block (flattenBlock ('(' :: (block ++ [')']))) base
  /-- Stars stand in front of further arguments. -/
  | sequence {stars rest : Text} (hblock : block = stars ++ '(' :: rest) (hopen : '(' ∉ stars)
      (hstar : '*' ∈ stars) : Unwraps base block (stars.erase '*') (base ++ '(' :: rest)
  /-- A marker stands in front of further arguments. -/
  | nested {front after stars rest : Text} (hblock : block = front ++ marker ++ after)
      (hrest : front ++ after = stars ++ '(' :: rest) (hopen : '(' ∉ stars) :
      Unwraps base block stars (base ++ '(' :: rest)

theorem exists_of_cutAtOpen {stars after : Text} (h : cutAtOpen s = some (stars, after)) :
    ∃ rest, s = stars ++ '(' :: rest ∧ '(' ∉ stars ∧ after = '(' :: rest := by
  by_cases hopen : '(' ∈ s
  · obtain ⟨rest, hrest⟩ := exists_takeWhile_open hopen
    have hnot : '(' ∉ s.takeWhile (· ≠ '(') := fun hmem => by
      simpa using List.mem_takeWhile_imp hmem
    rw [hrest, cutAtOpen_append hnot, Option.some.injEq, Prod.mk.injEq] at h
    exact ⟨rest, by rw [← h.1, ← hrest], h.1 ▸ hnot, h.2.symm⟩
  · rw [cutAtOpen, cut_of_not_mem hopen] at h
    cases h

/-- **A balanced block wraps a result in one of these ways.** -/
theorem unwraps_of_unwrapBlock {base block indirection extended : Text}
    (hbalanced : Balanced block)
    (h : unwrapBlock ('(' :: (block ++ [')'])) base = .ok (indirection, extended)) :
    Unwraps base block indirection extended := by
  rw [unwrapBlock] at h
  cases hshape : BlockShape.ofBlock ('(' :: (block ++ [')'])) with
  | trivialPointer =>
    rw [hshape] at h
    cases h
    have hbare := BlockShape.ofBlock_eq_trivialPointer_iff.1 hshape
    exact .bare (List.append_cancel_right (List.cons.inj hbare).2)
  | arrayOfPointers =>
    rw [hshape] at h
    cases h
    exact .flat
  | deepIndirection =>
    rw [hshape] at h
    cases h
    exact .flat
  | indirectionSequence =>
    rw [hshape, interior_parenthesized] at h
    dsimp only at h
    split at h
    · cases h
    · next stars after hcut =>
      split_ifs at h with hstar
      cases h
      obtain ⟨rest, hblock, hopen, rfl⟩ := exists_of_cutAtOpen hcut
      rw [removeFirst_singleton]
      exact .sequence hblock hopen (by simpa using hstar)
  | nestedFunctionPointer =>
    rw [hshape] at h
    dsimp only at h
    obtain ⟨front, after, hblock, hmarker⟩ := exists_of_nested hbalanced hshape
    rw [interior_removeFirst hmarker] at h
    split at h
    · cases h
    · next stars after' hcut =>
      cases h
      obtain ⟨rest, hrest, hopen, rfl⟩ := exists_of_cutAtOpen hcut
      exact .nested hblock hrest hopen

namespace Unwraps

variable {base block indirection extended : Text}

/-- **Nothing is lost but a star of the block, and nothing is made up.** -/
theorem content (h : Unwraps base block indirection extended) :
    (content (base ++ block)).Perm
      (content (indirection ++ extended) ++ if '*' ∈ block then ['*'] else []) := by
  refine List.perm_iff_count.2 fun c => ?_
  cases h with
  | bare heq => simp [heq]
  | flat =>
    have hcount := (content_flattenBlock block).count_eq c
    simp only [content_append, List.count_append] at hcount ⊢
    omega
  | @sequence stars rest heq hopen hstar =>
    have hcount := (content_erase_star stars).count_eq c
    have hblock : '*' ∈ block := by simp [heq, hstar]
    rw [if_pos hstar] at hcount
    rw [if_pos hblock, heq]
    simp only [content_append, content_open, List.count_append] at hcount ⊢
    omega
  | @nested front after stars rest heq hrest hopen =>
    have hcount := congrArg (fun t => (CSpelling.content t).count c) hrest
    have hmarker : CSpelling.content marker = ['*'] := by decide
    have hblock : '*' ∈ block := by simp [heq, marker]
    rw [if_pos hblock, heq]
    simp only [content_append, content_open, hmarker, List.count_append] at hcount ⊢
    omega

/-- **Parentheses that match each other stay in the returned type.** -/
theorem balanced (h : Unwraps base block indirection extended) (hblock : Balanced block) :
    ('(' ∉ indirection ∧ ')' ∉ indirection) ∧ (Balanced base → Balanced extended) := by
  have hflat : '(' ∉ flattenBlock ('(' :: (block ++ [')'])) ∧
      ')' ∉ flattenBlock ('(' :: (block ++ [')'])) := by
    have hnone {c : Char} (hc : c = '(' ∨ c = ')') :
        c ∉ flattenBlock ('(' :: (block ++ [')'])) := by
      rw [flattenBlock, removeFirst_singleton]
      intro hmem
      obtain ⟨d, -, hd⟩ := List.mem_map.1 (List.mem_of_mem_erase hmem)
      split_ifs at hd with hparen
      · rcases hc with rfl | rfl <;> cases hd
      · exact hparen (hd ▸ hc)
    exact ⟨hnone (.inl rfl), hnone (.inr rfl)⟩
  -- What is moved begins with a parenthesis, and what stands in front of it opens none.
  have hmoved {stars rest : Text} (h : Balanced (stars ++ '(' :: rest)) (hopen : '(' ∉ stars) :
      ('(' ∉ stars ∧ ')' ∉ stars) ∧ (Balanced base → Balanced (base ++ '(' :: rest)) := by
    have hclose := h.not_mem_close hopen
    have hstars : Balanced stars := Balanced.of_forall fun c hc =>
      ⟨ne_of_mem_of_not_mem hc hopen, ne_of_mem_of_not_mem hc hclose⟩
    exact ⟨⟨hopen, hclose⟩, fun hbase => hbase.append (h.of_append_left hstars)⟩
  cases h with
  | bare => exact ⟨by simp, id⟩
  | flat => exact ⟨hflat, id⟩
  | sequence heq hopen hstar =>
    obtain ⟨⟨-, hclose⟩, hbase⟩ := hmoved (heq ▸ hblock) hopen
    exact ⟨⟨fun hmem => hopen (List.mem_of_mem_erase hmem),
      fun hmem => hclose (List.mem_of_mem_erase hmem)⟩, hbase⟩
  | nested heq hrest hopen =>
    have hmarker : Balanced marker := by decide
    rw [heq] at hblock
    exact hmoved (hrest ▸ hblock.remove hmarker) hopen

end Unwraps

/-! ## Split spellings -/

section Group

variable {parts : Parts} {before inner : Text}

/-- Whatever group a spelling ends in, it is the one that is split off. -/
theorem Parts.ofReturns_of_endsInGroup (h : Parts.ofSpelling s = .ok parts)
    (hgroup : EndsInGroup (strip s) before inner) :
    Parts.ofReturns (strip s) (strip before) ('(' :: (inner ++ [')'])) = .ok parts := by
  obtain ⟨-, before', inner', hsplit, hinner, -, hparts⟩ := Parts.ofSpelling_eq_ok_iff.1 h
  obtain ⟨rfl, rfl⟩ := hgroup.unique ⟨hsplit, hinner⟩
  exact hparts

/-- The fields are what stands in the group. -/
theorem Parts.fields_of_endsInGroup (h : Parts.ofSpelling s = .ok parts)
    (hgroup : EndsInGroup (strip s) before inner) :
    marks inner = marks ([','].intercalate parts.fields) ∧ ∀ f ∈ parts.fields, IsField f := by
  have hfields : parts.fields = topFields inner := by
    rcases Parts.ofReturns_eq_ok_iff.1 (Parts.ofReturns_of_endsInGroup h hgroup) with
      ⟨-, rfl⟩ | ⟨_, _, _, _, -, -, -, rfl⟩ <;> rfl
  rw [hfields]
  exact ⟨by rw [topFields, marks_intercalate_strip, intercalate_fieldsWithin],
    fun f hf => isField_of_mem_topFields hgroup.balanced hf⟩

/-- The indirection and the returned type are what stands in front of the group: nothing else, or
what a block makes of what stands in front of the block. -/
theorem Parts.returns_of_endsInGroup (h : Parts.ofSpelling s = .ok parts)
    (hgroup : EndsInGroup (strip s) before inner) :
    (strip before).getLast? ≠ some ')' ∧ parts.indirection = [] ∧
        parts.returns = strip before ∨
      ∃ base block indirection extended, EndsInGroup (strip before) base block ∧
        Unwraps base block indirection extended ∧ parts.indirection = strip indirection ∧
        parts.returns = strip extended := by
  rcases Parts.ofReturns_eq_ok_iff.1 (Parts.ofReturns_of_endsInGroup h hgroup) with
    ⟨hlast, rfl⟩ | ⟨base, block, indirection, extended, hchain, hblock, hunwrap, rfl⟩
  · exact .inl ⟨hlast, rfl, rfl⟩
  · exact .inr ⟨base, block, indirection, extended, ⟨hchain, hblock⟩,
      unwraps_of_unwrapBlock hblock hunwrap, rfl, rfl⟩

end Group

/-- **A split function type holds what the spelling holds.** A spelling that is split ends in a
group. The fields, joined by commas, are what stands in the group, up to white space, and each of
them is balanced and has its commas inside of parentheses. The indirection and the returned type are
made of the characters in front of the group, in some order; only parentheses and white space do not
count, and a star is left out if a block with one stands there. The indirection holds no
parenthesis, and those of the returned type match each other if those of the spelling do. -/
theorem Parts.ofSpelling_conserves {parts : Parts} (h : Parts.ofSpelling s = .ok parts) :
    ∃ before inner, EndsInGroup (strip s) before inner ∧
      (marks inner = marks ([','].intercalate parts.fields) ∧ ∀ f ∈ parts.fields, IsField f) ∧
      ((strip before).getLast? ≠ some ')' ∧
          (content (strip before)).Perm (content (parts.indirection ++ parts.returns)) ∨
        ∃ base block, EndsInGroup (strip before) base block ∧
          (content (strip before)).Perm (content (parts.indirection ++ parts.returns) ++
            if '*' ∈ block then ['*'] else [])) ∧
      ('(' ∉ parts.indirection ∧ ')' ∉ parts.indirection) ∧
      (Balanced s → Balanced parts.returns) := by
  obtain ⟨-, before, inner, hsplit, hinner, -, -⟩ := Parts.ofSpelling_eq_ok_iff.1 h
  have hgroup : EndsInGroup (strip s) before inner := ⟨hsplit, hinner⟩
  have hbefore (hs : Balanced s) : Balanced (strip before) := by
    rw [← Balanced.strip_iff, hsplit] at hs
    exact Balanced.strip_iff.2 (hs.of_append_right hinner.parenthesized)
  refine ⟨before, inner, hgroup, Parts.fields_of_endsInGroup h hgroup, ?_⟩
  rcases Parts.returns_of_endsInGroup h hgroup with
    ⟨hlast, hindirection, hreturns⟩ |
    ⟨base, block, indirection, extended, hblock, hunwraps, hindirection, hreturns⟩
  · rw [hindirection, hreturns]
    exact ⟨.inl ⟨hlast, List.Perm.refl _⟩, by simp, hbefore⟩
  · obtain ⟨⟨hopen, hclose⟩, hextended⟩ := hunwraps.balanced hblock.balanced
    rw [hindirection, hreturns]
    refine ⟨.inr ⟨base, block, hblock, ?_⟩, ?_, fun hs => ?_⟩
    · rw [hblock.split]
      simpa using hunwraps.content
    · exact ⟨fun hmem => hopen (mem_of_mem_strip hmem), fun hmem => hclose (mem_of_mem_strip hmem)⟩
    · have hchain := hblock.split ▸ hbefore hs
      exact Balanced.strip_iff.2
        (hextended (hchain.of_append_right hblock.balanced.parenthesized))

/-- A returned function type in a block of stars and arrays. -/
theorem ofSpelling_conserves_nested :
    ∃ before inner, EndsInGroup (strip "void (*(*)(int *, char *))(void)".toList) before inner ∧
      (marks inner = marks ([','].intercalate ["void".toList]) ∧
        ∀ f ∈ ["void".toList], IsField f) ∧
      ((strip before).getLast? ≠ some ')' ∧
          (content (strip before)).Perm (content ("*".toList ++ "void (int *, char *)".toList)) ∨
        ∃ base block, EndsInGroup (strip before) base block ∧
          (content (strip before)).Perm (content ("*".toList ++ "void (int *, char *)".toList) ++
            if '*' ∈ block then ['*'] else [])) ∧
      ('(' ∉ "*".toList ∧ ')' ∉ "*".toList) ∧
      (Balanced "void (*(*)(int *, char *))(void)".toList →
        Balanced "void (int *, char *)".toList) := by
  have hparts : Parts.ofSpelling "void (*(*)(int *, char *))(void)".toList =
      .ok ⟨"*".toList, ["void".toList], "void (int *, char *)".toList⟩ := by decide +kernel
  exact Parts.ofSpelling_conserves hparts

end CSpelling

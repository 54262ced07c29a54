import CSpelling.Proofs.Fragments

/-!
# Spellings with replaced fragments

The fragments of system headers begin and end in words, and what they are replaced by is a word. A
character that is not put in stood in the text before (`exists_of_replace_eq_append_cons`), so a
normal spelling stays normal (`Reading.isNormal_substitute`). What is put in makes no new fragment
with what stands around it, so nothing is left to be replaced (`Reading.freeOf_substitute`).
-/

namespace CSpelling

open Text CSpelling.Normal

namespace Text

variable {old new part s p r : Text} {c : Char}

/-! ## What stood in the text -/

/-- A character that is not put in cuts the text before as it cuts the text after. -/
theorem exists_of_replace_eq_append_cons (hne : old ≠ []) (hc : c ∉ new)
    (h : replace old new s = p ++ c :: r) :
    ∃ p' r', s = p' ++ c :: r' ∧ replace old new p' = p ∧ replace old new r' = r := by
  induction s using replace_induction hne generalizing p with
  | nil => simp [replace, replaceAfter] at h
  | found rest ih =>
    rw [replace_old_append hne] at h
    rcases List.append_eq_append_iff.1 h with ⟨q, rfl, hrest⟩ | ⟨q, hnew, hrest⟩
    · obtain ⟨p', r', rfl, rfl, hr⟩ := ih hrest
      exact ⟨old ++ p', r', by simp, replace_old_append hne new p', hr⟩
    · cases q with
      | nil =>
        obtain ⟨p', r', rfl, hp, hr⟩ := ih (p := []) hrest.symm
        refine ⟨old ++ p', r', by simp, ?_, hr⟩
        rw [replace_old_append hne, hp, hnew]
        simp
      | cons d q =>
        obtain ⟨rfl, -⟩ := List.cons.inj hrest
        exact absurd (by simp [hnew]) hc
  | cons d rest hnot ih =>
    rw [replace_cons_of_differs hnot] at h
    cases p with
    | nil =>
      obtain ⟨rfl, rfl⟩ := List.cons.inj h
      exact ⟨[], rest, rfl, rfl, rfl⟩
    | cons e p =>
      obtain ⟨rfl, hrest⟩ := List.cons.inj h
      obtain ⟨p', r', rfl, rfl, hr⟩ := ih hrest
      refine ⟨d :: p', r', rfl, replace_cons_of_differs (fun hpre => hnot ?_) new, hr⟩
      exact hpre.trans (List.prefix_append (d :: p') (c :: r'))

theorem replace_eq_nil_iff (hne : old ≠ []) (hnew : new ≠ []) : replace old new s = [] ↔ s = [] := by
  induction s using replace_induction hne with
  | nil => simp [replace, replaceAfter]
  | found rest _ => simp [replace_old_append hne, hnew, hne]
  | cons d rest hnot _ => simp [replace_cons_of_differs hnot]

/-- What is replaced leaves what it is replaced by. -/
theorem infix_replace (hne : old ≠ []) (h : old <:+: s) : new <:+: replace old new s := by
  induction s using replace_induction hne with
  | nil => exact absurd (List.infix_nil.1 h) hne
  | found rest _ =>
    rw [replace_old_append hne]
    exact (List.prefix_append new _).isInfix
  | cons d rest hnot ih =>
    rw [replace_cons_of_differs hnot]
    exact ((List.infix_cons_iff.1 h).resolve_left hnot).elim fun a ha =>
      (ih ⟨a, ha⟩).trans (List.suffix_cons d _).isInfix

theorem replace_of_not_infix_new (hne : old ≠ []) (h : ¬new <:+: replace old new s) :
    replace old new s = s :=
  replace_of_not_infix (mt (infix_replace hne) h) new

theorem replace_concat (hne : old ≠ []) (h : old.getLast? ≠ some c) (new s : Text) :
    replace old new (s ++ [c]) = replace old new s ++ [c] := by
  have hsuffix : ∀ u ≠ [], u <+: [c] → ¬u <:+ old := by
    rintro u hu ⟨v, hv⟩ ⟨front, rfl⟩
    obtain ⟨d, rest, rfl⟩ := List.exists_cons_of_ne_nil hu
    obtain ⟨rfl, hrest⟩ := List.cons.inj hv
    obtain ⟨rfl, -⟩ := List.append_eq_nil_iff.1 hrest
    exact h List.getLast?_concat
  have hone : ¬old <+: [c] := fun hpre => hsuffix old hne hpre List.suffix_rfl
  rw [replace_append hsuffix, replace_cons_of_differs hone]
  rfl

end Text

/-! ## Normal spellings -/

namespace Reading

variable {f : Text × Text} {s u v w : Text} {c : Char}

/-- What a fragment is, as far as its replacement keeps a spelling normal. -/
theorem ends_of_mem_fragments (hf : f ∈ fragments) :
    f.1 ≠ [] ∧ (∀ c ∈ f.1.head?, isWordChar c = true) ∧ (∀ c ∈ f.1.getLast?, isWordChar c = true) ∧
      f.2 ≠ [] ∧ ∀ c ∈ f.2, isWordChar c = true := by
  have all : ∀ f ∈ fragments, f.1 ≠ [] ∧ (∀ c ∈ f.1.head?, isWordChar c = true) ∧
      (∀ c ∈ f.1.getLast?, isWordChar c = true) ∧ f.2 ≠ [] ∧ ∀ c ∈ f.2, isWordChar c = true := by
    decide
  exact all f hf

/-- What is not part of a word stood in the text before. -/
theorem exists_of_replace_split (hf : f ∈ fragments) (hc : isWordChar c = false)
    (h : replace f.1 f.2 s = u ++ c :: v) :
    ∃ u' v', s = u' ++ c :: v' ∧ replace f.1 f.2 u' = u ∧ replace f.1 f.2 v' = v := by
  obtain ⟨hne, -, -, -, hword⟩ := ends_of_mem_fragments hf
  refine exists_of_replace_eq_append_cons hne (fun hmem => ?_) h
  simp [hword c hmem] at hc

theorem replace_snoc (hf : f ∈ fragments) (hc : isWordChar c = false) (s : Text) :
    replace f.1 f.2 (s ++ [c]) = replace f.1 f.2 s ++ [c] := by
  obtain ⟨hne, -, hlast, -⟩ := ends_of_mem_fragments hf
  refine replace_concat hne (fun h => ?_) f.2 s
  simp [hlast c h] at hc

/-- Nothing was put in where nothing but white space stands. -/
theorem eq_of_replace_gap (hf : f ∈ fragments) (hv : IsGap v) (h : replace f.1 f.2 u = v) :
    u = v := by
  obtain ⟨hne, -, -, hnew, hword⟩ := ends_of_mem_fragments hf
  rw [← h, replace_of_not_infix_new hne]
  rw [h]
  intro hin
  obtain ⟨c, rest, hcons⟩ := List.exists_cons_of_ne_nil hnew
  have hmem : c ∈ f.2 := by simp [hcons]
  have hblank := not_isWordChar_of_isBlank (hv c (hin.subset hmem))
  simp [hword c hmem] at hblank

/-- A cut of the text where no word ends comes from such a cut of the text before. -/
theorem exists_before_of_replace (hf : f ∈ fragments) (hu : endsWord u = false)
    (h : replace f.1 f.2 s = u ++ v) :
    ∃ u' v', s = u' ++ v' ∧ endsWord u' = false ∧ replace f.1 f.2 v' = v := by
  rcases List.eq_nil_or_concat u with rfl | ⟨u, c, rfl⟩
  · exact ⟨[], s, rfl, rfl, h⟩
  · have hc : isWordChar c = false := by simpa [endsWord] using hu
    obtain ⟨u', v', rfl, -, hv⟩ := exists_of_replace_split hf hc (by simpa using h)
    exact ⟨u' ++ [c], v', by simp, by simp [endsWord, hc], hv⟩

/-- A cut of the text where no word begins comes from such a cut of the text before. -/
theorem exists_after_of_replace (hf : f ∈ fragments) (hv : startsWord v = false)
    (h : replace f.1 f.2 s = u ++ v) :
    ∃ u' v', s = u' ++ v' ∧ startsWord v' = false ∧ replace f.1 f.2 u' = u := by
  cases v with
  | nil => exact ⟨s, [], by simp, rfl, by simpa using h⟩
  | cons c v =>
    rw [startsWord_cons] at hv
    obtain ⟨u', v', rfl, hu, -⟩ := exists_of_replace_split hf hv h
    exact ⟨u', c :: v', rfl, by rw [startsWord_cons, hv], hu⟩

/-- No qualifier is put in. -/
theorem not_standsAlone_replace (hf : f ∈ fragments) (hw : w ∈ qualifiers)
    (h : ¬StandsAlone w s) : ¬StandsAlone w (replace f.1 f.2 s) := by
  rintro ⟨before, after, hsplit, hbefore, hafter⟩
  have hnot : ∀ f ∈ fragments, ∀ w ∈ qualifiers, ¬f.2 <:+: w := by decide
  rw [List.append_assoc] at hsplit
  obtain ⟨before', rest, rfl, hbefore', hrest⟩ := exists_before_of_replace hf hbefore hsplit
  obtain ⟨word, after', rfl, hafter', hword⟩ := exists_after_of_replace hf hafter hrest
  have heq : word = w := by
    rw [← hword, replace_of_not_infix_new (ends_of_mem_fragments hf).1]
    rw [hword]
    exact hnot f hf w hw
  exact h ⟨before', after', by rw [heq, List.append_assoc], hbefore', hafter'⟩

/-- What stands in front of a character that is not put in, if that is no part of a word, is what
stood there before. -/
theorem exists_front_of_replace (hf : f ∈ fragments) {d : Char} (hd : isWordChar d = false)
    (h : replace f.1 f.2 s = u ++ c :: d :: v) :
    ∃ u' e v', s = u' ++ e :: d :: v' ∧ replace f.1 f.2 v' = v ∧
      (isWordChar e = false → e = c ∧ replace f.1 f.2 u' = u) := by
  obtain ⟨front, v', rfl, hfront, hv⟩ := exists_of_replace_split (u := u ++ [c]) hf hd
    (by simpa using h)
  rcases List.eq_nil_or_concat front with rfl | ⟨u', e, rfl⟩
  · simp [replace, replaceAfter] at hfront
  · refine ⟨u', e, v', by simp, hv, fun he => ?_⟩
    rw [List.concat_eq_append, replace_snoc hf he] at hfront
    obtain ⟨hu, hlast⟩ := List.append_inj' hfront rfl
    exact ⟨(List.cons.inj hlast).1, hu⟩

theorem trimmed_replace (hf : f ∈ fragments) (h : Trimmed s) : Trimmed (replace f.1 f.2 s) := by
  obtain ⟨hne, -, -, hnew, -⟩ := ends_of_mem_fragments hf
  refine ⟨fun c hc => ?_, fun c hc => ?_⟩
  · rw [Bool.eq_false_iff]
    intro hblank
    obtain ⟨rest, hrest⟩ := List.head?_eq_some_iff.1 hc
    obtain ⟨front, after, rfl, hfront, -⟩ :=
      exists_of_replace_split (u := []) hf (not_isWordChar_of_isBlank hblank) hrest
    obtain rfl := (replace_eq_nil_iff hne hnew).1 hfront
    simp [h.start c rfl] at hblank
  · rw [Bool.eq_false_iff]
    intro hblank
    obtain ⟨front, hfront⟩ := List.getLast?_eq_some_iff.1 hc
    obtain ⟨front', after, rfl, -, hafter⟩ :=
      exists_of_replace_split hf (not_isWordChar_of_isBlank hblank) hfront
    obtain rfl := (replace_eq_nil_iff hne hnew).1 hafter
    simp [h.finish c (by simp)] at hblank

/-- **A normal spelling stays normal without the fragments.** -/
theorem isNormal_replace (hf : f ∈ fragments) (h : IsNormal s) : IsNormal (replace f.1 f.2 s) where
  trimmed := trimmed_replace hf h.trimmed
  controls := by
    rw [← forall_controls_iff]
    intro c hc
    rcases mem_of_mem_replaceAfter hc with hc | hc
    · exact forall_controls_iff.2 h.controls c hc
    · exact isControl_of_isWordChar ((ends_of_mem_fragments hf).2.2.2.2 c hc)
  words w hw := not_standsAlone_replace hf hw (h.words w hw)
  spaces before after hsplit := by
    obtain ⟨front, rest, rfl, -, hrest⟩ := exists_of_replace_split hf (by decide) hsplit
    obtain ⟨gap, last, rfl, hgap, -⟩ := exists_of_replace_split (u := []) hf (by decide) hrest
    obtain rfl := eq_of_replace_gap hf isGap_nil hgap
    exact h.spaces front last rfl
  stars before c after hsplit := by
    obtain ⟨front, e, rest, rfl, hrest, heq⟩ := exists_front_of_replace hf (by decide) hsplit
    rcases h.stars front e rest rfl with rfl | rfl | ⟨rfl, hclose⟩
    · exact .inl (heq (by decide)).1.symm
    · exact .inr (.inl (heq (by decide)).1.symm)
    · obtain ⟨last, rfl⟩ := List.head?_eq_some_iff.1 hclose
      refine .inr (.inr ⟨(heq (by decide)).1.symm, ?_⟩)
      obtain ⟨hne, hstart, -⟩ := ends_of_mem_fragments hf
      rw [← hrest, replace_cons hne fun hhead => absurd (hstart _ hhead) (by decide)]
      rfl
  runs before gap after hsplit hgap := by
    obtain ⟨front, rest, rfl, -, hrest⟩ := exists_of_replace_split hf (by decide) hsplit
    obtain ⟨gap', last, rfl, hgap', -⟩ := exists_of_replace_split hf (by decide) hrest
    obtain rfl := eq_of_replace_gap hf hgap hgap'
    exact h.runs front gap' last rfl hgap
  brackets before c after hsplit := by
    obtain ⟨front, e, rest, rfl, -, heq⟩ := exists_front_of_replace hf (by decide) hsplit
    rcases h.brackets front e rest rfl with rfl | ⟨rfl, hclose⟩
    · exact .inl (heq (by decide)).1.symm
    · obtain ⟨rfl, hfront⟩ := heq (by decide)
      refine .inr ⟨rfl, fun hlast => hclose ?_⟩
      obtain ⟨start, rfl⟩ := List.getLast?_eq_some_iff.1 hlast
      obtain ⟨start', after', rfl, -, hafter⟩ := exists_of_replace_split hf (by decide) hfront
      rw [eq_of_replace_gap hf isGap_nil hafter]
      simp
  markers before u v after hsplit hu hv := by
    obtain ⟨front, rest, rfl, -, hrest⟩ := exists_of_replace_split hf (by decide) hsplit
    obtain ⟨u', rest', rfl, hu', hrest'⟩ := exists_of_replace_split hf (by decide) hrest
    obtain ⟨v', last, rfl, hv', -⟩ := exists_of_replace_split hf (by decide) hrest'
    obtain rfl := eq_of_replace_gap hf hu hu'
    obtain rfl := eq_of_replace_gap hf hv hv'
    exact h.markers front u' v' last rfl hu hv

theorem isNormal_substitute (h : IsNormal s) : IsNormal (substitute s) :=
  substitute_induction (fun _ hf _ ht => isNormal_replace hf ht) h

end Reading

/-! ## Nothing is left -/

namespace Text

/-- Where nothing that is put in begins, the text begins as before. -/
theorem prefix_of_prefix_replace (hne : old ≠ []) {q : Text} (hc : c ∉ q)
    (h : q <+: replace old (c :: new) s) : q <+: s := by
  induction s using replace_induction hne generalizing q with
  | nil => exact h
  | found rest _ =>
    cases q with
    | nil => exact List.nil_prefix
    | cons d q =>
      rw [replace_old_append hne] at h
      obtain ⟨rfl, -⟩ := List.cons_prefix_cons.1 h
      exact absurd List.mem_cons_self hc
  | cons d rest hnot ih =>
    cases q with
    | nil => exact List.nil_prefix
    | cons e q =>
      rw [replace_cons_of_differs hnot] at h
      obtain ⟨rfl, hrest⟩ := List.cons_prefix_cons.1 h
      exact List.cons_prefix_cons.2 ⟨rfl, ih (fun hmem => hc (List.mem_cons_of_mem _ hmem)) hrest⟩

/-- A text does not come up by a replacement that it neither begins with nor goes across, and the
text that is replaced is gone. -/
theorem not_infix_replace (hne : old ≠ []) (hc : c ∉ part) (hnew : ∀ d ∈ new, part.head? ≠ some d)
    (h : part = old ∨ ¬part <:+: s) (hpart : part ≠ []) : ¬part <:+: replace old (c :: new) s := by
  induction s using replace_induction hne with
  | nil =>
    intro hin
    exact hpart (List.infix_nil.1 hin)
  | found rest ih =>
    rw [replace_old_append hne]
    have hrest := ih (h.imp_right fun hnot hin =>
      hnot (hin.trans (List.suffix_append old rest).isInfix))
    have hback (p : Text) (hp : ∀ d ∈ p, part.head? ≠ some d) :
        ¬part <:+: p ++ replace old (c :: new) rest := by
      induction p with
      | nil => exact hrest
      | cons d p ihp =>
        exact not_infix_cons (hp d (by simp)) (ihp fun e he => hp e (List.mem_cons_of_mem _ he))
    refine hback (c :: new) fun d hd => ?_
    rcases List.mem_cons.1 hd with rfl | hd
    · exact fun hhead => hc (List.mem_of_head? hhead)
    · exact hnew d hd
  | cons d rest hnot ih =>
    rw [replace_cons_of_differs hnot]
    intro hin
    rcases List.infix_cons_iff.1 hin with hpre | hrest
    · -- What begins here began here before.
      rw [← replace_cons_of_differs hnot] at hpre
      have hbefore := prefix_of_prefix_replace hne hc hpre
      rcases h with rfl | hnone
      · exact hnot hbefore
      · exact hnone hbefore.isInfix
    · exact ih (h.imp_right fun hnone hin => hnone (hin.trans (List.suffix_cons d rest).isInfix))
        hrest

end Text

namespace Reading

variable {s part : Text}

theorem not_infix_substitute (hpart : part ∈ systemTexts)
    (h : part ∈ fragments.map Prod.fst ∨ ¬part <:+: s) : ¬part <:+: substitute s := by
  have all : ∀ f ∈ fragments, ∀ part ∈ systemTexts, f.1 ≠ [] ∧ f.2 = 'i' :: ['n', 't'] ∧
      'i' ∉ part ∧ (∀ d ∈ ['n', 't'], part.head? ≠ some d) ∧ part ≠ [] := by decide
  unfold substitute
  revert all h
  induction fragments generalizing s with
  | nil =>
    intro h _
    simpa using h
  | cons f fs ih =>
    intro h all
    obtain ⟨hne, hnew, hi, hhead, hpartne⟩ := all f (by simp) part hpart
    have hgone (h : part = f.1 ∨ ¬part <:+: s) : ¬part <:+: replace f.1 f.2 s := by
      rw [hnew]
      exact not_infix_replace hne hi hhead h hpartne
    rw [List.map_cons, List.mem_cons, or_assoc] at h
    rw [List.foldl_cons]
    refine ih ?_ fun g hg => all g (by simp [hg])
    rcases h with heq | hmem | hnone
    · exact .inr (hgone (.inl heq))
    · exact .inl hmem
    · exact .inr (hgone (.inr hnone))

/-- **No fragment is left to be replaced.** -/
theorem freeOf_substitute (h : ¬localeStruct <:+: s) : FreeOf (substitute s) := by
  intro part hpart
  refine not_infix_substitute hpart ?_
  rcases List.mem_cons.1 hpart with rfl | hmem
  · exact .inr h
  · exact .inl hmem

end Reading

end CSpelling

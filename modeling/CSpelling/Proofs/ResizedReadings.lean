import CSpelling.Proofs.Resizing

/-!
# Readings with other array sizes

Texts that differ in array sizes alone hold the same fragments, names and marks, so they are read
alike: `resized_ofSpelling` says that the readings are `ResizedReading`s of each other. An array
with sizes is read as the same dimensions and element (`resized_sizedArray?`).
-/

namespace CSpelling

open Text CSpelling.Normal CSpelling.Decorations

variable {c d : Char} {part old s t u m n : Text}

/-! ## Searching -/

/-- The same is found by a search that goes past sizes. -/
theorem Resized.infix_iff (hne : part ≠ []) (hpart : ∀ c ∈ part, isSizeChar c = false)
    (h : Resized s t) : part <:+: s ↔ part <:+: t := by
  have hone {s t : Text} (h : Resized s t) (hin : part <:+: s) : part <:+: t := by
    obtain ⟨a, b, rfl⟩ := hin
    obtain ⟨d, p, rfl⟩ := List.exists_cons_of_ne_nil hne
    obtain ⟨a', rest, rfl, -, hrest⟩ :=
      Resized.split (v := p ++ b) (hpart d (by simp)) (by simpa using h)
    obtain ⟨b', rfl, -⟩ := hrest.append_inv fun hmem =>
      absurd (hpart _ (List.mem_cons_of_mem _ hmem)) (by decide)
    exact ⟨a', b', by simp⟩
  exact ⟨hone h, hone h.symm⟩

theorem resized_dropStart? {start : Text} (hstart : '[' ∉ start) (h : Resized s t) :
    Option.Rel Resized (dropStart? start s) (dropStart? start t) := by
  cases hs : dropStart? start s with
  | some rest =>
    obtain ⟨rest', rfl, hrest⟩ := (dropStart?_eq_some_iff.1 hs ▸ h).append_inv hstart
    rw [dropStart?_eq_some_iff.2 rfl]
    exact .some hrest
  | none =>
    cases ht : dropStart? start t with
    | none => exact .none
    | some rest =>
      obtain ⟨rest', rfl, -⟩ := (dropStart?_eq_some_iff.1 ht ▸ h.symm).append_inv hstart
      rw [dropStart?_eq_some_iff.2 rfl] at hs
      cases hs

/-- Both texts are cut at the same place. -/
theorem resized_cut (hne : part ≠ []) (hpart : ∀ c ∈ part, isSizeChar c = false)
    (h : Resized s t) : Option.Rel (fun x y => Resized x.1 y.1 ∧ Resized x.2 y.2)
      (cut part s) (cut part t) := by
  have hopen : '[' ∉ part := fun hmem => absurd (hpart _ hmem) (by decide)
  induction h with
  | nil => exact .none
  | @cons c s t h ih =>
    have hstart := resized_dropStart? hopen (.cons c h)
    rw [cut, cut]
    generalize dropStart? part (c :: s) = x, dropStart? part (c :: t) = y at hstart
    cases hstart with
    | some hafter => exact .some ⟨.nil, hafter⟩
    | none =>
      generalize cut part s = x, cut part t = y at ih
      cases ih with
      | none => exact .none
      | some hhalves => exact .some ⟨.cons c hhalves.1, hhalves.2⟩
  | @size m n s t hm hn _ ih =>
    obtain ⟨d, p, rfl⟩ := List.exists_cons_of_ne_nil hne
    have hgroup {m : Text} (hm : IsSize m) (s : Text) : cut (d :: p) ('[' :: (m ++ ']' :: s)) =
        (cut (d :: p) s).map fun halves => ('[' :: (m ++ ']' :: halves.1), halves.2) := by
      have hskip : cut (d :: p) ('[' :: (m ++ [']']) ++ s) = _ :=
        cut_append_of_not_mem (hm.not_mem_group (hpart d (by simp))) s
      simpa using hskip
    rw [hgroup hm, hgroup hn]
    generalize cut (d :: p) s = x, cut (d :: p) t = y at ih
    cases ih with
    | none => exact .none
    | some hhalves => exact .some ⟨.size hm hn hhalves.1, hhalves.2⟩

theorem resized_removeFirst (hne : part ≠ []) (hpart : ∀ c ∈ part, isSizeChar c = false)
    (h : Resized s t) : Resized (removeFirst part s) (removeFirst part t) := by
  have hcut := resized_cut hne hpart h
  unfold removeFirst
  generalize cut part s = x, cut part t = y at hcut
  cases hcut with
  | none => exact h
  | some hhalves => exact hhalves.1.append hhalves.2

/-! ## Replacing -/

theorem resized_replace (hne : old ≠ []) (hold : ∀ c ∈ old, isSizeChar c = false) (new : Text)
    (h : Resized s t) : Resized (replace old new s) (replace old new t) := by
  have hopen : '[' ∉ old := fun hmem => absurd (hold _ hmem) (by decide)
  induction hlength : s.length using Nat.strong_induction_on generalizing s t with
  | _ length ih =>
  cases h with
  | nil => exact .nil
  | @cons c s t h =>
    by_cases hpre : old <+: c :: s
    · obtain ⟨rest, hrest⟩ := hpre
      obtain ⟨rest', hrest', hboth⟩ := (hrest.symm ▸ Resized.cons c h).append_inv hopen
      have hshorter : rest.length < length := by
        rw [← hlength, ← hrest, List.length_append]
        exact Nat.lt_add_of_pos_left (List.length_pos_iff.2 hne)
      rw [← hrest, hrest', replace_old_append hne, replace_old_append hne]
      exact (Resized.refl new).append (ih _ hshorter hboth rfl)
    · have hpre' : ¬old <+: c :: t := by
        rintro ⟨rest, hrest⟩
        obtain ⟨rest', hrest', -⟩ := (hrest.symm ▸ (Resized.cons c h).symm).append_inv hopen
        exact hpre ⟨rest', hrest'.symm⟩
      rw [replace_cons_of_differs hpre, replace_cons_of_differs hpre']
      exact .cons c (ih _ (by simp [← hlength]) h rfl)
  | @size m n s t hm hn h =>
    have hpast (c : Char) (hc : isSizeChar c = true) (s : Text) :
        replace old new (c :: s) = c :: replace old new s :=
      replace_cons hne (fun hhead => by simp [hold c (List.mem_of_head? hhead)] at hc) new s
    rw [hm.map_group hpast, hn.map_group hpast]
    exact .size hm hn (ih _ (by simp [← hlength]; omega) h rfl)

theorem resized_substitute (h : Resized s t) :
    Resized (Reading.substitute s) (Reading.substitute t) := by
  have hall : ∀ f ∈ fragments, f.1 ≠ [] ∧ ∀ c ∈ f.1, isSizeChar c = false := by decide
  unfold Reading.substitute
  revert hall
  induction fragments generalizing s t with
  | nil => exact fun _ => h
  | cons f fs ih =>
    intro hall
    obtain ⟨hne, hplain⟩ := hall f (by simp)
    exact ih (resized_replace hne hplain f.2 h) fun g hg => hall g (by simp [hg])

theorem Resized.isFunction_eq (h : Resized s t) : isFunction s = isFunction t := by
  have hreplace : Resized (replace marker [] s) (replace marker [] t) :=
    resized_replace (by decide) (by decide) [] h
  have hmem := hreplace.mem_iff (d := '(') (by decide)
  rw [isFunction, isFunction, Bool.eq_iff_iff, List.contains_iff_mem, List.contains_iff_mem, hmem]

/-! ## Arrays -/

theorem groupDigits?_eq_some_iff {digits : Text} : groupDigits? s = some digits ↔
    digits ≠ [] ∧ (∀ c ∈ digits, isDecimal c = true) ∧
      ∃ rest, s = '[' :: (digits ++ ']' :: rest) := by
  constructor
  · intro h
    unfold groupDigits? at h
    split at h
    · next rest =>
      dsimp only at h
      split_ifs at h with hgroup
      obtain rfl := Option.some.inj h
      obtain ⟨hne, hclose⟩ := (Bool.and_eq_true _ _).mp hgroup
      obtain ⟨after, hafter⟩ := List.head?_eq_some_iff.1 (of_decide_eq_true hclose)
      obtain ⟨w, hw⟩ := List.takeWhile_prefix (p := isDecimal) (l := rest)
      have hdrop : rest.drop (rest.takeWhile isDecimal).length = w := by
        have h : (rest.takeWhile isDecimal ++ w).drop (rest.takeWhile isDecimal).length = w :=
          List.drop_left
        rwa [hw] at h
      refine ⟨by simpa using hne, fun c hc => List.mem_takeWhile_imp hc, after, ?_⟩
      rw [← hafter, hdrop, hw]
    · cases h
  · rintro ⟨hne, hall, rest, rfl⟩
    have htake : (digits ++ ']' :: rest).takeWhile isDecimal = digits := by
      rw [List.takeWhile_append_of_pos hall, List.takeWhile_cons_of_neg (by decide),
        List.append_nil]
    rw [groupDigits?, htake, List.drop_left]
    simp [hne]

theorem sizeGroups_of_some {digits rest : Text}
    (h : groupDigits? ('[' :: (digits ++ ']' :: rest)) = some digits) :
    sizeGroups ('[' :: (digits ++ ']' :: rest)) = '[' :: (digits ++ ']' :: sizeGroups rest) := by
  have hrest := sizeGroupsAfter_append (digits ++ [']']) rest
  rw [List.length_append] at hrest
  rw [sizeGroups, sizeGroupsAfter, h]
  simpa using hrest

theorem sizeGroups_of_none (h : groupDigits? s = none) : sizeGroups s = [] := by
  cases s with
  | nil => rfl
  | cons c rest => rw [sizeGroups, sizeGroupsAfter, h]

theorem IsSize.groupDigits? (hm : IsSize m) (s : Text) :
    groupDigits? ('[' :: (m ++ ']' :: s)) = some m := by
  refine groupDigits?_eq_some_iff.2 ⟨hm.ne_nil, fun c hc => ?_, s, rfl⟩
  exact of_isDigit (P := fun c => isDecimal c = true) (by decide) (hm.digits c hc)

/-- A size group is a size group in both. -/
theorem Resized.exists_group (h : Resized s t) {digits : Text}
    (hs : groupDigits? s = some digits) :
    ∃ digits' rest rest', s = '[' :: (digits ++ ']' :: rest) ∧
      t = '[' :: (digits' ++ ']' :: rest') ∧ groupDigits? t = some digits' ∧ Resized rest rest' ∧
      ∀ u v, Resized u v → Resized ('[' :: (digits ++ ']' :: u)) ('[' :: (digits' ++ ']' :: v)) := by
  cases h with
  | nil => cases hs
  | @cons c s t h =>
    obtain ⟨hne, hall, rest, hsplit⟩ := groupDigits?_eq_some_iff.1 hs
    obtain ⟨rfl, rfl⟩ := List.cons.inj hsplit
    have hopen : '[' ∉ digits ++ [']'] := by
      have hnot : '[' ∉ digits := fun hmem => absurd (hall _ hmem) (by decide +kernel)
      simpa using hnot
    obtain ⟨rest', rfl, hrest⟩ := Resized.append_inv (s := rest) hopen (by simpa using h)
    refine ⟨digits, rest, rest', rfl, by simp, ?_, hrest, fun u v huv => ?_⟩
    · exact groupDigits?_eq_some_iff.2 ⟨hne, hall, rest', by simp⟩
    · exact .cons _ ((Resized.refl digits).append (.cons _ huv))
  | @size m n s t hm hn h =>
    obtain rfl := Option.some.inj (hs.symm.trans (hm.groupDigits? s))
    exact ⟨n, s, t, rfl, rfl, hn.groupDigits? t, h, fun _ _ huv => .size hm hn huv⟩

theorem resized_sizeGroups (h : Resized s t) : Resized (sizeGroups s) (sizeGroups t) := by
  induction hlength : s.length using Nat.strong_induction_on generalizing s t with
  | _ length ih =>
  cases hs : groupDigits? s with
  | some digits =>
    obtain ⟨digits', rest, rest', rfl, rfl, ht, hrest, hgroup⟩ := h.exists_group hs
    rw [sizeGroups_of_some hs, sizeGroups_of_some ht]
    exact hgroup _ _ (ih _ (by simp [← hlength]; omega) hrest rfl)
  | none =>
    have ht : groupDigits? t = none := by
      by_contra hne
      obtain ⟨digits, ht⟩ := Option.ne_none_iff_exists'.1 hne
      obtain ⟨_, _, _, -, -, hs', -⟩ := h.symm.exists_group ht
      rw [hs] at hs'
      cases hs'
    rw [sizeGroups_of_none hs, sizeGroups_of_none ht]
    exact .nil

theorem Resized.dimensions_eq (h : Resized s t) :
    Reading.dimensions s = Reading.dimensions t :=
  h.filter_eq fun c hc => by rw [hc]; rfl

theorem sizedArray?_cons_of_not (h : Reading.isElementChar c = false) (s : Text) :
    Reading.sizedArray? (c :: s) = Reading.sizedArray? s := by
  rw [Reading.sizedArray?, h, Bool.false_and, if_neg (by decide)]

/-- No array has its element in a size. -/
theorem IsSize.sizedArray? (hm : IsSize m) (s : Text) :
    Reading.sizedArray? ('[' :: (m ++ ']' :: s)) = Reading.sizedArray? s := by
  have hdigits (m : Text) (hm : ∀ c ∈ m, c.isDigit = true) :
      Reading.sizedArray? (m ++ ']' :: s) = Reading.sizedArray? (']' :: s) := by
    induction m with
    | nil => rfl
    | cons c rest ih =>
      have helement : ∀ d ∈ c :: rest, Reading.isElementChar d = true := fun d hd =>
        of_isDigit (P := fun c => Reading.isElementChar c = true) (by decide +kernel) (hm d hd)
      have hdrop : (c :: (rest ++ ']' :: s)).dropWhile Reading.isElementChar = ']' :: s := by
        rw [← List.cons_append, List.dropWhile_append_of_pos helement,
          List.dropWhile_cons_of_neg (by decide)]
      have hgroups : sizeGroups (']' :: s) = [] := sizeGroups_of_none rfl
      rw [List.cons_append, Reading.sizedArray?, hdrop, hgroups,
        ← ih fun d hd => hm d (List.mem_cons_of_mem _ hd)]
      simp
  rw [sizedArray?_cons_of_not (by decide), hdigits m hm.digits,
    sizedArray?_cons_of_not (by decide)]

/-- **The same array is read, whatever its sizes are.** -/
theorem resized_sizedArray? (h : Resized s t) : Option.Rel
    (fun x y => x.1 = y.1 ∧ Reading.dimensions x.2 = Reading.dimensions y.2)
    (Reading.sizedArray? s) (Reading.sizedArray? t) := by
  have hbracket : Reading.isElementChar '[' = false := by decide
  induction h with
  | nil => exact .none
  | @cons c s t h ih =>
    have hgroups := resized_sizeGroups ((Resized.cons c h).dropWhile hbracket)
    have hempty : (sizeGroups ((c :: s).dropWhile Reading.isElementChar)).isEmpty =
        (sizeGroups ((c :: t).dropWhile Reading.isElementChar)).isEmpty := hgroups.isEmpty_eq
    rw [Reading.sizedArray?, Reading.sizedArray?, hempty]
    split
    · exact .some ⟨(Resized.cons c h).takeWhile hbracket, hgroups.dimensions_eq⟩
    · exact ih
  | size hm hn _ ih => rwa [hm.sizedArray?, hn.sizedArray?]

/-! ## Function types without a reading -/

/-- A search along the text, which looks at what follows a character that may end a returned type,
finds nothing at sizes. -/
theorem resized_search {f g : Text → Bool}
    (hf : ∀ c s, f (c :: s) = (Reading.isReturnChar c && g s || f s))
    (hg : ∀ c s, isSizeChar c = true → g (c :: s) = false)
    (hcongr : ∀ s t, Resized s t → g s = g t) (h : Resized s t) : f s = f t := by
  have hgroup {m : Text} (hm : IsSize m) (s : Text) : f ('[' :: (m ++ ']' :: s)) = f s := by
    have hdigits (m : Text) (hm : ∀ c ∈ m, c.isDigit = true) : f (m ++ ']' :: s) = f s := by
      induction m with
      | nil =>
        rw [List.nil_append, hf, show Reading.isReturnChar ']' = false by decide]
        rfl
      | cons c rest ih =>
        have hnext : g (rest ++ ']' :: s) = false := by
          cases rest with
          | nil => exact hg _ _ (by decide)
          | cons d tail => exact hg _ _ (by simp [isSizeChar, hm d])
        rw [List.cons_append, hf, hnext, Bool.and_false, Bool.false_or,
          ih fun d hd => hm d (List.mem_cons_of_mem _ hd)]
    rw [hf, show Reading.isReturnChar '[' = false by decide, Bool.false_and, Bool.false_or,
      hdigits m hm.digits]
  induction h with
  | nil => rfl
  | @cons c s t h ih => rw [hf, hf, hcongr s t h, ih]
  | size hm hn _ ih => rw [hgroup hm, hgroup hn, ih]

theorem resized_hasFunctionPointer (h : Resized s t) :
    Reading.hasFunctionPointer s = Reading.hasFunctionPointer t := by
  refine resized_search (fun _ _ => rfl) (fun c s hc => ?_) (fun s t h => ?_) h
  · rw [dropStart?_cons_of_ne (by rintro rfl; cases hc)]
  · have hstart : Option.Rel Resized (dropStart? ['(', '*'] s) (dropStart? ['(', '*'] t) :=
      resized_dropStart? (by decide) h
    generalize dropStart? ['(', '*'] s = x, dropStart? ['(', '*'] t = y at hstart
    cases hstart with
    | none => rfl
    | @some after after' hafter =>
      have hcut : Option.Rel _ (cut [')', '('] after) (cut [')', '('] after') :=
        resized_cut (by decide) (by decide) hafter
      dsimp only
      generalize cut [')', '('] after = x, cut [')', '('] after' = y at hcut
      cases hcut with
      | none => rfl
      | some hhalves =>
        rw [Bool.eq_iff_iff, List.contains_iff_mem, List.contains_iff_mem,
          hhalves.2.mem_iff (by decide)]

theorem resized_hasFunctionType (h : Resized s t) :
    Reading.hasFunctionType s = Reading.hasFunctionType t := by
  refine resized_search (fun _ _ => rfl) (fun c s hc => ?_) (fun s t h => ?_) h
  · rw [dropStart?_cons_of_ne (by rintro rfl; cases hc)]
  · have hstart : Option.Rel Resized (dropStart? [' ', '('] s) (dropStart? [' ', '('] t) :=
      resized_dropStart? (by decide) h
    generalize dropStart? [' ', '('] s = x, dropStart? [' ', '('] t = y at hstart
    cases hstart with
    | none => rfl
    | some hafter =>
      dsimp only
      rw [Bool.eq_iff_iff, List.contains_iff_mem, List.contains_iff_mem, hafter.mem_iff (by decide)]

/-! ## Readings -/

/-- The readings differ in array sizes alone. -/
inductive ResizedReading : Reading → Reading → Prop
  /-- They stand for descriptors. -/
  | descriptor {d d' : Text} : Resized d d' → ResizedReading (.descriptor d) (.descriptor d')
  /-- They are function types. -/
  | function {s s' : Text} : Resized s s' → ResizedReading (.function s) (.function s')
  /-- They are pointers. -/
  | pointer {p p' : Text} : Resized p p' → ResizedReading (.pointer p) (.pointer p')
  /-- They are arrays of the same dimensions. -/
  | array (dimensions : Text) {e e' : Text} : Resized e e' →
      ResizedReading (.array dimensions e) (.array dimensions e')
  /-- They are rejected for the same cause. -/
  | rejected (cause : Cause) (s s' : Text) :
      ResizedReading (.rejected cause s) (.rejected cause s')
  /-- They are the same. -/
  | same (r : Reading) : ResizedReading r r

theorem resized_afterKeyword? {keywords : List Text} (hkeywords : ∀ k ∈ keywords, '[' ∉ k)
    (h : Resized s t) :
    Option.Rel Resized (afterKeyword? keywords s) (afterKeyword? keywords t) := by
  induction keywords with
  | nil => exact .none
  | cons k rest ih =>
    have hstart := resized_dropStart? (hkeywords k (by simp)) h
    have ih := ih fun k hk => hkeywords k (List.mem_cons_of_mem _ hk)
    unfold afterKeyword? at ih ⊢
    rw [List.findSome?_cons, List.findSome?_cons]
    generalize dropStart? k s = x, dropStart? k t = y at hstart
    cases hstart with
    | none => exact ih
    | some hafter => exact .some hafter

theorem resized_dropEnd? (h : Resized s t) : Option.Rel Resized
    (dropEnd? Reading.unsizedEnd s) (dropEnd? Reading.unsizedEnd t) := by
  have hone {s t before : Text} (h : Resized s t) (hs : s = before ++ Reading.unsizedEnd) :
      ∃ before', t = before' ++ Reading.unsizedEnd ∧ Resized before before' := by
    subst hs
    obtain ⟨before', rest, rfl, hbefore, hrest⟩ := h.split (d := ' ') (v := ['[', ']']) (by decide)
    -- An empty pair of brackets is no size.
    have hunsized : rest = ['[', ']'] := by
      generalize hu : ['[', ']'] = u at hrest
      cases hrest with
      | nil => cases hu
      | cons _ h =>
        obtain ⟨rfl, rfl⟩ := List.cons.inj hu
        obtain ⟨after, rfl, hafter⟩ := h.cons_inv (by decide)
        cases hafter
        rfl
      | @size m _ _ _ hm =>
        have hlength := congrArg List.length (List.cons.inj hu).2
        have hpos := List.length_pos_iff.2 hm.ne_nil
        simp only [List.length_append, List.length_cons, List.length_nil] at hlength
        omega
    exact ⟨before', by rw [hunsized]; rfl, hbefore⟩
  cases hs : dropEnd? Reading.unsizedEnd s with
  | some before =>
    obtain ⟨before', ht, hbefore⟩ := hone h (dropEnd?_eq_some_iff.1 hs)
    rw [dropEnd?_eq_some_iff.2 ht]
    exact .some hbefore
  | none =>
    cases ht : dropEnd? Reading.unsizedEnd t with
    | none => exact .none
    | some before =>
      obtain ⟨before', hs', -⟩ := hone h.symm (dropEnd?_eq_some_iff.1 ht)
      rw [dropEnd?_eq_some_iff.2 hs'] at hs
      cases hs

/-- **Texts that differ in array sizes are read alike by their form.** -/
theorem resized_ofForm (h : Resized s t) :
    ResizedReading (Reading.ofForm s) (Reading.ofForm t) := by
  have hparens : Resized (Reading.withoutParens s) (Reading.withoutParens t) :=
    h.filter fun c hc => of_isSizeChar (P := fun c => (c ≠ '(' && c ≠ ')') = true) (by decide) hc
  have hsized := resized_sizedArray? hparens
  have hkeyword : Option.Rel Resized (afterKeyword? [structKeyword, unionKeyword, enumKeyword] s)
      (afterKeyword? [structKeyword, unionKeyword, enumKeyword] t) :=
    resized_afterKeyword? (by decide) h
  have hunion : occurs Reading.anonymousUnionWords s = occurs Reading.anonymousUnionWords t := by
    have hne : Reading.anonymousUnionWords ≠ [] := by decide
    rw [Bool.eq_iff_iff, occurs_iff hne, occurs_iff hne, h.infix_iff hne (by decide)]
  have hunsized := resized_dropEnd? h
  by_cases hstar : s.getLast? = some '*'
  · rw [Reading.ofForm, Reading.ofForm, if_pos hstar, if_pos (h.getLast? ▸ hstar)]
    obtain ⟨before, rfl⟩ := List.getLast?_eq_some_iff.1 hstar
    obtain ⟨before', rfl, hbefore⟩ := h.append_inv_right (b := ['*']) (by decide)
    rw [List.dropLast_concat, List.dropLast_concat]
    exact .pointer (resized_strip hbefore)
  have hstar' : t.getLast? ≠ some '*' := h.getLast? ▸ hstar
  rw [Reading.ofForm, if_neg hstar, Reading.ofForm, if_neg hstar']
  generalize Reading.sizedArray? (Reading.withoutParens s) = x,
    Reading.sizedArray? (Reading.withoutParens t) = y at hsized
  cases hsized with
  | @some a b hab =>
    obtain ⟨element, groups⟩ := a
    obtain ⟨element', groups'⟩ := b
    obtain ⟨rfl, hdimensions⟩ := hab
    dsimp only at hdimensions ⊢
    rw [hdimensions]
    exact .same _
  | none =>
  generalize afterKeyword? [structKeyword, unionKeyword, enumKeyword] s = x,
    afterKeyword? [structKeyword, unionKeyword, enumKeyword] t = y at hkeyword
  cases hkeyword with
  | some htag => exact .descriptor htag
  | none =>
  dsimp only
  rw [← hunion, ← resized_hasFunctionPointer h, ← resized_hasFunctionType h]
  generalize dropEnd? Reading.unsizedEnd s = x, dropEnd? Reading.unsizedEnd t = y at hunsized
  split_ifs
  · exact .rejected _ s t
  · exact .rejected _ s t
  · exact .rejected _ s t
  cases hunsized with
  | some helement => exact .array _ helement
  | none => exact .rejected _ s t

/-- **Spellings that differ in array sizes are read alike**, if no name of the registry holds a
bracket. -/
theorem resized_ofSpelling {reg : Registry} (hreg : reg.Without '[') (unwind : Bool)
    (h : Resized s t) :
    ResizedReading (Reading.ofSpelling reg unwind s) (Reading.ofSpelling reg unwind t) := by
  have hcolon : s.contains ':' = t.contains ':' := by
    rw [Bool.eq_iff_iff, List.contains_iff_mem, List.contains_iff_mem, h.mem_iff (by decide)]
  have hnormal := resized_normalize h
  unfold Reading.ofSpelling
  generalize normalize s = n, normalize t = n' at hnormal
  have hempty : n.isEmpty = n'.isEmpty := hnormal.isEmpty_eq
  have hlocale : occurs localeStruct n = occurs localeStruct n' := by
    have hne : localeStruct ≠ [] := by decide
    rw [Bool.eq_iff_iff, occurs_iff hne, occurs_iff hne, hnormal.infix_iff hne (by decide)]
  have hknown := resized_substitute hnormal
  dsimp only
  generalize Reading.substitute n = k, Reading.substitute n' = k' at hknown
  have hname : ResizedReading ((Reading.ofName? reg unwind k).getD (Reading.ofForm k))
      ((Reading.ofName? reg unwind k').getD (Reading.ofForm k')) := by
    by_cases hbracket : '[' ∈ k
    · rw [Reading.ofName?_of_mem hreg hbracket (.inr rfl),
        Reading.ofName?_of_mem hreg ((hknown.mem_iff (by decide)).1 hbracket) (.inr rfl),
        ← hknown.isFunction_eq]
      split_ifs
      · exact .function hknown
      · exact resized_ofForm hknown
    · rw [hknown.eq_of_not_mem hbracket]
      exact .same _
  rw [hcolon, hempty, hlocale]
  split_ifs
  · exact .rejected _ s t
  · exact .rejected _ s t
  · exact .same _
  · exact hname

end CSpelling

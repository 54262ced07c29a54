import CSpelling.Proofs.Dimensions
import CSpelling.Proofs.Mentions
import CSpelling.Proofs.Qualifying
import CSpelling.Proofs.ResizedReadings

/-!
# Dimensions that are no sizes

An array is read where size groups follow its element. What is known of an array is what is known of
its element and of each dimension (`known_dimensions`). Dimensions that do not begin with a size are
not looked through for others (`sizedArray?_dimensions`), and the spelling has no reading
(`exists_rejected_dimensions`): it does not resolve (`Registry.ok_resolve_dimensions`).
-/

namespace CSpelling

open Text CSpelling.Normal CSpelling.Decorations

variable {s t d : Text} {c : Char}

/-! ## Digits -/

/-- Ten code points from `z` on lie in one of the ranges. -/
def coverTen (ranges : List (Nat × Nat)) (z : Nat) : Bool :=
  ranges.any fun r => r.1 ≤ z && z + 9 ≤ r.2

theorem inRanges_of_coverTen {ranges : List (Nat × Nat)} {z n : Nat}
    (h : coverTen ranges z = true) (hle : z ≤ n) (hge : n ≤ z + 9) : inRanges ranges n = true := by
  obtain ⟨r, hr, hcover⟩ := List.any_eq_true.1 h
  obtain ⟨hfirst, hlast⟩ : r.1 ≤ z ∧ z + 9 ≤ r.2 := by simpa using hcover
  refine List.any_eq_true.2 ⟨r, hr, ?_⟩
  simpa using ⟨hfirst.trans hle, hge.trans hlast⟩

/-- Decimal digits of any script are word characters. -/
theorem isWordChar_of_isDecimal (h : isDecimal c = true) : isWordChar c = true := by
  have all : ∀ z ∈ zeros, z = '0'.toNat ∨ 0x80 ≤ z ∧
      (z + 9 < 0x1000 ∧ coverTen lowRanges z = true ∨
        0x1000 ≤ z ∧ z + 9 < 0x10000 ∧ coverTen middleRanges z = true ∨
        0x10000 ≤ z ∧ coverTen highRanges z = true) := by
    decide +kernel
  rw [isDecimal, digitValue?, Option.isSome_map, List.find?_isSome] at h
  obtain ⟨z, hz, hrange⟩ := h
  obtain ⟨hle, hge⟩ : z ≤ c.toNat ∧ c.toNat ≤ z + 9 := by simpa using hrange
  rcases all z hz with rfl | ⟨hascii, htables⟩
  · exact of_isDigit (P := fun c => isWordChar c = true) (by decide +kernel)
      (Char.isDigit_iff_toNat.2 ⟨hle, hge⟩)
  · have halphanumeric : isAlphanumeric c = true := by
      unfold isAlphanumeric
      dsimp only
      rw [if_neg (by omega)]
      rcases htables with ⟨hlow, h⟩ | ⟨hmiddle, hbelow, h⟩ | ⟨hhigh, h⟩
      · rw [if_pos (by omega)]
        exact inRanges_of_coverTen h hle hge
      · rw [if_neg (by omega), if_pos (by omega)]
        exact inRanges_of_coverTen h hle hge
      · rw [if_neg (by omega), if_neg (by omega)]
        exact inRanges_of_coverTen h hle hge
    simp [isWordChar, halphanumeric]

/-! ## What is known of an array -/

theorem FreeOf.normalize (h : FreeOf s) (hs : ∀ c ∈ s, isControl c = false) :
    FreeOf (normalize s) :=
  freeOf_of_chunks fun _ hw hword =>
    h.of_infix (infix_of_mem_chunks (mem_chunks_of_normalize hs hword hw))

/-- A word that does not occur in a text does not occur in its normal spelling. -/
theorem not_infix_normalize {part : Text} (hpart : IsWord part)
    (hs : ∀ c ∈ s, isControl c = false) (h : ¬part <:+: s) : ¬part <:+: normalize s := by
  intro hin
  obtain ⟨w, hw, hword, hsub⟩ := exists_chunk_of_infix hpart hin
  exact h (hsub.trans (infix_of_mem_chunks (mem_chunks_of_normalize hs hword hw)))

theorem isPlain_spaced (h : IsPlain s) : IsPlain (spaced (normalize s)) := by
  unfold spaced
  split
  · simp [IsPlain]
  · refine h.of_mem fun c hc => ?_
    rcases List.mem_append.1 hc with hc | hc
    · exact mem_of_mem_normalize hc
    · exact .inr (List.mem_singleton.1 hc)

namespace Reading

/-- What is known of a dimension. -/
def knownDimension (d : Text) : Text := substitute (ordered d)

theorem not_mem_knownDimension (hc : c ∉ d) (hspace : c ∉ " int".toList) :
    c ∉ knownDimension d := by
  intro hmem
  rcases mem_of_mem_substitute hmem with hmem | hint
  · rcases mem_of_mem_ordered hmem with hmem | rfl
    · exact hc hmem
    · exact absurd hspace (by decide)
  · exact hspace (List.mem_cons_of_mem ' ' hint)

/-- A dimension that is known as digits, or as nothing, was that, or a qualifier. -/
theorem knownDimension_eq_of_decimal (hd : IsDimension d)
    (h : ∀ c ∈ knownDimension d, isDecimal c = true) :
    knownDimension d = d ∨ knownDimension d = [] ∧ d ∈ qualifiers := by
  have hordered : knownDimension d = ordered d := (substitute_eq_or_mem (ordered d)).resolve_right
    fun hletter => absurd (h 'i' hletter) (by decide +kernel)
  rw [hordered] at h ⊢
  exact ordered_eq_of_words hd fun c hc => isWordChar_of_isDecimal (h c hc)

theorem substitute_append_dimensions (s : Text) (dims : List Text) :
    substitute (s ++ dims.flatMap bracketed) =
      substitute s ++ (dims.map substitute).flatMap bracketed := by
  have hopen : ∀ f ∈ fragments, '[' ∉ f.1 := by decide +kernel
  have hclose : ∀ f ∈ fragments, ']' ∉ f.1 := by decide +kernel
  induction dims generalizing s with
  | nil => simp
  | cons d rest ih =>
    have hrest : substitute (rest.flatMap bracketed) = _ := ih []
    have hnil : substitute [] = [] := rfl
    rw [dimensions_cons, substitute_append_cons_of_not_mem hopen,
      substitute_append_cons_of_not_mem hclose, hrest, hnil, List.nil_append, List.map_cons,
      dimensions_cons]

/-- **What is known of an array** is what is known of its element and of each dimension. -/
theorem known_dimensions (hs : IsPlain s) (hfree : FreeOf s) {dims : List Text}
    (hdims : ∀ d ∈ dims, IsDimension d) (hne : dims ≠ []) :
    known (s ++ ' ' :: dims.flatMap bracketed) =
      spaced (normalize s) ++ (dims.map knownDimension).flatMap bracketed := by
  have hspaced : FreeOf (spaced (normalize s)) := by
    unfold spaced
    split
    · exact .nil
    · exact (hfree.normalize hs.isControl).append (by decide)
  have hmap : (dims.map ordered).map substitute = dims.map knownDimension := by
    rw [List.map_map]
    exact List.map_congr_left fun d _ => by rw [Function.comp_apply, knownDimension]
  rw [known_eq (normalize_dimensions hs hdims hne), substitute_append_dimensions,
    hspaced.substitute, hmap]

/-- Punctuation stands in what is known of an array only if it stands in a dimension. -/
theorem not_mem_known_dimensions {dims : List Text} (hs : IsPlain s) (hdims : ∀ d ∈ dims, c ∉ d)
    (hc : isElementChar c = false) (hbrackets : c ≠ '[' ∧ c ≠ ']') :
    c ∉ s ++ (dims.map knownDimension).flatMap bracketed := by
  have hint : c ∉ " int".toList := fun hmem => by
    have hall : ∀ c ∈ " int".toList, isElementChar c = true := by decide +kernel
    simp [hall c hmem] at hc
  have hknown : ∀ e ∈ dims.map knownDimension, c ∉ e :=
    List.forall_mem_map.2 fun d hd => not_mem_knownDimension (hdims d hd) hint
  exact List.not_mem_append (hs.not_mem hc) (not_mem_dimensions hbrackets hknown)

/-! ## Arrays without sizes -/

/-- No array has its element end here: the character may not stand in one, or no size follows. -/
def EndsNoElement (c : Char) (rest : Text) : Prop :=
  isElementChar c = true → groupDigits? rest = none

theorem sizedArray?_eq_none (h : Along EndsNoElement s) : sizedArray? s = none := by
  induction s with
  | nil => rfl
  | cons c rest ih =>
    have hgroups (hc : isElementChar c = true) :
        sizeGroups ((c :: rest).dropWhile isElementChar) = [] := by
      rcases List.eq_nil_or_concat ((c :: rest).takeWhile isElementChar) with hnil | ⟨run, e, hrun⟩
      · rw [List.takeWhile_cons_of_pos hc] at hnil
        cases hnil
      · have he : isElementChar e = true := List.mem_takeWhile_imp (l := c :: rest) (by simp [hrun])
        have hsplit := List.takeWhile_append_dropWhile (p := isElementChar) (l := c :: rest)
        rw [hrun, List.concat_eq_append, List.append_assoc] at hsplit
        exact sizeGroups_of_none (along_iff.1 h run e _ hsplit.symm he)
    rw [sizedArray?, ih h.2]
    cases hc : isElementChar c with
    | false => rfl
    | true => simp [hgroups hc]

theorem groupDigits?_append_of_not_mem (hs : '[' ∉ s) (ht : groupDigits? t = none) :
    groupDigits? (s ++ t) = none := by
  cases s with
  | nil => exact ht
  | cons c rest =>
    rw [Option.eq_none_iff_forall_ne_some]
    intro digits hdigits
    obtain ⟨-, -, after, hsplit⟩ := groupDigits?_eq_some_iff.1 hdigits
    exact hs (by simp [(List.cons.inj hsplit).1])

/-- In front of no size no element ends. -/
theorem along_endsNoElement_append (hs : '[' ∉ s) (ht : groupDigits? t = none)
    (h : Along EndsNoElement t) : Along EndsNoElement (s ++ t) := by
  refine along_append.2 ⟨along_iff.2 fun before c rest hsplit _ => ?_, h⟩
  have hrest : '[' ∉ rest := fun hmem => hs (by simp [hsplit, hmem])
  exact groupDigits?_append_of_not_mem hrest ht

/-- In dimensions no element ends, sizes or not. -/
theorem along_endsNoElement_dimensions {dims : List Text} (h : ∀ d ∈ dims, '[' ∉ d) :
    Along EndsNoElement (dims.flatMap bracketed) := by
  induction dims with
  | nil => trivial
  | cons d rest ih =>
    have hclose : Along EndsNoElement (']' :: rest.flatMap bracketed) :=
      ⟨fun hc => absurd hc (by decide), ih fun e he => h e (List.mem_cons_of_mem _ he)⟩
    rw [dimensions_cons]
    exact ⟨fun hc => absurd hc (by decide),
      along_endsNoElement_append (h d (by simp)) rfl hclose⟩

/-- A text that ends as an array without size does has its last brackets empty, behind a space. -/
theorem eq_nil_of_unsizedEnd {front element : Text} (hd : '[' ∉ d)
    (h : front ++ bracketed d = element ++ unsizedEnd) :
    d = [] ∧ front.getLast? = some ' ' := by
  have hend : element ++ unsizedEnd = element ++ [' '] ++ ['[', ']'] := by simp [unsizedEnd]
  rw [hend] at h
  rcases List.eq_nil_or_concat d with rfl | ⟨d, c, rfl⟩
  · have hfront : front = element ++ [' '] := List.append_cancel_right h
    exact ⟨rfl, by rw [hfront, List.getLast?_concat]⟩
  · rw [List.concat_eq_append] at h hd
    have hsplit : front ++ bracketed (d ++ [c]) = front ++ '[' :: d ++ [c, ']'] := by
      simp [bracketed]
    obtain rfl : c = '[' := (List.cons.inj (List.append_inj' (hsplit.symm.trans h) rfl).2).1
    exact absurd (by simp) hd

/-- A spelling that ends in no star and begins with no keyword is rejected, unless it is read as an
array. -/
theorem exists_rejected_ofForm (hstar : s.getLast? ≠ some '*')
    (hsized : sizedArray? (withoutParens s) = none)
    (hkeyword : afterKeyword? [structKeyword, unionKeyword, enumKeyword] s = none)
    (hunsized : dropEnd? unsizedEnd s = none) : ∃ cause, ofForm s = .rejected cause s := by
  rw [ofForm, if_neg hstar, hsized, hkeyword, hunsized]
  split_ifs
  · exact ⟨_, rfl⟩
  · exact ⟨_, rfl⟩
  · exact ⟨_, rfl⟩
  · exact ⟨_, rfl⟩

variable {element first : Text} {rest : List Text}

/-- What is known of dimensions begins with a size only if the first of them is a row of digits. -/
theorem groupDigits?_dimensions (hd : IsDimension first)
    (hfirst : ¬(first ≠ [] ∧ ∀ c ∈ first, isDecimal c = true)) :
    groupDigits? (((first :: rest).map knownDimension).flatMap bracketed) = none := by
  rw [Option.eq_none_iff_forall_ne_some]
  intro digits hgroup
  obtain ⟨hne, hall, after, hsplit⟩ := groupDigits?_eq_some_iff.1 hgroup
  rw [List.map_cons, dimensions_cons] at hsplit
  have hclose : ']' ∉ knownDimension first := not_mem_knownDimension hd.brackets.2 (by decide)
  have hdigits : ']' ∉ digits := fun hmem => absurd (hall _ hmem) (by decide +kernel)
  obtain ⟨rfl, -⟩ := append_cons_inj hclose hdigits (List.cons.inj hsplit).2
  rcases knownDimension_eq_of_decimal hd hall with heq | ⟨hnil, -⟩
  · rw [heq] at hne hall
    exact hfirst ⟨hne, hall⟩
  · exact hne hnil

/-- The sizes of an array stand behind its element: dimensions that do not begin with a size are not
looked through for one. -/
theorem sizedArray?_dimensions (hs : '[' ∉ spaced s) (hdims : ∀ d ∈ first :: rest, IsDimension d)
    (hfirst : s ≠ [] → ¬(first ≠ [] ∧ ∀ c ∈ first, isDecimal c = true)) :
    sizedArray? (spaced s ++ ((first :: rest).map knownDimension).flatMap bracketed) = none := by
  have hopen : ∀ e ∈ (first :: rest).map knownDimension, '[' ∉ e :=
    List.forall_mem_map.2 fun d hd => not_mem_knownDimension (hdims d hd).brackets.1 (by decide)
  have hall := along_endsNoElement_dimensions hopen
  refine sizedArray?_eq_none ?_
  rcases eq_or_ne s [] with rfl | hne
  · exact hall
  · exact along_endsNoElement_append hs
      (groupDigits?_dimensions (hdims first (by simp)) (hfirst hne)) hall

/-- No keyword goes on into the dimensions. -/
theorem afterKeyword?_dimensions
    (h : ∀ keyword ∈ [structKeyword, unionKeyword, enumKeyword], ¬keyword <+: s ++ [' '])
    (t : Text) :
    afterKeyword? [structKeyword, unionKeyword, enumKeyword] (spaced s ++ '[' :: t) = none := by
  have all : ∀ keyword ∈ [structKeyword, unionKeyword, enumKeyword],
      keyword ≠ [] ∧ '[' ∉ keyword := by decide
  rw [afterKeyword?, List.findSome?_eq_none_iff]
  intro keyword hkeyword
  obtain ⟨hne, hopen⟩ := all keyword hkeyword
  rw [Option.eq_none_iff_forall_ne_some]
  intro after hafter
  have hprefix : keyword <+: spaced s ++ '[' :: t := ⟨after, (dropStart?_eq_some_iff.1 hafter).symm⟩
  have hin : keyword <+: spaced s := prefix_of_prefix_append hprefix fun u hu hut hsuffix => by
    obtain ⟨c, tail, rfl⟩ := List.exists_cons_of_ne_nil hu
    obtain ⟨rfl, -⟩ := List.cons_prefix_cons.1 hut
    exact hopen (hsuffix.subset (by simp))
  unfold spaced at hin
  split at hin
  · exact hne (List.prefix_nil.1 hin)
  · exact h keyword hkeyword hin

/-- Several dimensions do not end as an array without size does, and neither does one that is
something. -/
theorem dropEnd?_dimensions (hdims : ∀ d ∈ first :: rest, IsDimension d)
    (hsingle : s ≠ [] → rest = [] → first ≠ [] ∧ first ∉ qualifiers) :
    dropEnd? unsizedEnd (spaced s ++ ((first :: rest).map knownDimension).flatMap bracketed) =
      none := by
  rw [Option.eq_none_iff_forall_ne_some]
  intro element helement
  have h := dropEnd?_eq_some_iff.1 helement
  obtain ⟨front, last, hsplit⟩ : ∃ front last, first :: rest = front ++ [last] :=
    ⟨_, _, (List.dropLast_append_getLast (by simp)).symm⟩
  have hlast : IsDimension last := hdims last (by simp [hsplit])
  rw [hsplit, List.map_append, List.flatMap_append, ← List.append_assoc, List.map_singleton,
    List.flatMap_singleton] at h
  obtain ⟨hnil, hspace⟩ :=
    eq_nil_of_unsizedEnd (not_mem_knownDimension hlast.brackets.1 (by decide)) h
  rcases eq_or_ne front [] with rfl | hfront
  · obtain ⟨rfl, rfl⟩ := List.cons.inj hsplit
    have hs : s ≠ [] := by
      rintro rfl
      cases hspace
    obtain ⟨hne, hq⟩ := hsingle hs rfl
    rcases knownDimension_eq_of_decimal hlast (by simp [hnil]) with heq | ⟨-, hmem⟩
    · exact hne (heq.symm.trans hnil)
    · exact hq hmem
  · rw [List.getLast?_append_of_ne_nil _ (groups_ne_nil (by simpa using hfront)),
      getLast?_groups (by simpa using hfront)] at hspace
    exact absurd hspace (by decide)

theorem not_infix_dimensions {part : Text} (hspace : ' ' ∉ part) (hopen : '[' ∉ part)
    (hclose : ']' ∉ part) (hs : ¬part <:+: s) {dims : List Text}
    (hdims : ∀ d ∈ dims, ¬part <:+: d) : ¬part <:+: s ++ ' ' :: dims.flatMap bracketed := by
  have hnil : ¬part <:+: [] := fun h => hs (List.infix_nil.1 h ▸ List.nil_infix)
  refine not_infix_append_cons hspace hs ?_
  induction dims with
  | nil => exact hnil
  | cons d rest ih =>
    have hrest := ih fun e he => hdims e (List.mem_cons_of_mem _ he)
    have hd := not_infix_append_cons hclose (hdims d (by simp)) hrest
    rw [dimensions_cons]
    exact not_infix_append_cons hopen hnil hd

/-- Dimensions that do not begin with a size are rejected by their form. -/
theorem exists_rejected_ofForm_dimensions (hs : IsPlain (spaced s))
    (hdims : ∀ d ∈ first :: rest, IsDimension d)
    (hkeyword : ∀ keyword ∈ [structKeyword, unionKeyword, enumKeyword], ¬keyword <+: s ++ [' '])
    (hfirst : s ≠ [] → ¬(first ≠ [] ∧ ∀ c ∈ first, isDecimal c = true))
    (hsingle : s ≠ [] → rest = [] → first ≠ [] ∧ first ∉ qualifiers) :
    ∃ cause, ofForm (spaced s ++ ((first :: rest).map knownDimension).flatMap bracketed) =
      .rejected cause (spaced s ++ ((first :: rest).map knownDimension).flatMap bracketed) := by
  refine exists_rejected_ofForm ?_ ?_ ?_ (dropEnd?_dimensions hdims hsingle)
  · rw [List.getLast?_append_of_ne_nil _ (groups_ne_nil (by simp)), getLast?_groups (by simp)]
    decide
  · rw [withoutParens_of_not_mem
      (not_mem_known_dimensions hs (fun d hd => (hdims d hd).parens.1) (by decide) (by decide))
      (not_mem_known_dimensions hs (fun d hd => (hdims d hd).parens.2) (by decide) (by decide))]
    exact sizedArray?_dimensions (hs.not_mem (by decide)) hdims hfirst
  · rw [List.map_cons, dimensions_cons]
    exact afterKeyword?_dimensions hkeyword _

/-- **Dimensions that do not begin with a size have no reading.** -/
theorem exists_rejected_dimensions {reg : Registry} (hreg : reg.Without '[') (unwind : Bool)
    (helement : IsPlain element) (hfree : FreeOf element)
    (hdims : ∀ d ∈ first :: rest, IsDimension d)
    (hlocale : ∀ d ∈ first :: rest, ¬localeStruct <:+: d)
    (hkeyword : ∀ keyword ∈ [structKeyword, unionKeyword, enumKeyword],
      ¬keyword <+: normalize element ++ [' '])
    (hfirst : normalize element ≠ [] → ¬(first ≠ [] ∧ ∀ c ∈ first, isDecimal c = true))
    (hsingle : normalize element ≠ [] → rest = [] → first ≠ [] ∧ first ∉ qualifiers) :
    ∃ cause t, ofSpelling reg unwind (element ++ ' ' :: (first :: rest).flatMap bracketed) =
      .rejected cause t := by
  by_cases hcolon : ':' ∈ element ++ ' ' :: (first :: rest).flatMap bracketed
  · exact ⟨_, _, ofSpelling_of_colon _ _ hcolon⟩
  have hspaced := isPlain_spaced helement
  have hne : normalize (element ++ ' ' :: (first :: rest).flatMap bracketed) ≠ [] := by
    rw [normalize_dimensions helement hdims (by simp)]
    simp [bracketed]
  have hwithout : ¬localeStruct <:+: element ++ ' ' :: (first :: rest).flatMap bracketed :=
    not_infix_dimensions (by decide) (by decide) (by decide)
      (hfree localeStruct (by simp [systemTexts])) hlocale
  have hnot := not_infix_normalize ⟨by decide, by decide +kernel⟩
    (isControl_dimensions helement hdims) hwithout
  have hparen : '(' ∉ spaced (normalize element) ++
      ((first :: rest).map knownDimension).flatMap bracketed :=
    not_mem_known_dimensions hspaced (fun d hd => (hdims d hd).parens.1) (by decide) (by decide)
  obtain ⟨cause, hcause⟩ :=
    exists_rejected_ofForm_dimensions hspaced hdims hkeyword hfirst hsingle
  refine ⟨cause, _, Eq.trans ?_ hcause⟩
  rw [ofSpelling_eq_known hcolon hne hnot, known_dimensions helement hfree hdims (by simp),
    ofName?_of_mem hreg (by simp [bracketed]) (.inr rfl), isFunction_of_not_mem hparen,
    if_neg (by decide), Option.getD_none]

end Reading

/-! ## Resolution -/

namespace Registry

theorem ok_resolve_of_rejected {reg : Registry} {config : Config} {cause : Cause}
    (h : Reading.ofSpelling reg config.unwind s = .rejected cause t) :
    (reg.resolve config s).ok = false := by
  rw [resolve, trace]
  cases config.maxDepth.toNat with
  | zero => rfl
  | succ levels =>
    rw [descend, h]
    rfl

/-- **Arrays whose dimensions are no sizes do not resolve**: the first dimension is no row of
digits, and if it is the only one it is something that is not left out as a qualifier. No dimension
holds a text that stands for an `int` wherever it occurs, and the element, if there is one, does not
begin with a keyword that is cut off. -/
theorem ok_resolve_dimensions (reg : Registry) (config : Config) (element first : Text)
    (rest : List Text) (hreg : reg.Without '[') (helement : IsPlain element)
    (hfree : FreeOf element) (hdims : ∀ d ∈ first :: rest, IsDimension d)
    (hlocale : ∀ d ∈ first :: rest, ¬localeStruct <:+: d)
    (hkeyword : ∀ keyword ∈ [structKeyword, unionKeyword, enumKeyword],
      ¬keyword <+: normalize element ++ [' '])
    (hfirst : normalize element ≠ [] → ¬(first ≠ [] ∧ ∀ c ∈ first, isDecimal c = true))
    (hsingle : normalize element ≠ [] → rest = [] → first ≠ [] ∧ first ∉ qualifiers) :
    (reg.resolve config (element ++ ' ' :: (first :: rest).flatMap bracketed)).ok = false := by
  obtain ⟨cause, t, h⟩ := Reading.exists_rejected_dimensions hreg config.unwind helement hfree hdims
    hlocale hkeyword hfirst hsingle
  exact ok_resolve_of_rejected h

/-- An expression in front of a size, behind a typedef that is unwound. -/
theorem ok_resolve_dimensions_expression :
    let reg : Registry := { typedefs := [("word".toList, "unsigned int".toList)] }
    let config : Config := { unwind := true }
    let dims := ["2 * N".toList, "3".toList]
    reg.Without '[' ∧ IsPlain "word *".toList ∧ FreeOf "word *".toList ∧
      (∀ d ∈ dims, IsDimension d ∧ ¬localeStruct <:+: d) ∧
      (reg.resolve config "word *".toList).ok = true ∧
      (reg.resolve config ("word *".toList ++ ' ' :: dims.flatMap bracketed)).ok = false := by
  intro reg config dims
  have hdims : ∀ d ∈ dims, IsDimension d ∧ ¬localeStruct <:+: d := by decide +kernel
  refine ⟨by decide, by decide +kernel, by decide +kernel, hdims, by decide +kernel, ?_⟩
  exact ok_resolve_dimensions reg config "word *".toList "2 * N".toList ["3".toList] (by decide)
    (by decide +kernel) (by decide +kernel) (fun d hd => (hdims d hd).1)
    (fun d hd => (hdims d hd).2) (by decide +kernel) (fun _ => by decide +kernel)
    (fun _ h => absurd h (by decide))

example : "word *".toList ++ ' ' :: ["2 * N".toList, "3".toList].flatMap bracketed =
    "word * [2 * N][3]".toList := by decide

/-- An array resolves, although one of its dimensions is neither empty nor a row of ASCII digits. -/
def ResolvesUnsized (element : Text) (dims : List Text) (descriptor : Text) : Prop :=
  IsPlain element ∧ FreeOf element ∧ (∀ d ∈ dims, IsDimension d) ∧
    (∃ d ∈ dims, d ≠ [] ∧ ∃ c ∈ d, c.isDigit = false) ∧
    ({} : Registry).resolve {} (element ++ ' ' :: dims.flatMap bracketed) = ⟨descriptor, none⟩

instance (element : Text) (dims : List Text) (descriptor : Text) :
    Decidable (ResolvesUnsized element dims descriptor) :=
  inferInstanceAs (Decidable (_ ∧ _ ∧ _ ∧ _ ∧ _))

/-- **An array may resolve although a dimension is no size**: one that holds a text that stands for
an `int` wherever it occurs, or is a qualifier. Dimensions behind a size or behind a keyword that is
cut off are not looked at, and a row of digits may be of another script. -/
theorem ok_resolve_of_unsized :
    ResolvesUnsized "int".toList ["__locale_struct".toList] "int".toList ∧
      ResolvesUnsized "int".toList ["const".toList] "[]int".toList ∧
      ResolvesUnsized "int".toList ["2".toList, "N".toList] "[]int".toList ∧
      ResolvesUnsized "struct A".toList ["N".toList] "A [N]".toList ∧
      ResolvesUnsized "int".toList ["\u0663".toList] "[\u0663]int".toList := by
  decide +kernel

end Registry

end CSpelling

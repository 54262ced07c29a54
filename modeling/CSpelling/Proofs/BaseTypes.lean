import CSpelling.Proofs.Peeling
import CSpelling.Proofs.Places

/-!
# Base types

Behind a type made of words stand its decorations: stars, markers, and groups of brackets. `scan`
reads them mark by mark, and what it accepts it accepts also without qualifiers
(`scan_dropQualifiers`) and with stars for markers (`scan_replace`), whatever its white space
(`scan_marks`). So peeling keeps a text `Dressed` around the same type, until there is nothing left
but the type.

`baseType_spec` collects what is known of base types.
-/

namespace CSpelling

open Text CSpelling.Normal

variable {n r s t w : Text} {c : Char}

/-! ## Reading decorations -/

namespace Decorations

/-- Where a reader of decorations is. -/
inductive Place
  /-- Between two decorations. -/
  | outside
  /-- Behind the parenthesis that opens a marker. -/
  | opened
  /-- Behind the star of a marker. -/
  | starred
  /-- Between brackets. -/
  | inside
  deriving DecidableEq, Repr

/-- Where one more character leads, unless no decoration goes on with it. -/
def Place.step (p : Place) (c : Char) : Option Place :=
  if isBlank c then some p
  else match p with
    | .outside =>
      if c = '*' then some .outside
      else if c = '(' then some .opened
      else if c = '[' then some .inside
      else none
    | .opened => if c = '*' then some .starred else none
    | .starred => if c = ')' then some .outside else none
    | .inside => if c = ']' then some .outside else if c = '[' then none else some .inside

/-- Where a text leads. -/
def scan (p : Place) (s : Text) : Option Place := s.foldlM Place.step p

variable {p q : Place}

theorem step_of_blank (h : isBlank c = true) (p : Place) : p.step c = some p := if_pos h

@[simp] theorem scan_nil (p : Place) : scan p [] = some p := rfl

theorem scan_cons_eq_some_iff :
    scan p (c :: s) = some q ↔ ∃ r, p.step c = some r ∧ scan r s = some q := by
  simp [scan, Option.bind_eq_some_iff]

theorem scan_append_eq_some_iff :
    scan p (s ++ t) = some q ↔ ∃ r, scan p s = some r ∧ scan r t = some q := by
  simp [scan, Option.bind_eq_some_iff]

theorem scan_singleton (p : Place) (c : Char) : scan p [c] = p.step c := by
  simp [scan]

/-- White space leads nowhere. -/
theorem scan_marks (p : Place) (s : Text) : scan p (marks s) = scan p s := by
  induction s generalizing p with
  | nil => rfl
  | cons c rest ih =>
    cases hc : isBlank c with
    | true =>
      rw [marks_cons_of_blank hc, ih]
      simp [scan, step_of_blank hc]
    | false =>
      rw [marks_cons_of_not hc]
      exact congrArg (Option.bind (p.step c)) (funext ih)

/-- All that marks can do. -/
theorem step_cases (hc : isBlank c = false) (h : p.step c = some q) :
    p = .outside ∧ (c = '*' ∧ q = .outside ∨ c = '(' ∧ q = .opened ∨ c = '[' ∧ q = .inside) ∨
      p = .opened ∧ c = '*' ∧ q = .starred ∨ p = .starred ∧ c = ')' ∧ q = .outside ∨
      p = .inside ∧ (c = ']' ∧ q = .outside ∨ q = .inside) := by
  unfold Place.step at h
  rw [hc, if_neg Bool.false_ne_true] at h
  cases p
  all_goals
    simp only at h
    split_ifs at h
    all_goals simp_all

/-- A word can stand between brackets only. -/
theorem step_wordChar (hc : isWordChar c = true) (h : p.step c = some q) :
    p = .inside ∧ q = .inside := by
  have hblank : isBlank c = false := by
    rw [Bool.eq_false_iff]
    intro hb
    simp [not_isWordChar_of_isBlank hb] at hc
  have hne {d : Char} (hd : d ∈ punctuation) : c ≠ d := by
    rintro rfl
    simp [not_isWordChar_of_mem hd] at hc
  rcases step_cases hblank h with ⟨-, ⟨rfl, -⟩ | ⟨rfl, -⟩ | ⟨rfl, -⟩⟩ | ⟨-, rfl, -⟩ | ⟨-, rfl, -⟩ |
    ⟨hp, ⟨rfl, -⟩ | hq⟩
  case inr.inr.inr.inr => exact ⟨hp, hq⟩
  all_goals exact absurd rfl (hne (by decide))

/-- A word leads nowhere. -/
theorem eq_of_scan_word (hw : ∀ c ∈ w, isWordChar c = true) (h : scan p w = some q) : q = p := by
  induction w generalizing p with
  | nil => simpa using h.symm
  | cons c rest ih =>
    obtain ⟨r, hstep, hrest⟩ := scan_cons_eq_some_iff.1 h
    obtain ⟨rfl, rfl⟩ := step_wordChar (hw c (by simp)) hstep
    exact ih (fun d hd => hw d (List.mem_cons_of_mem _ hd)) hrest

/-- Decorations are decorations without their qualifiers. -/
theorem scan_dropQualifiers (h : scan p s = some q) : scan p (dropQualifiers s) = some q := by
  rw [← flatten_chunks s] at h
  rw [dropQualifiers]
  generalize chunks s = ws at h ⊢
  induction ws generalizing p with
  | nil => exact h
  | cons w ws ih =>
    rw [List.flatten_cons] at h
    obtain ⟨r, hw, hws⟩ := scan_append_eq_some_iff.1 h
    cases hq : qualifiers.contains w with
    | true =>
      have hword := (isWordChar_of_mem_qualifiers (List.contains_iff_mem.1 hq)).2
      rw [List.filter_cons_of_neg (by simp [List.contains_iff_mem.1 hq])]
      exact ih (eq_of_scan_word hword hw ▸ hws)
    | false =>
      have hnot : w ∉ qualifiers := fun hmem => by simp [hmem] at hq
      rw [List.filter_cons_of_pos (by simp [hnot]), List.flatten_cons]
      exact scan_append_eq_some_iff.2 ⟨r, hw, ih hws⟩

/-- Decorations are decorations with stars for markers. -/
theorem scan_replace (h : scan p s = some q) : scan p (replace marker ['*'] s) = some q := by
  induction s using replace_induction marker_ne_nil generalizing p with
  | nil => exact h
  | found rest ih =>
    obtain ⟨r, hmarker, hrest⟩ := scan_append_eq_some_iff.1 h
    have hstar : scan p ['*'] = some r := by
      revert hmarker
      cases p <;> cases r <;> decide
    rw [replace_old_append marker_ne_nil]
    exact scan_append_eq_some_iff.2 ⟨r, hstar, ih hrest⟩
  | cons c rest hnot ih =>
    obtain ⟨r, hstep, hrest⟩ := scan_cons_eq_some_iff.1 h
    rw [replace_cons_of_differs hnot]
    exact scan_cons_eq_some_iff.2 ⟨r, hstep, ih hrest⟩

/-- The last mark leads where a text leads, if it has marks. -/
theorem isGap_or_exists_last (h : scan p s = some q) :
    IsGap s ∧ p = q ∨ ∃ front c gap r, s = front ++ c :: gap ∧ isBlank c = false ∧ IsGap gap ∧
      scan p front = some r ∧ r.step c = some q := by
  induction s using List.reverseRecOn generalizing q with
  | nil => exact .inl ⟨isGap_nil, by simpa using h⟩
  | append_singleton s c ih =>
    obtain ⟨r, hs, hc⟩ := scan_append_eq_some_iff.1 h
    rw [scan_singleton] at hc
    cases hblank : isBlank c with
    | false => exact .inr ⟨s, c, [], r, rfl, hblank, isGap_nil, hs, hc⟩
    | true =>
      have hlonger {gap : Text} (hgap : IsGap gap) : IsGap (gap ++ [c]) :=
        marks_eq_nil_iff.1 (by simp [hgap.marks, marks_cons_of_blank hblank])
      rw [step_of_blank hblank] at hc
      obtain rfl : r = q := Option.some.inj hc
      rcases ih hs with ⟨hgap, rfl⟩ | ⟨front, d, gap, p', rfl, hd, hgap, hfront, hstep⟩
      · exact .inl ⟨hlonger hgap, rfl⟩
      · exact .inr ⟨front, d, gap ++ [c], p', by simp, hd, hlonger hgap, hfront, hstep⟩

/-- No word stands between decorations. -/
theorem startsWord_of_scan (h : scan .outside s = some q) : startsWord s = false := by
  cases s with
  | nil => rfl
  | cons c rest =>
    obtain ⟨r, hstep, -⟩ := scan_cons_eq_some_iff.1 h
    rw [startsWord_cons, Bool.eq_false_iff]
    intro hc
    have hp := (step_wordChar hc hstep).1
    cases hp

/-- Between brackets the opening one is behind. -/
theorem mem_of_scan_inside (h : scan p s = some .inside) (hp : p ≠ .inside) : '[' ∈ s := by
  induction s generalizing p with
  | nil => exact absurd (Option.some.inj h) hp
  | cons c rest ih =>
    obtain ⟨r, hstep, hrest⟩ := scan_cons_eq_some_iff.1 h
    by_cases hr : r = .inside
    · subst hr
      have hblank : isBlank c = false := by
        rw [Bool.eq_false_iff]
        intro hb
        rw [step_of_blank hb] at hstep
        exact hp (Option.some.inj hstep)
      obtain ⟨-, rfl⟩ : p = .outside ∧ c = '[' := by simpa [hp] using step_cases hblank hstep
      simp
    · exact List.mem_cons_of_mem c (ih hrest hr)

/-- Behind the star of a marker the star and the parenthesis stand beside white space. -/
theorem exists_marker_of_scan (h : scan .outside s = some .starred) :
    ∃ front u v, s = front ++ '(' :: (u ++ '*' :: v) ∧ IsGap u ∧ IsGap v := by
  obtain ⟨-, h⟩ | ⟨front, c, v, r, rfl, hc, hv, hfront, hstep⟩ := isGap_or_exists_last h
  · cases h
  obtain ⟨rfl, rfl⟩ : r = .opened ∧ c = '*' := by simpa using step_cases hc hstep
  obtain ⟨-, h⟩ | ⟨front, c, u, r, rfl, hc, hu, hfront, hstep⟩ := isGap_or_exists_last hfront
  · cases h
  obtain ⟨rfl, rfl⟩ : r = .outside ∧ c = '(' := by simpa using step_cases hc hstep
  exact ⟨front, u, v, by simp, hu, hv⟩

end Decorations

/-! ## Types made of words -/

theorem squeeze_of_along (h : Along SpaceAlone s) : squeeze s = s := by
  induction s with
  | nil => rfl
  | cons c rest ih => rw [squeeze_cons_of_not h.1, ih h.2]

theorem eq_nil_of_trimmed_append {gap : Text} (h : Trimmed (s ++ gap)) (hgap : IsGap gap) :
    gap = [] := by
  rcases List.eq_nil_or_concat gap with rfl | ⟨front, c, rfl⟩
  · rfl
  · have hlast := h.finish c (by simp)
    rw [hgap c (by simp)] at hlast
    cases hlast

/-- A character that the first text does not have stands in the second. -/
theorem exists_of_append_eq {u v : Text} (hc : c ∉ s) (h : s ++ t = u ++ c :: v) :
    ∃ front, u = s ++ front ∧ t = front ++ c :: v := by
  rcases List.append_eq_append_iff.1 h with ⟨front, hu, ht⟩ | ⟨tail, rfl, htail⟩
  · exact ⟨front, hu, ht⟩
  · cases tail with
    | nil => exact ⟨[], by simp, by simpa using htail.symm⟩
    | cons d tail =>
      obtain rfl : c = d := (List.cons.inj htail).1
      exact absurd (by simp) hc

/-- The normal spelling of a type without decorations. -/
structure IsSpecifier (n : Text) : Prop where
  /-- There is something. -/
  ne_nil : n ≠ []
  /-- The spelling is normal. -/
  normal : normalize n = n
  /-- There are words and spaces only. -/
  chars : ∀ c ∈ n, isWordChar c = true ∨ c = ' '

namespace IsSpecifier

theorem not_mem (hn : IsSpecifier n) (hc : c ∈ punctuation) : c ∉ n := by
  intro hmem
  rcases hn.chars c hmem with hword | rfl
  · rw [not_isWordChar_of_mem hc] at hword
    cases hword
  · revert hc
    decide

theorem isNormal (hn : IsSpecifier n) : IsNormal n := isNormal_of_normalize hn.normal

theorem tidy (hn : IsSpecifier n) : Tidy n := (isNormal_iff.1 hn.isNormal).2.1

theorem squeeze (hn : IsSpecifier n) : squeeze n = n := by
  exact squeeze_of_along (hn.tidy.places.imp fun _ _ h => h.space)

theorem replace_append (hn : IsSpecifier n) (new s : Text) :
    replace marker new (n ++ s) = n ++ replace marker new s := by
  have hopen := hn.not_mem (c := '(') (by decide)
  clear hn
  induction n with
  | nil => rfl
  | cons c rest ih =>
    have hc : marker.head? ≠ some c := by
      rintro h
      exact hopen (by simp [← Option.some.inj h])
    rw [List.cons_append, replace_cons marker_ne_nil hc, List.cons_append,
      ih fun h => hopen (List.mem_cons_of_mem c h)]

/-- Qualifiers are left out behind the type. -/
theorem dropQualifiers_append (hn : IsSpecifier n) (hs : startsWord s = false) :
    dropQualifiers (n ++ s) = n ++ dropQualifiers s := by
  rw [Normal.dropQualifiers_append fun _ => hs, dropQualifiers_of_not_mem hn.tidy.words]

end IsSpecifier

/-! ## Texts with decorations -/

open Decorations

/-- The text is a type with decorations behind it. -/
def Dressed (n s : Text) : Prop := ∃ rest, s = n ++ rest ∧ scan .outside rest = some .outside

namespace Dressed

protected theorem dropQualifiers (hn : IsSpecifier n) (h : Dressed n s) :
    Dressed n (dropQualifiers s) := by
  obtain ⟨rest, rfl, hrest⟩ := h
  exact ⟨dropQualifiers rest, hn.dropQualifiers_append (startsWord_of_scan hrest),
    scan_dropQualifiers hrest⟩

protected theorem once (hn : IsSpecifier n) (h : Dressed n (dropQualifiers s)) :
    Dressed n (once s) := by
  obtain ⟨rest, hs, hrest⟩ := h
  have hcontrols : dropControls (n ++ rest) = n ++ dropControls rest := by
    rw [dropControls_append, dropControls_of_forall hn.tidy.controls]
  have hpunctuation : ∀ c ∈ ['*', '[', ']', '('], c ∉ n := fun c hc =>
    hn.not_mem ((by decide : ∀ c ∈ ['*', '[', ']', '('], c ∈ punctuation) c hc)
  obtain ⟨tail, htail⟩ := prefix_respace hpunctuation hn.squeeze hn.isNormal.trimmed hn.ne_nil
    (List.prefix_append n (dropControls rest))
  rw [once_eq_respace, hs, hcontrols, ← htail]
  have hmarks : marks tail = marks rest := by
    have h := congrArg marks htail
    rw [marks_respace, marks_append, marks_append, marks_dropControls] at h
    exact List.append_cancel_left h
  exact ⟨tail, rfl, by rw [← scan_marks, hmarks, scan_marks, hrest]⟩

protected theorem normalize (hn : IsSpecifier n) (h : Dressed n (dropQualifiers s)) :
    Dressed n (normalize s) := by
  rw [normalize_eq]
  exact ((h.once hn).dropQualifiers hn).once hn

/-- **Peeling takes decorations only.** -/
protected theorem peel (hn : IsSpecifier n) (h : Dressed n s) (hpeel : peel s = some t) :
    Dressed n t := by
  obtain ⟨rest, rfl, hrest⟩ := h
  rcases peel_cases hpeel with ⟨after, hsplit, -⟩ | hsplit | ⟨-, rfl⟩
  · obtain ⟨front, rfl, rfl⟩ := exists_of_append_eq (hn.not_mem (by decide)) hsplit
    obtain ⟨p, hfront, hafter⟩ := scan_append_eq_some_iff.1 hrest
    obtain ⟨q, hstep, -⟩ := scan_cons_eq_some_iff.1 hafter
    obtain rfl : p = .outside := by
      cases p <;> first | rfl | cases hstep
    exact ⟨front, rfl, hfront⟩
  · obtain ⟨front, rfl, rfl⟩ := exists_of_append_eq (hn.not_mem (by decide)) hsplit
    obtain ⟨p, hfront, hstar⟩ := scan_append_eq_some_iff.1 hrest
    obtain rfl : p = .outside := by
      cases p <;> first | rfl | cases hstar
    exact ⟨front, rfl, hfront⟩
  · exact ⟨replace marker ['*'] rest, hn.replace_append _ _, scan_replace hrest⟩

/-- What nothing can be peeled off is the type. -/
theorem eq_of_bare (h : Dressed n s) (hs : IsNormal s) (hnone : peel s = none) : s = n := by
  obtain ⟨rest, rfl, hrest⟩ := h
  obtain ⟨hbracket, hstar, hmarker⟩ := peel_eq_none_iff.1 hnone
  obtain ⟨hgap, -⟩ | ⟨front, c, gap, p, rfl, hc, hgap, hfront, hstep⟩ := isGap_or_exists_last hrest
  · rw [eq_nil_of_trimmed_append hs.trimmed hgap, List.append_nil]
  obtain rfl : gap = [] := eq_nil_of_trimmed_append (s := n ++ front ++ [c])
    (by simpa using hs.trimmed) hgap
  have hlast : (n ++ (front ++ [c])).getLast? = some c := by simp [List.getLast?_append]
  -- the last mark is a star, or it closes a marker or a group, all of which could be peeled
  rcases step_cases hc hstep with ⟨-, ⟨rfl, -⟩ | ⟨-, h⟩ | ⟨-, h⟩⟩ | ⟨-, -, h⟩ | ⟨rfl, rfl, -⟩ |
    ⟨rfl, ⟨rfl, -⟩ | h⟩
  · exact absurd hlast hstar
  · cases h
  · cases h
  · cases h
  · obtain ⟨before, u, v, rfl, hu, hv⟩ := exists_marker_of_scan hfront
    obtain ⟨rfl, rfl⟩ := hs.markers (n ++ before) u v [] (by simp) hu hv
    exact absurd ⟨n ++ before, [], by simp [marker]⟩ hmarker
  · exact absurd (by simp [mem_of_scan_inside hfront]) (hbracket hlast)
  · cases h

end Dressed

/-- Peeling arrives at the type beneath the decorations. -/
theorem Peels.eq_of_dressed (hn : IsSpecifier n) (h : Peels s r) (hs : Dressed n (dropQualifiers s)) :
    r = n := by
  induction h with
  | bare hnone => exact (hs.normalize hn).eq_of_bare (isNormal_normalize _) hnone
  | layer hsome _ ih => exact ih (((hs.normalize hn).peel hn hsome).dropQualifiers hn)

/-! ## Decorations -/

/-- What may stand behind a type. -/
inductive Decoration
  /-- A star. -/
  | star
  /-- A star with a qualifier. -/
  | qualifiedStar (q : Text) (hq : q ∈ qualifiers)
  /-- A function-pointer marker. -/
  | marker
  /-- A group of brackets around any other text. -/
  | group (inner : Text) (hinner : '[' ∉ inner ∧ ']' ∉ inner)

namespace Decoration

/-- How a decoration is written. -/
def text : Decoration → Text
  | .star => [' ', '*']
  | .qualifiedStar q _ => ' ' :: '*' :: ' ' :: q
  | .marker => CSpelling.marker
  | .group inner _ => '[' :: (inner ++ [']'])

theorem startsWord_text_append (d : Decoration) (s : Text) : startsWord (d.text ++ s) = false := by
  have hspace : isWordChar ' ' = false := not_isWordChar_of_isBlank isBlank_space
  cases d with
  | star => exact (startsWord_cons ' ' _).trans hspace
  | qualifiedStar q hq => exact (startsWord_cons ' ' _).trans hspace
  | marker => exact (startsWord_cons '(' _).trans (not_isWordChar_of_mem (by decide))
  | group inner hinner => exact (startsWord_cons '[' _).trans (not_isWordChar_of_mem (by decide))

theorem scan_dropQualifiers_text (d : Decoration) :
    scan .outside (dropQualifiers d.text) = some .outside := by
  cases d with
  | star => exact scan_dropQualifiers (by decide)
  | qualifiedStar q hq =>
    have all : ∀ q ∈ qualifiers, scan .outside (dropQualifiers (' ' :: '*' :: ' ' :: q)) =
        some .outside := by decide +kernel
    exact all q hq
  | marker => exact scan_dropQualifiers (by decide)
  | group inner hinner =>
    have hscan : scan .inside inner = some .inside := by
      obtain ⟨hopen, hclose⟩ := hinner
      induction inner with
      | nil => rfl
      | cons c rest ih =>
        rw [List.mem_cons, not_or] at hopen hclose
        refine scan_cons_eq_some_iff.2 ⟨.inside, ?_, ih hopen.2 hclose.2⟩
        simp [Place.step, Ne.symm hopen.1, Ne.symm hclose.1]
    exact scan_dropQualifiers (scan_cons_eq_some_iff.2
      ⟨.inside, rfl, scan_append_eq_some_iff.2 ⟨.inside, hscan, rfl⟩⟩)

theorem startsWord_flatMap (ds : List Decoration) : startsWord (ds.flatMap text) = false := by
  cases ds with
  | nil => rfl
  | cons d ds => exact startsWord_text_append d _

theorem scan_dropQualifiers_flatMap (ds : List Decoration) :
    scan .outside (dropQualifiers (ds.flatMap text)) = some .outside := by
  induction ds with
  | nil => rfl
  | cons d ds ih =>
    rw [List.flatMap_cons, dropQualifiers_append fun _ => startsWord_flatMap ds]
    exact scan_append_eq_some_iff.2 ⟨.outside, scan_dropQualifiers_text d, ih⟩

end Decoration

/-- The base type of a decorated type is the type. -/
theorem baseType_append_flatMap (hn : IsSpecifier n) (ds : List Decoration) :
    baseType (n ++ ds.flatMap Decoration.text) = n :=
  (peels_baseType _).eq_of_dressed hn ⟨dropQualifiers (ds.flatMap Decoration.text),
    hn.dropQualifiers_append (Decoration.startsWord_flatMap ds),
    Decoration.scan_dropQualifiers_flatMap ds⟩

/-- **Peeling comes to an end at every text, the base type, which is normal and has nothing to peel;
and it takes exactly the decorations behind a type made of words.** -/
theorem baseType_spec :
    (∀ s, Peels s (baseType s) ∧ normalize (baseType s) = baseType s ∧
      (baseType s).getLast? ≠ some '*' ∧ ¬marker <:+: baseType s ∧
      ((baseType s).getLast? = some ']' → '[' ∉ baseType s) ∧
      baseType (baseType s) = baseType s) ∧
    ∀ (n : Text) (ds : List Decoration), n ≠ [] → normalize n = n →
      (∀ c ∈ n, isWordChar c = true ∨ c = ' ') → baseType (n ++ ds.flatMap Decoration.text) = n := by
  refine ⟨fun s => ?_, fun n ds hne hnormal hchars =>
    baseType_append_flatMap ⟨hne, hnormal, hchars⟩ ds⟩
  obtain ⟨hnormal, hnone⟩ := (peels_baseType s).isBare
  obtain ⟨hbracket, hstar, hmarker⟩ := peel_eq_none_iff.1 hnone
  exact ⟨peels_baseType s, hnormal, hstar, hmarker, hbracket, baseType_baseType s⟩

/-- Decorations of every kind around a structure, some with blanks, stars and parentheses in their
brackets. -/
theorem baseType_spec_point :
    let point := "struct Point".toList
    let decorations := [.marker, .group "N * (*)\n".toList (by decide),
      .qualifiedStar "const".toList (by decide), .star, .marker, .group [] (by decide)]
    (point ≠ [] ∧ normalize point = point ∧ ∀ c ∈ point, isWordChar c = true ∨ c = ' ') ∧
      baseType (point ++ decorations.flatMap Decoration.text) = point :=
  ⟨by decide +kernel, baseType_spec.2 _ _ (by decide) (by decide +kernel) (by decide +kernel)⟩

end CSpelling

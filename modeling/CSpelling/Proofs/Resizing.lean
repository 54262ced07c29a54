import CSpelling.Proofs.Decorations
import CSpelling.Proofs.Layout
import CSpelling.Proofs.Relayout

/-!
# Other array sizes

`Resized s t` says that two texts differ in the digits of array sizes alone. Everything that does
not look for brackets and digits finds the same in both (`Resized.split`, `Resized.append_inv`),
and so every step of the normalisation keeps such texts alike (`resized_normalize`).
-/

namespace CSpelling

open Text CSpelling.Normal CSpelling.Decorations

variable {c d : Char} {a b p s t u v m n : Text}

/-- The text is the size of an array: a row of digits. -/
structure IsSize (m : Text) : Prop where
  /-- There is a digit. -/
  ne_nil : m ≠ []
  /-- There is nothing else. -/
  digits : ∀ c ∈ m, c.isDigit = true

/-- The texts differ in array sizes alone. -/
inductive Resized : Text → Text → Prop
  /-- Nothing is left. -/
  | nil : Resized [] []
  /-- The texts go on alike. -/
  | cons (c : Char) {s t : Text} : Resized s t → Resized (c :: s) (c :: t)
  /-- There is a size in each of the texts. -/
  | size {m n s t : Text} : IsSize m → IsSize n → Resized s t →
      Resized ('[' :: (m ++ ']' :: s)) ('[' :: (n ++ ']' :: t))

/-- The character may belong to an array size or its brackets. -/
def isSizeChar (c : Char) : Bool := c = '[' || c = ']' || c.isDigit

theorem IsSize.not_mem (hm : IsSize m) (hd : d.isDigit = false) : d ∉ m :=
  fun hmem => ne_of_isDigit (hm.digits d hmem) hd rfl

theorem ne_of_isSizeChar (hc : isSizeChar c = false) : c ≠ '[' ∧ c ≠ ']' ∧ c.isDigit = false := by
  simpa [isSizeChar, and_assoc] using hc

/-- No character of a size group is another one. -/
theorem IsSize.not_mem_group (hm : IsSize m) (hd : isSizeChar d = false) :
    d ∉ '[' :: (m ++ [']']) := by
  obtain ⟨hopen, hclose, hdigit⟩ := ne_of_isSizeChar hd
  simp [hopen, hclose, hm.not_mem hdigit]

namespace Resized

theorem refl (s : Text) : Resized s s := by
  induction s with
  | nil => exact .nil
  | cons c rest ih => exact .cons c ih

theorem symm (h : Resized s t) : Resized t s := by
  induction h with
  | nil => exact .nil
  | cons c _ ih => exact .cons c ih
  | size hm hn _ ih => exact .size hn hm ih

theorem append (h : Resized s t) (h' : Resized u v) : Resized (s ++ u) (t ++ v) := by
  induction h with
  | nil => exact h'
  | cons c _ ih => exact .cons c ih
  | size hm hn _ ih => simpa using Resized.size hm hn ih

/-! ## What is found in both texts -/

theorem cons_inv (hc : c ≠ '[') (h : Resized (c :: s) u) : ∃ t, u = c :: t ∧ Resized s t := by
  cases h with
  | cons _ h => exact ⟨_, rfl, h⟩
  | size => exact absurd rfl hc

/-- A beginning without brackets is the same in both. -/
theorem append_inv (hp : '[' ∉ p) (h : Resized (p ++ s) u) : ∃ t, u = p ++ t ∧ Resized s t := by
  induction p generalizing u with
  | nil => exact ⟨u, rfl, h⟩
  | cons c rest ih =>
    obtain ⟨rest', rfl, hrest⟩ := cons_inv (fun hc => hp (by simp [hc])) h
    obtain ⟨t, rfl, ht⟩ := ih (fun hmem => hp (List.mem_cons_of_mem _ hmem)) hrest
    exact ⟨t, rfl, ht⟩

/-- **Both texts are cut at any character that does not belong to sizes.** -/
theorem split (hd : isSizeChar d = false) (h : Resized (u ++ d :: v) t) :
    ∃ u' v', t = u' ++ d :: v' ∧ Resized u u' ∧ Resized v v' := by
  obtain ⟨hopen, -, -⟩ := ne_of_isSizeChar hd
  generalize hs : u ++ d :: v = s at h
  induction h generalizing u with
  | nil => simp at hs
  | cons c h ih =>
    cases u with
    | nil =>
      obtain ⟨rfl, rfl⟩ := List.cons.inj hs
      exact ⟨[], _, rfl, .nil, h⟩
    | cons e u =>
      obtain ⟨rfl, htail⟩ := List.cons.inj hs
      obtain ⟨u', v', rfl, hu, hv⟩ := ih htail
      exact ⟨e :: u', v', rfl, .cons e hu, hv⟩
  | @size m n s t hm hn _ ih =>
    -- The character stands behind the size.
    have hgroup : u ++ d :: v = ('[' :: (m ++ [']'])) ++ s := by simp [hs]
    rcases List.append_eq_append_iff.1 hgroup with ⟨w, hw, hrest⟩ | ⟨w, rfl, hrest⟩
    · cases w with
      | nil =>
        obtain ⟨u', v', rfl, hu, hv⟩ := ih (u := []) (by simpa using hrest)
        refine ⟨'[' :: (n ++ ']' :: u'), v', by simp, ?_, hv⟩
        rw [List.append_nil] at hw
        simpa [← hw] using Resized.size hm hn hu
      | cons e w =>
        obtain ⟨rfl, -⟩ := List.cons.inj hrest
        exact absurd (by simp [hw]) (hm.not_mem_group hd)
    · obtain ⟨u', v', rfl, hu, hv⟩ := ih hrest.symm
      exact ⟨'[' :: (n ++ ']' :: u'), v', by simp, by simpa using Resized.size hm hn hu, hv⟩

/-- An end without brackets and digits is the same in both. -/
theorem append_inv_right (hb : ∀ c ∈ b, isSizeChar c = false) (h : Resized (s ++ b) t) :
    ∃ t', t = t' ++ b ∧ Resized s t' := by
  cases b with
  | nil => exact ⟨t, by simp, by simpa using h⟩
  | cons d b =>
    obtain ⟨u, v, rfl, hu, hv⟩ := h.split (hb d (by simp))
    have hopen : '[' ∉ b := fun hmem => absurd (hb _ (List.mem_cons_of_mem _ hmem)) (by decide)
    obtain ⟨w, rfl, hw⟩ := append_inv (s := []) hopen (by simpa using hv)
    cases hw
    exact ⟨u, by simp, hu⟩

theorem head? (h : Resized s t) : s.head? = t.head? := by
  cases h <;> rfl

theorem isEmpty_eq (h : Resized s t) : s.isEmpty = t.isEmpty := by
  cases h <;> rfl

theorem getLast? (h : Resized s t) : s.getLast? = t.getLast? := by
  induction h with
  | nil => rfl
  | cons c h ih =>
    rw [List.getLast?_cons, List.getLast?_cons, ih]
  | @size m n s t _ _ _ ih =>
    have hgroup (m s : Text) : ('[' :: (m ++ ']' :: s)).getLast? = (']' :: s).getLast? := by
      rw [← List.cons_append, List.getLast?_append_cons]
    rw [hgroup, hgroup, List.getLast?_cons, List.getLast?_cons, ih]

/-- What does not look at digits chooses the same characters in both. -/
theorem filter_eq {p : Char → Bool} (hp : ∀ c, c.isDigit = true → p c = false)
    (h : Resized s t) : s.filter p = t.filter p := by
  induction h with
  | nil => rfl
  | cons c _ ih => simp only [List.filter_cons, ih]
  | size hm hn _ ih =>
    have hnone {m : Text} (hm : IsSize m) : m.filter p = [] :=
      List.filter_eq_nil_iff.2 fun c hc => by simp [hp c (hm.digits c hc)]
    simp only [List.filter_cons, List.filter_append, hnone hm, hnone hn, ih]

theorem mem_iff (hd : d.isDigit = false) (h : Resized s t) : d ∈ s ↔ d ∈ t := by
  have hfilter := h.filter_eq (p := (· == d)) fun c hc => by simpa using ne_of_isDigit hc hd
  have hiff (s : Text) : d ∈ s ↔ d ∈ s.filter (· == d) := by simp
  rw [hiff, hfilter, ← hiff]

theorem count_eq (hd : d.isDigit = false) (h : Resized s t) : s.count d = t.count d := by
  have hfilter := h.filter_eq (p := (· == d)) fun c hc => by simpa using ne_of_isDigit hc hd
  rw [List.count_eq_length_filter, hfilter, ← List.count_eq_length_filter]

theorem eq_of_not_mem (h : Resized s t) (hs : '[' ∉ s) : s = t := by
  obtain ⟨u, rfl, hu⟩ := append_inv (p := s) (s := []) hs (by simpa using h)
  cases hu
  simp

/-- Without a size there is no difference. -/
theorem eq_of_sizes (h : Resized s t) (hs : ∀ m, IsSize m → ¬ '[' :: (m ++ [']']) <:+: s) :
    s = t := by
  induction h with
  | nil => rfl
  | cons c _ ih => rw [ih fun m hm hin => hs m hm (List.infix_cons hin)]
  | @size m n s t hm _ _ _ => exact absurd ⟨[], s, by simp⟩ (hs m hm)

/-! ## Steps along the text -/

theorem flatMap {f : Char → Text} (hopen : f '[' = a ++ ['['])
    (hclose : f ']' = [']']) (hdigit : ∀ c, c.isDigit = true → f c = [c]) (h : Resized s t) :
    Resized (s.flatMap f) (t.flatMap f) := by
  induction h with
  | nil => exact .nil
  | cons c _ ih =>
    rw [List.flatMap_cons, List.flatMap_cons]
    exact (refl (f c)).append ih
  | @size m n s t hm hn _ ih =>
    have hgroup {m : Text} (hm : IsSize m) (s : Text) :
        ('[' :: (m ++ ']' :: s)).flatMap f = a ++ '[' :: (m ++ ']' :: s.flatMap f) := by
      have hkeep : m.flatMap f = m := by
        rw [List.flatMap_congr fun c hc => hdigit c (hm.digits c hc), List.flatMap_singleton']
      simp [hopen, hclose, hkeep]
    rw [hgroup hm, hgroup hn]
    exact (refl a).append (.size hm hn ih)

theorem filter {p : Char → Bool} (hp : ∀ c, isSizeChar c = true → p c = true)
    (h : Resized s t) : Resized (s.filter p) (t.filter p) := by
  induction h with
  | nil => exact .nil
  | cons c _ ih =>
    cases hc : p c with
    | true =>
      rw [List.filter_cons_of_pos hc, List.filter_cons_of_pos hc]
      exact .cons c ih
    | false => rwa [List.filter_cons_of_neg (by simp [hc]), List.filter_cons_of_neg (by simp [hc])]
  | @size m n s t hm hn _ ih =>
    have hgroup {m : Text} (hm : IsSize m) (s : Text) :
        ('[' :: (m ++ ']' :: s)).filter p = '[' :: (m ++ ']' :: s.filter p) := by
      have hdigits : m.filter p = m :=
        List.filter_eq_self.2 fun c hc => hp c (by simp [isSizeChar, hm.digits c hc])
      rw [List.filter_cons_of_pos (hp _ (by decide)), List.filter_append, hdigits,
        List.filter_cons_of_pos (hp _ (by decide))]
    rw [hgroup hm, hgroup hn]
    exact .size hm hn ih

theorem dropWhile {p : Char → Bool} (hp : p '[' = false) (h : Resized s t) :
    Resized (s.dropWhile p) (t.dropWhile p) := by
  induction h with
  | nil => exact .nil
  | cons c h ih =>
    cases hc : p c with
    | true => rwa [List.dropWhile_cons_of_pos hc, List.dropWhile_cons_of_pos hc]
    | false =>
      rw [List.dropWhile_cons_of_neg (by simp [hc]), List.dropWhile_cons_of_neg (by simp [hc])]
      exact .cons c h
  | size hm hn h =>
    rw [List.dropWhile_cons_of_neg (by simp [hp]), List.dropWhile_cons_of_neg (by simp [hp])]
    exact .size hm hn h

theorem takeWhile {p : Char → Bool} (hp : p '[' = false) (h : Resized s t) :
    s.takeWhile p = t.takeWhile p := by
  induction h with
  | nil => rfl
  | cons c _ ih => simp only [List.takeWhile_cons, ih]
  | size =>
    rw [List.takeWhile_cons_of_neg (by simp [hp]), List.takeWhile_cons_of_neg (by simp [hp])]

end Resized

/-! ## White space -/

/-- What holds of the brackets and of the ten digits. -/
theorem of_isSizeChar {P : Char → Prop}
    (all : ∀ n ∈ 91 :: 93 :: List.range' 48 10, P (Char.ofNat n)) (h : isSizeChar c = true) :
    P c := by
  rcases (by simpa [isSizeChar, or_assoc] using h : c = '[' ∨ c = ']' ∨ c.isDigit = true) with
    rfl | rfl | hdigit
  · exact all 91 (by simp)
  · exact all 93 (by simp)
  · exact of_isDigit (fun n hn => all n (by simp [hn])) hdigit

theorem isBlank_of_isSizeChar (h : isSizeChar c = true) : isBlank c = false :=
  of_isSizeChar (P := fun c => isBlank c = false) (by decide) h

theorem Text.IsGap.isSizeChar (ha : IsGap a) : ∀ c ∈ a, isSizeChar c = false := by
  intro c hc
  rw [Bool.eq_false_iff]
  intro hsize
  have hblank := ha c hc
  rw [isBlank_of_isSizeChar hsize] at hblank
  cases hblank

theorem resized_marks (h : Resized s t) : Resized (marks s) (marks t) :=
  h.filter fun c hc => by rw [isBlank_of_isSizeChar hc]; rfl

theorem resized_strip (h : Resized s t) : Resized (strip s) (strip t) := by
  obtain ⟨a, b, hs, ha, hb⟩ := exists_gaps s
  have htrimmed := trimmed_strip s
  generalize strip s = inner at *
  rw [hs, List.append_assoc] at h
  obtain ⟨rest, rfl, hrest⟩ := h.append_inv fun hmem => absurd (ha.isSizeChar _ hmem) (by decide)
  obtain ⟨inner', rfl, hinner⟩ := hrest.append_inv_right hb.isSizeChar
  have htrimmed' : Trimmed inner' :=
    ⟨hinner.head? ▸ htrimmed.start, hinner.getLast? ▸ htrimmed.finish⟩
  rwa [← List.append_assoc, strip_gaps ha htrimmed' hb]

/-! ## Passes -/

theorem IsSize.dropQualifiers (hm : IsSize m) : dropQualifiers m = m :=
  dropQualifiers_of_not_mem (words_of_forall fun c hc =>
    of_isDigit (P := fun c => c.isAlpha = false) (by decide) (hm.digits c hc))

/-- Qualifiers stand apart from sizes. -/
theorem resized_dropQualifiers (h : Resized s t) :
    Resized (dropQualifiers s) (dropQualifiers t) := by
  -- Words may begin in a text in front that is the same.
  have hfront (a : Text) : Resized (dropQualifiers (a ++ s)) (dropQualifiers (a ++ t)) := by
    induction h generalizing a with
    | nil => exact .refl _
    | cons c _ ih => simpa using ih (a ++ [c])
    | @size m n s t hm hn _ ih =>
      have hgroup {m : Text} (hm : IsSize m) (s : Text) :
          dropQualifiers (a ++ '[' :: (m ++ ']' :: s)) =
            dropQualifiers a ++ '[' :: (m ++ ']' :: dropQualifiers s) := by
        rw [dropQualifiers_append_cons (by decide), dropQualifiers_append_cons (by decide),
          hm.dropQualifiers]
      rw [hgroup hm, hgroup hn]
      exact (Resized.refl _).append (.size hm hn (ih []))
  exact hfront []

/-- A step that goes past each character of a text goes past the text. -/
theorem map_append_of_forall {f : Text → Text} (h : ∀ c ∈ a, ∀ s, f (c :: s) = c :: f s)
    (s : Text) : f (a ++ s) = a ++ f s := by
  induction a with
  | nil => rfl
  | cons c rest ih =>
    rw [List.cons_append, h c (by simp), ih fun d hd => h d (List.mem_cons_of_mem _ hd),
      List.cons_append]

/-- A step that goes past brackets and digits goes past sizes. -/
theorem IsSize.map_group {f : Text → Text} (hm : IsSize m)
    (h : ∀ c, isSizeChar c = true → ∀ s, f (c :: s) = c :: f s) (s : Text) :
    f ('[' :: (m ++ ']' :: s)) = '[' :: (m ++ ']' :: f s) := by
  rw [h _ (by decide), map_append_of_forall fun c hc => h c (by simp [isSizeChar, hm.digits c hc]),
    h _ (by decide)]

theorem resized_closeStars (h : Resized s t) : Resized (closeStars s) (closeStars t) := by
  induction h with
  | nil => exact .nil
  | @cons c s t h ih =>
    have hhead := (resized_marks h).head?
    by_cases hstar : c = '*' ∧ (marks s).head? = some '*'
    · obtain ⟨rfl, hstar⟩ := hstar
      rw [closeStars_star hstar, closeStars_star (hhead ▸ hstar)]
      exact .cons '*' (ih.dropWhile (by decide))
    · rw [closeStars_cons_of_not (by simpa using hstar),
        closeStars_cons_of_not (by simpa [← hhead] using hstar)]
      exact .cons c ih
  | size hm hn _ ih =>
    have hpast (c : Char) (hc : isSizeChar c = true) (s : Text) :
        closeStars (c :: s) = c :: closeStars s :=
      closeStars_cons_of_not (by rintro rfl; cases hc)
    rw [hm.map_group hpast, hn.map_group hpast]
    exact .size hm hn ih

theorem resized_squeeze (h : Resized s t) : Resized (squeeze s) (squeeze t) := by
  induction h with
  | nil => exact .nil
  | @cons c s t h ih =>
    have hhead := h.head?
    by_cases hspace : c = ' ' ∧ s.head? = some ' '
    · obtain ⟨rfl, hspace⟩ := hspace
      rwa [squeeze_space hspace, squeeze_space (hhead ▸ hspace)]
    · rw [squeeze_cons_of_not (by simpa using hspace),
        squeeze_cons_of_not (by simpa [← hhead] using hspace)]
      exact .cons c ih
  | size hm hn _ ih =>
    have hpast (c : Char) (hc : isSizeChar c = true) (s : Text) :
        squeeze (c :: s) = c :: squeeze s :=
      squeeze_cons_of_not (by rintro rfl; cases hc)
    rw [hm.map_group hpast, hn.map_group hpast]
    exact .size hm hn ih

/-- A row of groups goes on behind a space in both. -/
theorem Resized.groups_iff (h : Resized s t) : [' ', '['] <+: s ↔ [' ', '['] <+: t := by
  have hone {s t : Text} (h : Resized s t) (hpre : [' ', '['] <+: s) : [' ', '['] <+: t := by
    obtain ⟨rest, rfl⟩ := exists_of_prefix_pair hpre
    obtain ⟨t, rfl, ht⟩ := h.cons_inv (by decide)
    obtain ⟨after, rfl⟩ := List.head?_eq_some_iff.1 (ht.head?.symm.trans rfl)
    simp
  exact ⟨hone h, hone h.symm⟩

theorem resized_joinGroups (h : Resized s t) : Resized (joinGroups s) (joinGroups t) := by
  have hclose {s t : Text} (h : Resized s t) (ih : Resized (joinGroups s) (joinGroups t)) :
      ∃ u v, joinGroups (']' :: s) = ']' :: u ∧ joinGroups (']' :: t) = ']' :: v ∧ Resized u v := by
    by_cases hjoin : [' ', '['] <+: s
    · obtain ⟨rest, rfl⟩ := exists_of_prefix_pair hjoin
      obtain ⟨rest', rfl⟩ := exists_of_prefix_pair (h.groups_iff.1 hjoin)
      have hspace (u : Text) : joinGroups (' ' :: u) = ' ' :: joinGroups u :=
        joinGroups_cons_of_ne (by decide) u
      rw [hspace, hspace] at ih
      obtain ⟨v, hv, hrest⟩ := ih.cons_inv (by decide)
      obtain rfl := (List.cons.inj hv).2
      exact ⟨_, _, joinGroups_join rest, joinGroups_join rest', hrest⟩
    · exact ⟨_, _, joinGroups_cons_of_not fun _ => hjoin,
        joinGroups_cons_of_not fun _ => mt h.groups_iff.2 hjoin, ih⟩
  induction h with
  | nil => exact .nil
  | @cons c s t h ih =>
    by_cases hc : c = ']'
    · subst hc
      obtain ⟨u, v, hu, hv, huv⟩ := hclose h ih
      rw [hu, hv]
      exact .cons ']' huv
    · rw [joinGroups_cons_of_ne hc, joinGroups_cons_of_ne hc]
      exact .cons c ih
  | @size m n s t hm hn h ih =>
    obtain ⟨u, v, hu, hv, huv⟩ := hclose h ih
    have hgroup {m : Text} (hm : IsSize m) (s : Text) :
        joinGroups ('[' :: (m ++ s)) = '[' :: (m ++ joinGroups s) := by
      rw [joinGroups_cons_of_ne (by decide), map_append_of_forall fun c hc s =>
        joinGroups_cons_of_ne (ne_of_isDigit (hm.digits c hc) (by decide)) s]
    rw [hgroup hm, hgroup hn, hu, hv]
    exact .size hm hn huv

theorem resized_closeMarkers (h : Resized s t) : Resized (closeMarkers s) (closeMarkers t) := by
  induction h with
  | nil => exact .nil
  | @cons c s t h ih =>
    have hiff : ['*', ')'] <+: marks s ↔ ['*', ')'] <+: marks t := by
      have hone {s t : Text} (h : Resized s t) (hpre : ['*', ')'] <+: s) : ['*', ')'] <+: t := by
        obtain ⟨rest, rfl⟩ := hpre
        obtain ⟨t, rfl, -⟩ := h.append_inv (by decide)
        exact List.prefix_append _ t
      exact ⟨hone (resized_marks h), hone (resized_marks h.symm)⟩
    by_cases hmarker : c = '(' ∧ ['*', ')'] <+: marks s
    · obtain ⟨rfl, hpre⟩ := hmarker
      obtain ⟨after, hafter⟩ := exists_afterMarker? (by rwa [marks_closeMarkers])
      obtain ⟨u, v, heq, hu, hv⟩ := afterMarker?_eq_some_iff.1 hafter
      have hopen : '[' ∉ u ++ ['*'] ++ v ++ [')'] := by
        have hnot {a : Text} (ha : IsGap a) : '[' ∉ a := fun hmem =>
          absurd (ha.isSizeChar _ hmem) (by decide)
        simp [hnot hu, hnot hv]
      have hsplit : closeMarkers s = u ++ ['*'] ++ v ++ [')'] ++ after := by simp [heq]
      obtain ⟨after', hafter', hrest⟩ := (hsplit ▸ ih).append_inv hopen
      have hopened : afterMarker? (closeMarkers t) = some after' :=
        afterMarker?_eq_some_iff.2 ⟨u, v, by simp [hafter'], hu, hv⟩
      rw [closeMarkers_open hafter, closeMarkers_open hopened]
      exact .cons _ (.cons _ (.cons _ hrest))
    · rw [closeMarkers_cons_of_not (by simpa using hmarker),
        closeMarkers_cons_of_not (by simpa [← hiff] using hmarker)]
      exact .cons c ih
  | size hm hn _ ih =>
    have hpast (c : Char) (hc : isSizeChar c = true) (s : Text) :
        closeMarkers (c :: s) = c :: closeMarkers s :=
      closeMarkers_cons_of_ne (by rintro rfl; cases hc) s
    rw [hm.map_group hpast, hn.map_group hpast]
    exact .size hm hn ih

theorem resized_once (h : Resized s t) : Resized (once s) (once t) := by
  have hcontrols := (resized_dropQualifiers h).filter (p := fun c => !isControl c)
    fun c hc => by
      have hnot : isControl c = false :=
        of_isSizeChar (P := fun c => isControl c = false) (by decide) hc
      rw [hnot]
      rfl
  have hstars := hcontrols.flatMap (f := fun c => if c = '*' then [' ', '*'] else [c]) (a := [])
    rfl rfl fun c hc => if_neg (ne_of_isDigit hc (by decide))
  have hbrackets := (resized_closeStars hstars).flatMap
    (f := fun c => if c = '[' then [' ', '['] else [c]) (a := [' ']) rfl rfl
    fun c hc => if_neg (ne_of_isDigit hc (by decide))
  rw [once_eq_respace, once_eq_respace]
  exact resized_strip (resized_closeMarkers (resized_joinGroups (resized_squeeze hbrackets)))

/-- **Texts that differ in array sizes have normal spellings that do.** -/
theorem resized_normalize (h : Resized s t) : Resized (normalize s) (normalize t) := by
  rw [normalize_eq, normalize_eq]
  exact resized_once (resized_once h)

end CSpelling

import CSpelling.Proofs.Texts
import CSpelling.Signature
import Mathlib.Data.List.Infix

/-!
# Balanced texts between parentheses

What is read backwards over a balanced text is read with as many parentheses open as before
(`openBefore_append`), so the last parenthesis of `before(inner)` is opened by the one in front of
`inner` (`lastOpenIndex_append`). What is split at commas forwards goes over a balanced text in the
same way (`fieldsWithin_append`), so balanced fields that have their commas inside of parentheses
are the fields of the text that joins them (`fieldsWithin_intercalate`).

So a function type is split in front of the balanced text in its last parentheses
(`Parts.ofSpelling_eq_ok_iff`), and the returned type in front of that in its own
(`Parts.ofReturns_eq_ok_iff`).
-/

namespace CSpelling

open Text

/-- The parentheses match each other. -/
structure Balanced (s : Text) : Prop where
  /-- As many are closed as are opened. -/
  total : s.count ')' = s.count '('
  /-- None is closed before it is opened. -/
  upTo : ∀ t, t <+: s → t.count ')' ≤ t.count '('

/-- Every comma stands inside of parentheses. -/
def CommasInside (s : Text) : Prop := ∀ t, t ++ [','] <+: s → t.count ')' < t.count '('

instance (s : Text) : Decidable (Balanced s) :=
  decidable_of_iff (s.count ')' = s.count '(' ∧ ∀ t ∈ s.inits, t.count ')' ≤ t.count '(')
    ⟨fun ⟨htotal, hupTo⟩ => ⟨htotal, fun t ht => hupTo t ((List.mem_inits t s).2 ht)⟩,
      fun h => ⟨h.total, fun t ht => h.upTo t ((List.mem_inits t s).1 ht)⟩⟩

instance (s : Text) : Decidable (CommasInside s) :=
  decidable_of_iff (∀ t ∈ s.inits, t ++ [','] <+: s → t.count ')' < t.count '(')
    ⟨fun h t ht => h t ((List.mem_inits t s).2 ((List.prefix_append t [',']).trans ht)) ht,
      fun h t _ => h t⟩

variable {s t : Text}

/-! ## Balanced texts -/

namespace Balanced

theorem of_forall (h : ∀ c ∈ s, c ≠ '(' ∧ c ≠ ')') : Balanced s := by
  have hnone (t : Text) (ht : t <+: s) : t.count ')' = 0 ∧ t.count '(' = 0 :=
    ⟨List.count_eq_zero.2 fun hmem => (h _ (ht.subset hmem)).2 rfl,
      List.count_eq_zero.2 fun hmem => (h _ (ht.subset hmem)).1 rfl⟩
  obtain ⟨hclose, hopen⟩ := hnone s List.prefix_rfl
  refine ⟨by rw [hclose, hopen], fun t ht => ?_⟩
  rw [(hnone t ht).1]
  exact Nat.zero_le _

theorem append (hs : Balanced s) (ht : Balanced t) : Balanced (s ++ t) := by
  refine ⟨by rw [List.count_append, List.count_append, hs.total, ht.total], fun u hu => ?_⟩
  rcases List.prefix_or_prefix_of_prefix hu (List.prefix_append s t) with h | ⟨v, rfl⟩
  · exact hs.upTo u h
  · have := ht.upTo v ((List.prefix_append_right_inj s).1 hu)
    rw [List.count_append, List.count_append, hs.total]
    omega

/-- Backwards, no more parentheses are opened than were closed. -/
theorem from_end (hs : Balanced s) {v : Text} (hv : v <+: s.reverse) :
    v.count '(' ≤ v.count ')' := by
  obtain ⟨u, hu⟩ := hv
  have hsplit : s = u.reverse ++ v.reverse := by
    rw [← List.reverse_append, hu, List.reverse_reverse]
  have hfront := hs.upTo u.reverse ⟨_, hsplit.symm⟩
  have htotal := hs.total
  rw [hsplit, List.count_append, List.count_append, List.count_reverse, List.count_reverse,
    List.count_reverse, List.count_reverse] at htotal
  rw [List.count_reverse, List.count_reverse] at hfront
  omega

/-- Parentheses match each other if they do backwards. -/
theorem of_from_end (htotal : s.count ')' = s.count '(')
    (h : ∀ v, v <+: s.reverse → v.count '(' ≤ v.count ')') : Balanced s := by
  refine ⟨htotal, fun t ht => ?_⟩
  obtain ⟨u, rfl⟩ := ht
  have hback := h u.reverse ⟨t.reverse, by rw [List.reverse_append]⟩
  rw [List.count_append, List.count_append] at htotal
  rw [List.count_reverse, List.count_reverse] at hback
  omega

end Balanced

/-! ## Opening parentheses -/

/-- What is passed on the way back to the parenthesis that opens the first of `depth + 1`. -/
theorem exists_of_openBefore {depth index : Nat} {l : Text}
    (h : openBefore (depth + 1) l = some index) :
    ∃ u before, l = u ++ '(' :: before ∧ index = before.length ∧
      u.count '(' = u.count ')' + depth ∧
      ∀ v, v <+: u → v.count '(' ≤ v.count ')' + depth := by
  induction l generalizing depth with
  | nil => cases h
  | cons c rest ih =>
    -- What is passed behind `c` is passed in front of it as well.
    have hcons {n : Nat} {u before : Text} (hrest : rest = u ++ '(' :: before)
        (htotal : u.count '(' = u.count ')' + n)
        (hupTo : ∀ v, v <+: u → v.count '(' ≤ v.count ')' + n)
        (hstep : n + (if c = '(' then 1 else 0) = depth + if c = ')' then 1 else 0) :
        c :: rest = c :: u ++ '(' :: before ∧ (c :: u).count '(' = (c :: u).count ')' + depth ∧
          ∀ v, v <+: c :: u → v.count '(' ≤ v.count ')' + depth := by
      refine ⟨by rw [hrest, List.cons_append], ?_, fun v hv => ?_⟩
      · simp only [List.count_cons, beq_iff_eq]
        omega
      · cases v with
        | nil => exact Nat.zero_le _
        | cons d v =>
          obtain ⟨rfl, hrest⟩ := List.cons_prefix_cons.1 hv
          have := hupTo v hrest
          simp only [List.count_cons, beq_iff_eq]
          omega
    rw [openBefore] at h
    split_ifs at h with hclose hopen hlast
    · obtain ⟨u, before, hrest, rfl, htotal, hupTo⟩ := ih h
      obtain ⟨hwhole, htotal, hupTo⟩ := hcons hrest htotal hupTo (by simp [hclose])
      exact ⟨c :: u, before, hwhole, rfl, htotal, hupTo⟩
    · obtain rfl : depth = 0 := by omega
      subst hopen
      exact ⟨[], rest, rfl, (Option.some.inj h).symm, rfl, fun v hv => by
        rw [List.prefix_nil.1 hv]
        exact Nat.zero_le _⟩
    · obtain ⟨n, rfl⟩ : ∃ n, depth = n + 1 := ⟨depth - 1, by omega⟩
      obtain ⟨u, before, hrest, rfl, htotal, hupTo⟩ := ih h
      obtain ⟨hwhole, htotal, hupTo⟩ := hcons hrest htotal hupTo (by simp [hopen])
      exact ⟨c :: u, before, hwhole, rfl, htotal, hupTo⟩
    · obtain ⟨u, before, hrest, rfl, htotal, hupTo⟩ := ih h
      obtain ⟨hwhole, htotal, hupTo⟩ := hcons hrest htotal hupTo (by simp [hopen, hclose])
      exact ⟨c :: u, before, hwhole, rfl, htotal, hupTo⟩

/-- Reading backwards over a text that opens none of the `depth` parentheses that are closed behind
it only changes how many of them there are. -/
theorem openBefore_append {depth : Nat} {u before : Text}
    (h : ∀ v, v <+: u → v.count '(' < depth + v.count ')') :
    openBefore depth (u ++ before) = openBefore (depth + u.count ')' - u.count '(') before := by
  induction u generalizing depth with
  | nil => rfl
  | cons c rest ih =>
    have hdepth : 0 < depth := h [] List.nil_prefix
    have hrest (v : Text) (hv : v <+: rest) :
        v.count '(' + (if c = '(' then 1 else 0) <
          depth + (v.count ')' + if c = ')' then 1 else 0) := by
      have := h (c :: v) (List.cons_prefix_cons.2 ⟨rfl, hv⟩)
      simpa [List.count_cons] using this
    rw [List.cons_append, openBefore]
    split_ifs with hclose hopen hlast
    · subst hclose
      rw [ih fun v hv => by have := hrest v hv; simp at this; omega, List.count_cons_self,
        List.count_cons_of_ne (by decide)]
      congr 1
      omega
    · subst hopen
      have := hrest [] List.nil_prefix
      simp at this
      omega
    · subst hopen
      rw [ih fun v hv => by have := hrest v hv; simp at this; omega, List.count_cons_self,
        List.count_cons_of_ne (by decide)]
      congr 1
      omega
    · rw [ih fun v hv => by have := hrest v hv; simpa [hclose, hopen] using this,
        List.count_cons_of_ne hclose, List.count_cons_of_ne hopen]

/-- **The last parenthesis behind a balanced text is opened by the one in front of it.** -/
theorem lastOpenIndex_append (before : Text) {inner : Text} (h : Balanced inner) :
    lastOpenIndex (before ++ '(' :: (inner ++ [')'])) = some before.length := by
  have hlength : (before ++ '(' :: (inner ++ [')'])).length - 1 + 1 =
      (before ++ '(' :: (inner ++ [')'])).length := by
    simp only [List.length_append, List.length_cons]
    omega
  have hreverse : (before ++ '(' :: (inner ++ [')'])).reverse =
      ')' :: (inner.reverse ++ '(' :: before.reverse) := by simp
  have hdepth : 0 + 1 + inner.reverse.count ')' - inner.reverse.count '(' = 1 := by
    rw [List.count_reverse, List.count_reverse, h.total]
    omega
  rw [lastOpenIndex, openIndex, hlength, List.take_length, hreverse, openBefore, if_pos rfl,
    openBefore_append fun v hv => by have := h.from_end hv; omega, hdepth, openBefore,
    if_neg (by decide), if_pos rfl, if_pos le_rfl, List.length_reverse]

theorem lastOpenIndex_concat (front : Text) :
    lastOpenIndex (front ++ [')']) = openBefore (0 + 1) front.reverse := by
  have hlength : (front ++ [')']).length - 1 + 1 = (front ++ [')']).length := by simp
  rw [lastOpenIndex, openIndex, hlength, List.take_length, List.reverse_append,
    List.reverse_singleton, List.singleton_append, openBefore, if_pos rfl]

/-- **The last parenthesis has a balanced text in front of it, up to the one that opens it.** -/
theorem exists_of_lastOpenIndex {index : Nat} (hlast : s.getLast? = some ')')
    (h : lastOpenIndex s = some index) :
    ∃ before inner, s = before ++ '(' :: (inner ++ [')']) ∧ Balanced inner ∧
      index = before.length := by
  obtain ⟨front, rfl⟩ := List.getLast?_eq_some_iff.1 hlast
  rw [lastOpenIndex_concat] at h
  obtain ⟨u, before, hsplit, rfl, htotal, hupTo⟩ := exists_of_openBefore h
  refine ⟨before.reverse, u.reverse, ?_, Balanced.of_from_end ?_ fun v hv => ?_, ?_⟩
  · rw [← List.reverse_reverse front, hsplit]
    simp
  · rw [List.count_reverse, List.count_reverse, htotal, Nat.add_zero]
  · rw [List.reverse_reverse] at hv
    exact hupTo v hv
  · rw [List.length_reverse]

/-! ## Fields -/

theorem foldr_consField (s f : Text) (fields : List Text) :
    s.foldr consField (f :: fields) = (s ++ f) :: fields := by
  induction s with
  | nil => rfl
  | cons c rest ih => rw [List.foldr_cons, ih, consField, List.cons_append]

/-- Splitting at commas goes over a text whose commas stand inside of parentheses. -/
theorem fieldsWithin_append {depth : Nat}
    (hupTo : ∀ u, u <+: s → u.count ')' ≤ depth + u.count '(')
    (hcommas : ∀ u, u ++ [','] <+: s → u.count ')' < depth + u.count '(') :
    fieldsWithin depth (s ++ t) =
      s.foldr consField (fieldsWithin (depth + s.count '(' - s.count ')') t) := by
  induction s generalizing depth with
  | nil => rfl
  | cons c rest ih =>
    have hrest (u : Text) (hu : u <+: rest) :
        u.count ')' + (if c = ')' then 1 else 0) ≤
          depth + (u.count '(' + if c = '(' then 1 else 0) := by
      have := hupTo (c :: u) (List.cons_prefix_cons.2 ⟨rfl, hu⟩)
      simpa [List.count_cons] using this
    have hinner (u : Text) (hu : u ++ [','] <+: rest) :
        u.count ')' + (if c = ')' then 1 else 0) <
          depth + (u.count '(' + if c = '(' then 1 else 0) := by
      have := hcommas (c :: u) (List.cons_prefix_cons.2 ⟨rfl, hu⟩)
      simpa [List.count_cons] using this
    rw [List.cons_append, fieldsWithin, List.foldr_cons]
    split_ifs with hopen hclose hcomma
    · subst hopen
      rw [ih (fun u hu => by have := hrest u hu; simp at this; omega)
        (fun u hu => by have := hinner u hu; simp at this; omega), List.count_cons_self,
        List.count_cons_of_ne (by decide)]
      congr 3
      omega
    · subst hclose
      have hdepth := hrest [] List.nil_prefix
      simp at hdepth
      rw [ih (fun u hu => by have := hrest u hu; simp at this; omega)
        (fun u hu => by have := hinner u hu; simp at this; omega), List.count_cons_self,
        List.count_cons_of_ne (by decide)]
      congr 3
      omega
    · obtain ⟨rfl, rfl⟩ := hcomma
      have := hcommas [] (List.cons_prefix_cons.2 ⟨rfl, List.nil_prefix⟩)
      simp at this
    · rw [ih (fun u hu => by have := hrest u hu; simpa [hopen, hclose] using this)
        (fun u hu => by have := hinner u hu; simpa [hopen, hclose] using this),
        List.count_cons_of_ne hclose, List.count_cons_of_ne hopen]

/-- The text is one field: it is balanced, and its commas stand inside of parentheses. -/
structure IsField (s : Text) : Prop where
  /-- The parentheses match each other. -/
  balanced : Balanced s
  /-- Commas stand inside of them. -/
  commas : CommasInside s

namespace IsField

theorem fieldsWithin_append (h : IsField s) (t : Text) :
    fieldsWithin 0 (s ++ t) = s.foldr consField (fieldsWithin 0 t) := by
  have hdepth : 0 + s.count '(' - s.count ')' = 0 := by
    rw [h.balanced.total]
    omega
  rw [CSpelling.fieldsWithin_append (fun u hu => by have := h.balanced.upTo u hu; omega)
    (fun u hu => by have := h.commas u hu; omega), hdepth]

theorem cons_space (h : IsField s) : IsField (' ' :: s) := by
  refine ⟨(Balanced.of_forall (s := [' ']) (by decide)).append h.balanced, fun t ht => ?_⟩
  cases t with
  | nil => cases (List.cons_prefix_cons.1 ht).1
  | cons c rest =>
    obtain ⟨rfl, hrest⟩ := List.cons_prefix_cons.1 ht
    simpa using h.commas rest hrest

end IsField

/-- **Fields are the pieces between the commas that join them**; a space follows each comma. -/
theorem fieldsWithin_intercalate {field : Text} {fields : List Text} (hfield : IsField field)
    (hfields : ∀ f ∈ fields, IsField f) :
    fieldsWithin 0 (listSeparator.intercalate (field :: fields)) =
      field :: fields.map (' ' :: ·) := by
  induction fields generalizing field with
  | nil =>
    have := hfield.fieldsWithin_append []
    rw [List.append_nil] at this
    rw [List.intercalate_singleton, this, fieldsWithin, foldr_consField, List.append_nil]
    rfl
  | cons next rest ih =>
    have hjoin : listSeparator.intercalate (field :: next :: rest) =
        field ++ ',' :: listSeparator.intercalate ((' ' :: next) :: rest) := by
      cases rest <;> simp [listSeparator, List.intercalate_cons_cons]
    have hcomma (u : Text) : fieldsWithin 0 (',' :: u) = [] :: fieldsWithin 0 u := by
      rw [fieldsWithin, if_neg (by decide), if_neg (by decide), if_pos ⟨rfl, rfl⟩]
    rw [hjoin, hfield.fieldsWithin_append, hcomma, foldr_consField, List.append_nil,
      ih (hfields next (by simp)).cons_space fun f hf => hfields f (by simp [hf])]
    rfl

/-! ## Parts -/

theorem interior_parenthesized (s : Text) : interior ('(' :: (s ++ [')'])) = s := by
  rw [Text.interior, List.drop_succ_cons, List.drop_zero, List.dropLast_concat]

/-- **A text is split in front of its last parentheses**, if it is a function type and something
stands there. -/
theorem Parts.ofSpelling_eq_ok_iff {s : Text} {parts : Parts} : Parts.ofSpelling s = .ok parts ↔
    isFunction (strip s) = true ∧ ∃ before inner, strip s = before ++ '(' :: (inner ++ [')']) ∧
      Balanced inner ∧ strip before ≠ [] ∧
      Parts.ofReturns (strip s) (strip before) ('(' :: (inner ++ [')'])) = .ok parts := by
  have hmap : Parts.ofSpelling s = .ok parts ↔ Parts.ofStripped (strip s) = .ok parts := by
    rw [Parts.ofSpelling]
    cases Parts.ofStripped (strip s) with
    | error failure => exact ⟨fun h => (by cases h), fun h => (by cases h)⟩
    | ok parts' => rfl
  rw [hmap]
  constructor
  · intro h
    unfold Parts.ofStripped at h
    split_ifs at h with hfunction hlast
    have hlast : (strip s).getLast? = some ')' := not_not.1 hlast
    split at h
    · cases h
    · cases h
    · next index _ hindex =>
      dsimp only at h
      split_ifs at h with hempty
      obtain ⟨before, inner, hsplit, hbalanced, rfl⟩ := exists_of_lastOpenIndex hlast hindex
      rw [hsplit, List.take_left] at hempty
      rw [hsplit, List.take_left, List.drop_left, ← hsplit] at h
      exact ⟨by simpa using hfunction, before, inner, hsplit, hbalanced, by simpa using hempty, h⟩
  · rintro ⟨hfunction, before, inner, hsplit, hbalanced, hne, h⟩
    have hlast : (strip s).getLast? = some ')' := by
      rw [hsplit, List.getLast?_append_cons, ← List.cons_append, List.getLast?_concat]
    obtain ⟨n, hn⟩ : ∃ n, before.length = n + 1 := by
      refine Nat.exists_eq_succ_of_ne_zero fun hzero => hne ?_
      rw [List.length_eq_zero_iff.1 hzero]
      rfl
    have hindex : lastOpenIndex (strip s) = some before.length := by
      rw [hsplit]
      exact lastOpenIndex_append before hbalanced
    have htake : (strip s).take before.length = before := by rw [hsplit, List.take_left]
    have hdrop : (strip s).drop before.length = '(' :: (inner ++ [')']) := by
      rw [hsplit, List.drop_left]
    rw [hn] at hindex htake hdrop
    rw [Parts.ofStripped, hfunction, hlast, hindex]
    simp only [htake, hdrop]
    rw [if_neg (by decide), if_neg (by decide), if_neg (by simpa using hne), h]

/-- The returned type is what stands in front of the arguments, or what a block makes of it. -/
theorem Parts.ofReturns_eq_ok_iff {s returns inner : Text} {parts : Parts} :
    Parts.ofReturns s returns ('(' :: (inner ++ [')'])) = .ok parts ↔
      returns.getLast? ≠ some ')' ∧ parts = ⟨[], topFields inner, returns⟩ ∨
      ∃ base block indirection extended, returns = base ++ '(' :: (block ++ [')']) ∧
        Balanced block ∧
        unwrapBlock ('(' :: (block ++ [')'])) base = .ok (indirection, extended) ∧
        parts = ⟨strip indirection, topFields inner, strip extended⟩ := by
  rw [Parts.ofReturns, interior_parenthesized]
  constructor
  · intro h
    split_ifs at h with hlast
    · exact .inl ⟨hlast, (Except.ok.inj h).symm⟩
    · have hlast : returns.getLast? = some ')' := not_not.1 hlast
      split at h
      · cases h
      · next index hindex =>
        obtain ⟨base, block, rfl, hbalanced, rfl⟩ := exists_of_lastOpenIndex hlast hindex
        rw [List.take_left, List.drop_left] at h
        cases hunwrap : unwrapBlock ('(' :: (block ++ [')'])) base with
        | error failure =>
          rw [hunwrap] at h
          cases h
        | ok halves =>
          rw [hunwrap] at h
          exact .inr ⟨base, block, halves.1, halves.2, rfl, hbalanced, hunwrap,
            (Except.ok.inj h).symm⟩
  · rintro (⟨hlast, rfl⟩ | ⟨base, block, indirection, extended, rfl, hbalanced, hunwrap, rfl⟩)
    · rw [if_pos hlast]
    · have hlast : (base ++ '(' :: (block ++ [')'])).getLast? = some ')' := by
        rw [List.getLast?_append_cons, ← List.cons_append, List.getLast?_concat]
      rw [if_neg (not_not.2 hlast), lastOpenIndex_append base hbalanced]
      simp only [List.take_left, List.drop_left, hunwrap]
      rfl

end CSpelling

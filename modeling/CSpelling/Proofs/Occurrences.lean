import CSpelling.Proofs.Weights

/-!
# Texts that occur in a spelling

Before a spelling is read, the texts of system headers are looked for in it. A spelling put
together from pieces is free of them if the pieces are (`FreeOf.append_cons`, `FreeOf.append`), and
is then read as it stands (`Reading.ofSpelling_of_freeOf`). A text is cut where a part occurs first
(`Text.cut_append`), and at one character in one way (`Text.append_cons_inj`).

`isFunction_eq_false_iff` says that a spelling is no function type if each of its opening
parentheses begins a marker, and `Reading.ofName?_of_without` how a spelling is read as a whole if
it holds a character that no name of the registry holds.
-/

namespace CSpelling

open Text

namespace Text

theorem occurs_iff {part s : Text} (h : part ≠ []) : occurs part s = true ↔ part <:+: s := by
  constructor
  · intro hocc
    obtain ⟨⟨before, after⟩, hcut⟩ := Option.isSome_iff_exists.1 hocc
    exact ⟨before, after, (eq_of_cut hcut).symm⟩
  · intro hin
    induction s with
    | nil => exact absurd (List.infix_nil.1 hin) h
    | cons c rest ih =>
      unfold occurs cut
      cases hstart : dropStart? part (c :: rest) with
      | some after => rfl
      | none =>
        rcases List.infix_cons_iff.1 hin with ⟨after, hafter⟩ | hrest
        · rw [dropStart?_eq_some_iff.2 hafter.symm] at hstart
          cases hstart
        · obtain ⟨halves, hcut⟩ := Option.isSome_iff_exists.1 (ih hrest)
          rw [hcut]
          rfl

theorem dropStart?_cons_of_ne {c d : Char} (h : c ≠ d) (part s : Text) :
    dropStart? (d :: part) (c :: s) = none := by
  rw [dropStart?, if_neg]
  rw [List.isPrefixOf_iff_prefix, List.cons_prefix_cons]
  exact fun hpre => h hpre.1.symm

theorem cut_append_of_not_mem {c : Char} {part p : Text} (hp : c ∉ p) (t : Text) :
    cut (c :: part) (p ++ t) =
      (cut (c :: part) t).map fun halves => (p ++ halves.1, halves.2) := by
  induction p with
  | nil =>
    rw [List.nil_append]
    exact Option.map_id'.symm
  | cons d rest ih =>
    have hne : d ≠ c := fun heq => hp (by rw [heq]; exact List.mem_cons_self ..)
    rw [List.cons_append, cut, dropStart?_cons_of_ne hne, ih fun h => hp (List.mem_cons_of_mem _ h),
      Option.map_map]
    rfl

theorem cut_of_not_mem {c : Char} {part p : Text} (hp : c ∉ p) : cut (c :: part) p = none := by
  have h : cut (c :: part) (p ++ []) = _ := cut_append_of_not_mem hp []
  rwa [List.append_nil] at h

/-- A text is cut at its first part. -/
theorem cut_append {part : Text} (hne : part ≠ []) {before : Text}
    (h : ¬part <:+: before ++ part.dropLast) (after : Text) :
    cut part (before ++ (part ++ after)) = some (before, after) := by
  induction before with
  | nil =>
    obtain ⟨c, rest, rfl⟩ := List.exists_cons_of_ne_nil hne
    have hstart : dropStart? (c :: rest) (c :: rest ++ after) = some after :=
      dropStart?_eq_some_iff.2 rfl
    rw [List.nil_append, List.cons_append] at *
    rw [cut, hstart]
  | cons c before ih =>
    have hnone : dropStart? part (c :: (before ++ (part ++ after))) = none := by
      rw [← Option.not_isSome_iff_eq_none, Option.isSome_iff_exists]
      rintro ⟨rest, hrest⟩
      have hsplit : c :: (before ++ (part ++ after)) =
          (c :: before ++ part.dropLast) ++ (part.getLast hne :: after) := by
        conv_lhs => rw [← List.dropLast_append_getLast hne]
        simp
      have hpre : part <+: c :: before ++ part.dropLast :=
        List.prefix_of_prefix_length_le ⟨rest, (dropStart?_eq_some_iff.1 hrest).symm⟩
          ⟨_, hsplit.symm⟩ (by simp; omega)
      exact h hpre.isInfix
    rw [List.cons_append, cut, hnone, ih fun hin => h (List.infix_cons hin)]
    rfl

/-- A text is not cut behind an occurrence of the part. -/
theorem length_le_of_cut {part s before after : Text} (h : cut part s = some (before, after))
    {a b : Text} (hs : s = a ++ (part ++ b)) : before.length ≤ a.length := by
  induction s generalizing before a with
  | nil => cases h
  | cons d rest ih =>
    unfold cut at h
    split at h
    · obtain ⟨rfl, -⟩ := Prod.mk.inj (Option.some.inj h)
      exact Nat.zero_le _
    · next hstart =>
      obtain ⟨⟨front, back⟩, hcut, heq⟩ := Option.map_eq_some_iff.1 h
      obtain ⟨rfl, rfl⟩ := Prod.mk.inj heq
      cases a with
      | nil =>
        rw [hs, List.nil_append, dropStart?_eq_some_iff.2 rfl] at hstart
        cases hstart
      | cons e a => exact Nat.succ_le_succ (ih hcut (List.cons.inj hs).2)

/-- A text is cut in one way at the first place of a character. -/
theorem append_cons_inj {c : Char} {s t u v : Text} (hs : c ∉ s) (ht : c ∉ t)
    (h : s ++ c :: u = t ++ c :: v) : s = t ∧ u = v := by
  have hfront {s u : Text} (hs : c ∉ s) : (s ++ c :: u).takeWhile (· != c) = s := by
    have hinside : ∀ d ∈ s, (d != c) = true := fun d hd => bne_iff_ne.2 (ne_of_mem_of_not_mem hd hs)
    rw [List.takeWhile_append_of_pos hinside]
    simp
  obtain rfl : s = t := by rw [← hfront hs, h, hfront ht]
  exact ⟨rfl, (List.cons.inj (List.append_cancel_left h)).2⟩

/-- A text is cut in one way at the last place of a character. -/
theorem append_cons_inj_last {c : Char} {s t u v : Text} (hu : c ∉ u) (hv : c ∉ v)
    (h : s ++ c :: u = t ++ c :: v) : s = t ∧ u = v := by
  have hreverse : u.reverse ++ c :: s.reverse = v.reverse ++ c :: t.reverse := by
    simpa using congrArg List.reverse h
  obtain ⟨huv, hst⟩ := append_cons_inj (by simpa using hu) (by simpa using hv) hreverse
  exact ⟨List.reverse_injective hst, List.reverse_injective huv⟩

theorem replace_of_not_infix {old s : Text} (h : ¬old <:+: s) (new : Text) :
    replace old new s = s := by
  unfold replace
  induction s with
  | nil => rfl
  | cons c rest ih =>
    obtain ⟨hstart, hrest⟩ := not_or.1 (mt List.infix_cons_iff.2 h)
    rw [replaceAfter, if_neg (mt List.isPrefixOf_iff_prefix.1 hstart), ih hrest]

theorem not_infix_append_cons {part a b : Text} {c : Char} (hc : c ∉ part) (ha : ¬part <:+: a)
    (hb : ¬part <:+: b) : ¬part <:+: a ++ c :: b := by
  rw [List.infix_append_iff_ne_nil, List.infix_cons_iff]
  rintro (h | (h | h) | ⟨front, back, -, hback, rfl, -, h⟩)
  · exact ha h
  · cases part with
    | nil => exact ha List.nil_infix
    | cons d tail =>
      rw [(List.cons_prefix_cons.1 h).1] at hc
      exact hc (by simp)
  · exact hb h
  · obtain ⟨d, tail, rfl⟩ := List.exists_cons_of_ne_nil hback
    rw [(List.cons_prefix_cons.1 h).1] at hc
    exact hc (by simp)

theorem not_infix_append {part a t : Text} (ha : ¬part <:+: a) (ht : ∀ c ∈ part.getLast?, c ∉ t) :
    ¬part <:+: a ++ t := by
  rw [List.infix_append_iff_ne_nil]
  rintro (h | h | ⟨front, back, -, hback, rfl, -, h⟩)
  · exact ha h
  · have hne : part ≠ [] := by
      rintro rfl
      exact ha List.nil_infix
    exact ht _ (List.getLast?_eq_some_getLast hne) (h.subset (List.getLast_mem hne))
  · refine ht (back.getLast hback) ?_ (h.subset (List.getLast_mem hback))
    rw [List.getLast?_append_of_ne_nil _ hback, List.getLast?_eq_some_getLast hback]
    rfl

theorem not_infix_cons {part b : Text} {c : Char} (hc : part.head? ≠ some c)
    (hb : ¬part <:+: b) : ¬part <:+: c :: b := by
  rw [List.infix_cons_iff]
  rintro (h | h)
  · cases part with
    | nil => exact hb List.nil_infix
    | cons d tail => exact hc (by rw [(List.cons_prefix_cons.1 h).1]; rfl)
  · exact hb h

end Text

/-! ## Texts of system headers -/

/-- The texts that are looked for in every spelling. -/
def systemTexts : List Text := localeStruct :: fragments.map Prod.fst

/-- None of the texts of system headers occurs in the spelling. -/
def FreeOf (s : Text) : Prop := ∀ part ∈ systemTexts, ¬part <:+: s

instance (s : Text) : Decidable (FreeOf s) :=
  inferInstanceAs (Decidable (∀ part ∈ systemTexts, ¬part <:+: s))

namespace FreeOf

theorem nil : FreeOf [] := by
  have all : ∀ part ∈ systemTexts, part ≠ [] := by decide +kernel
  exact fun part hpart h => all part hpart (List.infix_nil.1 h)

/-- The texts hold no punctuation. -/
theorem append_cons {a b : Text} {c : Char} (ha : FreeOf a) (hc : c ∈ ['*', '(', ')', ','])
    (hb : FreeOf b) : FreeOf (a ++ c :: b) := by
  have all : ∀ c ∈ ['*', '(', ')', ','], ∀ part ∈ systemTexts, c ∉ part := by decide +kernel
  intro part hpart
  exact not_infix_append_cons (all c hc part hpart) (ha part hpart) (hb part hpart)

/-- The texts end in a letter. -/
theorem append {a t : Text} (ha : FreeOf a) (ht : ∀ c ∈ t, c.isAlpha = false) :
    FreeOf (a ++ t) := by
  have all : ∀ part ∈ systemTexts, ∀ c ∈ part.getLast?, c.isAlpha = true := by decide
  refine fun part hpart => not_infix_append (ha part hpart) fun c hc hmem => ?_
  exact absurd (all part hpart c hc) (by simp [ht c hmem])

/-- The texts do not begin with a space. -/
theorem cons_space {b : Text} (hb : FreeOf b) : FreeOf (' ' :: b) := by
  have all : ∀ part ∈ systemTexts, part.head? ≠ some ' ' := by decide
  exact fun part hpart => not_infix_cons (all part hpart) (hb part hpart)

theorem not_occurs {s : Text} (h : FreeOf s) : occurs localeStruct s = false := by
  rw [Bool.eq_false_iff, Ne, occurs_iff (by decide)]
  exact h localeStruct (by simp [systemTexts])

theorem substitute {s : Text} (h : FreeOf s) : Reading.substitute s = s := by
  have hparts : ∀ f ∈ fragments, ¬f.1 <:+: s := fun f hf =>
    h f.1 (List.mem_cons_of_mem _ (List.mem_map_of_mem hf))
  unfold Reading.substitute
  revert hparts
  induction fragments with
  | nil => exact fun _ => rfl
  | cons f rest ih =>
    intro hparts
    rw [List.foldl_cons, replace_of_not_infix (hparts f (by simp))]
    exact ih fun g hg => hparts g (by simp [hg])

end FreeOf

/-- A spelling without colons is read as its normal spelling stands if that is not empty and no
text of a system header occurs in it. -/
theorem Reading.ofSpelling_of_freeOf (reg : Registry) (unwind : Bool) {spelling s : Text}
    (hcolon : ':' ∉ spelling) (hs : normalize spelling = s) (hne : s ≠ []) (hfree : FreeOf s) :
    ofSpelling reg unwind spelling = (ofName? reg unwind s).getD (ofForm s) := by
  rw [ofSpelling, if_neg (by simpa using hcolon)]
  simp only [hs, hfree.not_occurs, hfree.substitute]
  rw [if_neg (by simpa using hne), if_neg (by decide)]

/-- A spelling is read as any other of the same normal spelling, if no colon stands in either. -/
theorem Reading.ofSpelling_congr (reg : Registry) (unwind : Bool) {s t : Text} (hs : ':' ∉ s)
    (ht : ':' ∉ t) (h : normalize s = normalize t) (hne : normalize t ≠ []) :
    ofSpelling reg unwind s = ofSpelling reg unwind t := by
  have hs : s.contains ':' = false := by simpa using hs
  have ht : t.contains ':' = false := by simpa using ht
  have hne : (normalize t).isEmpty = false := by simpa using hne
  unfold ofSpelling
  simp only [hs, ht, h, hne, Bool.false_eq_true, if_false]

/-! ## Markers -/

theorem not_mem_replaceAfter_marker_iff (skip : Nat) (s : Text) :
    '(' ∉ replaceAfter marker [] skip s ↔
      Along (fun c rest => c = '(' → ['*', ')'] <+: rest) (s.drop skip) := by
  induction s generalizing skip with
  | nil => simp [replaceAfter]
  | cons c rest ih =>
    cases skip with
    | succ skip => exact ih skip
    | zero =>
      rw [replaceAfter, List.drop_zero, along_cons]
      split
      · next hmarker =>
        obtain ⟨rfl, hrest⟩ := List.cons_prefix_cons.1 (List.isPrefixOf_iff_prefix.1 hmarker)
        obtain ⟨after, rfl⟩ := hrest
        have := ih 2
        simpa [marker] using this
      · next hmarker =>
        have hne : (c = '(' → ['*', ')'] <+: rest) ↔ c ≠ '(' := by
          refine ⟨fun h hc => hmarker ?_, fun h hc => absurd hc h⟩
          rw [List.isPrefixOf_iff_prefix, marker, List.cons_prefix_cons]
          exact ⟨hc.symm, h hc⟩
        rw [List.mem_cons, not_or, hne, ih 0, List.drop_zero, ne_comm]

/-- A spelling is no function type if all its parentheses are those of markers. -/
theorem isFunction_eq_false_iff {s : Text} :
    isFunction s = false ↔ Along (fun c rest => c = '(' → ['*', ')'] <+: rest) s := by
  rw [isFunction, replace, Bool.eq_false_iff, Ne, List.contains_iff_mem]
  exact not_mem_replaceAfter_marker_iff 0 s

theorem isFunction_of_not_mem {s : Text} (h : '(' ∉ s) : isFunction s = false := by
  refine isFunction_eq_false_iff.2 (along_iff.2 fun before c rest hs hc => absurd ?_ h)
  rw [hs, hc]
  simp

/-! ## Names -/

theorem lookup_eq_none_of_mem {table : List (Text × Text)} {s : Text} {x : Char} (hs : x ∈ s)
    (h : ∀ k ∈ table.map Prod.fst, x ∉ k) : table.lookup s = none := by
  rw [List.lookup_eq_none_iff]
  intro entry hentry
  rw [bne_iff_ne]
  rintro rfl
  exact h _ (List.mem_map_of_mem hentry) hs

theorem mem_of_lookup {table : List (Text × Text)} {s t : Text} (h : table.lookup s = some t) :
    (s, t) ∈ table := by
  obtain ⟨before, after, hsplit, -⟩ := List.lookup_eq_some_iff.1 h
  rw [hsplit]
  exact List.mem_append_right _ List.mem_cons_self

/-- A name without a slash belongs to no package. -/
theorem Import.ofName_of_not_mem {name : Text} (h : '/' ∉ name) : ofName name = ⟨[], name⟩ := by
  rw [ofName, cutLast_eq_none_iff.2 h]

namespace Registry

/-- The names that the registry stores. -/
def names (reg : Registry) : List Text :=
  reg.typedefs.map Prod.fst ++ reg.bases.map Prod.fst ++ reg.enums ++ reg.declared

/-- No name of the registry holds the character. -/
def Without (reg : Registry) (x : Char) : Prop := ∀ name ∈ reg.names, x ∉ name

instance (reg : Registry) (x : Char) : Decidable (reg.Without x) :=
  inferInstanceAs (Decidable (∀ name ∈ reg.names, x ∉ name))

namespace Without

variable {reg : Registry} {x : Char} {s : Text}

theorem underlying? (h : reg.Without x) (hs : x ∈ s) : reg.underlying? s = none :=
  lookup_eq_none_of_mem hs fun k hk => h k (by simp only [names, List.mem_append]; tauto)

theorem base? (h : reg.Without x) (hs : x ∈ s) : reg.base? s = none :=
  lookup_eq_none_of_mem hs fun k hk => h k (by simp only [names, List.mem_append]; tauto)

theorem isEnum (h : reg.Without x) (hs : x ∈ s) : reg.isEnum s = false := by
  rw [Registry.isEnum, Bool.eq_false_iff, Ne, List.contains_iff_mem]
  exact fun hmem => h s (by simp only [names, List.mem_append]; tauto) hs

theorem isDeclared (h : reg.Without x) (hs : x ∈ s) : reg.isDeclared s = false := by
  rw [Registry.isDeclared, Bool.eq_false_iff, Ne, List.contains_iff_mem]
  exact fun hmem => h s (by simp only [names, List.mem_append]; tauto) hs

end Without

end Registry

/-- Without a star at the end there is no pointer to a function. -/
theorem Registry.functionPointee?_of_getLast? (reg : Registry) {s : Text}
    (h : s.getLast? ≠ some '*') : reg.functionPointee? s = none := by
  unfold functionPointee? pointerEnd
  cases hend : dropEnd? [' ', '*'] s with
  | none => rfl
  | some before =>
    rw [dropEnd?_eq_some_iff.1 hend, List.getLast?_append_cons] at h
    exact absurd rfl h

/-- A spelling that holds a character that no name holds is a function type, or is read as a whole
by the tables or as a pointer to a function alone. -/
theorem Reading.ofName?_of_without {reg : Registry} {x : Char} {s : Text} (h : reg.Without x)
    (hs : x ∈ s) (hx : ∀ keyword ∈ [structKeyword, unionKeyword, classKeyword], x ∉ keyword)
    (unwind : Bool) :
    ofName? reg unwind s =
      ((primitives.lookup s).map .named).or (((reg.functionPointee? s).map .descriptor).or
        (((standardStructs.lookup s).map .named).or
          (if isFunction s then some (.function s) else none))) := by
  have hdeclared : ofDeclared? reg s = none := by
    have htag : x ∈ (afterKeyword? [structKeyword, unionKeyword, classKeyword] s).getD s := by
      cases hafter : afterKeyword? [structKeyword, unionKeyword, classKeyword] s with
      | none => exact hs
      | some tag =>
        obtain ⟨keyword, hkeyword, hdrop⟩ := List.exists_of_findSome?_eq_some hafter
        rw [dropStart?_eq_some_iff.1 hdrop] at hs
        exact (List.mem_append.1 hs).resolve_left (hx keyword hkeyword)
    unfold ofDeclared?
    simp only [h.isDeclared htag]
    rfl
  rw [ofName?, unionTag?, h.base? hs, keepsName, h.underlying? hs, ofAlias?, h.isEnum hs,
    h.underlying? hs, hdeclared]
  cases primitives.lookup s with
  | some d => rfl
  | none =>
    cases reg.functionPointee? s with
    | some name => rfl
    | none =>
      cases standardStructs.lookup s with
      | some d => rfl
      | none => cases unwind <;> rfl

/-- A spelling with a parenthesis or a bracket is read as a whole as a function type alone, if no
name of the registry holds such a character. -/
theorem Reading.ofName?_of_mem {reg : Registry} {x : Char} {s : Text} (h : reg.Without x)
    (hs : x ∈ s) (hx : x = '(' ∨ x = '[') (unwind : Bool) :
    ofName? reg unwind s = if isFunction s then some (.function s) else none := by
  have hall : ∀ x ∈ ['(', '['], x ∉ Registry.pointerEnd ∧
      (∀ keyword ∈ [structKeyword, unionKeyword, classKeyword], x ∉ keyword) ∧
      (∀ k ∈ primitives.map Prod.fst, x ∉ k) ∧ ∀ k ∈ standardStructs.map Prod.fst, x ∉ k := by
    decide +kernel
  obtain ⟨hpointer, hkeywords, hprimitives, hstructs⟩ := hall x (by simpa using hx)
  have hpointee : reg.functionPointee? s = none := by
    rw [Registry.functionPointee?, Option.filter_eq_none_iff]
    intro name hname
    have hmem : x ∈ name := by
      rw [dropEnd?_eq_some_iff.1 hname] at hs
      exact (List.mem_append.1 hs).resolve_right hpointer
    rw [Registry.namesFunction, h.underlying? hmem]
    simp
  rw [ofName?_of_without h hs hkeywords, lookup_eq_none_of_mem hs hprimitives, hpointee,
    lookup_eq_none_of_mem hs hstructs]
  rfl

end CSpelling

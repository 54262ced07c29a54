import CSpelling.Proofs.FunctionTypes
import CSpelling.Proofs.ResizedReadings
import CSpelling.Proofs.Results

/-!
# Resolution with other array sizes

Spellings that differ in array sizes alone resolve alike: both or neither, and to descriptors that
differ in array sizes alone (`Registry.resized_resolve`). Arrays lose their sizes on the way, but a
block in front of arguments leaves its sizes in the indirection of the function type, and a keyword
of an aggregate all that stands behind it.
-/

namespace CSpelling

open Text CSpelling.Normal CSpelling.Decorations

variable {α β γ δ : Type} {R : α → β → Prop} {S : γ → δ → Prop} {s t : Text}

/-! ## Results -/

/-- Related values, or failures of the same kind. -/
inductive ResultRel (R : α → β → Prop) : Except Failure α → Except Failure β → Prop
  /-- There are values. -/
  | ok {a : α} {b : β} : R a b → ResultRel R (.ok a) (.ok b)
  /-- Both fail. -/
  | error {f g : Failure} : f.kind = g.kind → ResultRel R (.error f) (.error g)

/-- What is said here of failures is that their kinds agree. -/
theorem resultRel_iff {x : Except Failure α} {y : Except Failure β} :
    ResultRel R x y ↔ Related (fun f g => f.kind = g.kind) R x y := by
  constructor
  · rintro (h | h)
    · exact .ok h
    · exact .error h
  · rintro (h | h)
    · exact .ok h
    · exact .error h

namespace ResultRel

theorem refl {R : α → α → Prop} (hR : ∀ a, R a a) (x : Except Failure α) : ResultRel R x x :=
  resultRel_iff.2 (.refl (fun f => Eq.refl f.kind) hR x)

theorem map {x : Except Failure α} {y : Except Failure β} {f : α → γ} {g : β → δ}
    (hmap : ∀ a b, R a b → S (f a) (g b)) (h : ResultRel R x y) :
    ResultRel S (x.map f) (y.map g) :=
  resultRel_iff.2 ((resultRel_iff.1 h).map hmap)

theorem within {x : Except Failure α} {y : Except Failure β} (context context' : Context)
    (h : ResultRel R x y) : ResultRel R (x.mapError (Failure.within context))
      (y.mapError (Failure.within context')) :=
  resultRel_iff.2 ((resultRel_iff.1 h).within fun _ _ hkind => hkind)

theorem bind {x : Except Failure α} {y : Except Failure β} {f : α → Except Failure γ}
    {g : β → Except Failure δ} (h : ResultRel R x y)
    (hnext : ∀ a b, R a b → ResultRel S (f a) (g b)) : ResultRel S (x.bind f) (y.bind g) :=
  resultRel_iff.2 ((resultRel_iff.1 h).bind fun a b hab => resultRel_iff.1 (hnext a b hab))

theorem andThen {x : Trace α} {y : Trace β} {f : α → Trace γ} {g : β → Trace δ}
    (h : ResultRel R x.result y.result)
    (hnext : ∀ a b, R a b → ResultRel S (f a).result (g b).result) :
    ResultRel S (x.andThen f).result (y.andThen g).result :=
  resultRel_iff.2 ((resultRel_iff.1 h).andThen fun a b hab => resultRel_iff.1 (hnext a b hab))

theorem traverse {f : α → Trace γ} {g : β → Trace δ} {l : List α} {l' : List β}
    (hl : List.Forall₂ R l l') (h : ∀ a b, R a b → ResultRel S (f a).result (g b).result) :
    ResultRel (List.Forall₂ S) (Trace.traverse f l).result (Trace.traverse g l').result :=
  resultRel_iff.2 (.traverse hl fun a b hab => resultRel_iff.1 (h a b hab))

end ResultRel

/-! ## Blocks -/

theorem resized_interior (h : Resized s t) (hopen : s.head? = some '(')
    (hclose : s.getLast? = some ')') : Resized (interior s) (interior t) := by
  obtain ⟨front, rfl⟩ := List.getLast?_eq_some_iff.1 hclose
  obtain ⟨front', rfl, hfront⟩ := h.append_inv_right (b := [')']) (by decide)
  cases front with
  | nil => cases hopen
  | cons c inner =>
    obtain rfl := Option.some.inj hopen
    obtain ⟨inner', rfl, hinner⟩ := hfront.cons_inv (by decide)
    rwa [List.cons_append, List.cons_append, interior_parenthesized, interior_parenthesized]

/-- Blocks that differ in sizes have the same shape. -/
theorem resized_ofBlock (h : Resized s t) : BlockShape.ofBlock s = BlockShape.ofBlock t := by
  have hmarker : s = marker ↔ t = marker := by
    have hone {s t : Text} (h : Resized s t) (hs : s = marker) : t = marker := by
      subst hs
      exact (h.eq_of_not_mem (by decide)).symm
    exact ⟨hone h, hone h.symm⟩
  have hafter {u v : Text} (h : Resized u v) : (1 < u.length ∧ u.head? = some '(') ↔
      (1 < v.length ∧ v.head? = some '(') := by
    have hone {u v : Text} (h : Resized u v) (hu : 1 < u.length ∧ u.head? = some '(') :
        1 < v.length ∧ v.head? = some '(' := by
      obtain ⟨rest, rfl⟩ := List.head?_eq_some_iff.1 hu.2
      obtain ⟨rest', rfl, hrest⟩ := h.cons_inv (by decide)
      refine ⟨?_, rfl⟩
      cases hrest with
      | nil => exact absurd hu.1 (by decide)
      | cons => simp
      | size => simp
    exact ⟨hone h, hone h.symm⟩
  have hcut : Option.Rel _ (cut marker s) (cut marker t) :=
    resized_cut (by decide) (by decide) h
  rw [BlockShape.ofBlock, BlockShape.ofBlock]
  simp only [hmarker]
  generalize cut marker s = x, cut marker t = y at hcut
  cases hcut with
  | none => rw [h.count_eq (by decide)]
  | some hhalves => simp only [hafter hhalves.2]

theorem resized_flattenBlock (h : Resized s t) : Resized (flattenBlock s) (flattenBlock t) := by
  have hblank := h.flatMap (f := fun c => [if c = '(' ∨ c = ')' then ' ' else c]) (a := [])
    rfl rfl fun c hc => by
      rw [if_neg (not_or.2 ⟨ne_of_isDigit hc (by decide), ne_of_isDigit hc (by decide)⟩)]
  rw [← List.map_eq_flatMap, ← List.map_eq_flatMap] at hblank
  exact resized_removeFirst (by decide) (by decide) hblank

theorem resized_cutAtOpen (h : Resized s t) : Option.Rel
    (fun x y => Resized x.1 y.1 ∧ Resized x.2 y.2) (cutAtOpen s) (cutAtOpen t) := by
  have hcut : Option.Rel _ (cut ['('] s) (cut ['('] t) :=
    resized_cut (by decide) (by decide) h
  unfold cutAtOpen
  generalize cut ['('] s = x, cut ['('] t = y at hcut
  cases hcut with
  | none => exact .none
  | some hhalves => exact .some ⟨hhalves.1, .cons '(' hhalves.2⟩

/-- Without its marker a block still stands in parentheses, if arguments follow the marker. -/
theorem removeFirst_marker_of_nested {block : Text} (hopen : block.head? = some '(')
    (hclose : block.getLast? = some ')')
    (hshape : BlockShape.ofBlock block = .nestedFunctionPointer) :
    (removeFirst marker block).head? = some '(' ∧
      (removeFirst marker block).getLast? = some ')' := by
  obtain ⟨front, after, hcut, hne⟩ := BlockShape.ofBlock_eq_nestedFunctionPointer_iff.1 hshape
  have hblock := eq_of_cut hcut
  rw [hblock, List.getLast?_append_of_ne_nil _ (List.cons_ne_nil _ _)] at hclose
  rw [removeFirst, hcut]
  refine ⟨?_, by rw [List.getLast?_append_of_ne_nil _ (List.cons_ne_nil _ _), hclose]⟩
  cases front with
  | nil => rfl
  | cons c rest =>
    rw [hblock] at hopen
    exact hopen

/-- **Blocks that differ in sizes wrap alike.** -/
theorem resized_unwrapBlock {block block' base base' : Text} (h : Resized block block')
    (hbase : Resized base base') (hopen : block.head? = some '(')
    (hclose : block.getLast? = some ')') :
    ResultRel (fun x y => Resized x.1 y.1 ∧ Resized x.2 y.2) (unwrapBlock block base)
      (unwrapBlock block' base') := by
  have hflat := resized_flattenBlock h
  rw [unwrapBlock, unwrapBlock, ← resized_ofBlock h]
  cases hshape : BlockShape.ofBlock block with
  | trivialPointer => exact .ok ⟨.nil, hbase⟩
  | arrayOfPointers => exact .ok ⟨hflat, hbase⟩
  | deepIndirection => exact .ok ⟨hflat, hbase⟩
  | indirectionSequence =>
    have hcut := resized_cutAtOpen (resized_interior h hopen hclose)
    dsimp only
    generalize cutAtOpen (interior block) = x, cutAtOpen (interior block') = y at hcut
    cases hcut with
    | none => exact .error rfl
    | @some halves halves' hhalves =>
      have hstar : halves.1.contains '*' = halves'.1.contains '*' := by
        rw [Bool.eq_iff_iff, List.contains_iff_mem, List.contains_iff_mem,
          hhalves.1.mem_iff (by decide)]
      dsimp only
      rw [hstar]
      split_ifs
      · exact .ok ⟨resized_removeFirst (by decide) (by decide) hhalves.1, hbase.append hhalves.2⟩
      · exact .error rfl
  | nestedFunctionPointer =>
    obtain ⟨hopen, hclose⟩ := removeFirst_marker_of_nested hopen hclose hshape
    have hunmarked : Resized (removeFirst marker block) (removeFirst marker block') :=
      resized_removeFirst (by decide) (by decide) h
    have hcut := resized_cutAtOpen (resized_interior hunmarked hopen hclose)
    dsimp only
    generalize cutAtOpen (interior (removeFirst marker block)) = x,
      cutAtOpen (interior (removeFirst marker block')) = y at hcut
    cases hcut with
    | none => exact .error rfl
    | some hhalves => exact .ok ⟨hhalves.1, hbase.append hhalves.2⟩

/-! ## Parts -/

theorem Balanced.resized (hs : Balanced s) (h : Resized s t) : Balanced t := by
  have hfilter : s.filter isDelimiter = t.filter isDelimiter :=
    h.filter_eq fun c hc => of_isDigit (P := fun c => isDelimiter c = false) (by decide) hc
  rwa [← balanced_filter, ← hfilter, balanced_filter]

/-- The indices split the texts in front of parentheses in the same way. -/
structure SplitAlike (s t : Text) (i j : Nat) : Prop where
  /-- What stands in front differs in sizes. -/
  front : Resized (s.take i) (t.take j)
  /-- Nothing stands in front, in both or neither. -/
  zero : i = 0 ↔ j = 0
  /-- The parentheses differ in sizes. -/
  back : Resized (s.drop i) (t.drop j)
  /-- A parenthesis is opened there. -/
  start : (s.drop i).head? = some '('
  /-- A parenthesis is closed at the end. -/
  finish : (s.drop i).getLast? = some ')'

/-- The last parenthesis is opened at the same place. -/
theorem resized_lastOpenIndex (h : Resized s t) (hlast : s.getLast? = some ')') :
    Option.Rel (SplitAlike s t) (lastOpenIndex s) (lastOpenIndex t) := by
  have hone {s t : Text} {i : Nat} (h : Resized s t) (hlast : s.getLast? = some ')')
      (hs : lastOpenIndex s = some i) : ∃ j, lastOpenIndex t = some j ∧ SplitAlike s t i j := by
    obtain ⟨before, inner, rfl, hinner, rfl⟩ := exists_of_lastOpenIndex hlast hs
    obtain ⟨before', rest, rfl, hbefore, hrest⟩ := h.split (by decide)
    obtain ⟨inner', rfl, hboth⟩ := hrest.append_inv_right (b := [')']) (by decide)
    refine ⟨_, lastOpenIndex_append before' (hinner.resized hboth), ?_, ?_, ?_, ?_, ?_⟩
    · rwa [List.take_left, List.take_left]
    · rw [List.length_eq_zero_iff, List.length_eq_zero_iff, ← List.head?_eq_none_iff, hbefore.head?,
        List.head?_eq_none_iff]
    · rw [List.drop_left, List.drop_left]
      exact .cons '(' hrest
    · rw [List.drop_left, List.head?_cons]
    · rw [List.drop_left, ← List.cons_append, List.getLast?_concat]
  cases hs : lastOpenIndex s with
  | some i =>
    obtain ⟨j, ht, hsplit⟩ := hone h hlast hs
    rw [ht]
    exact .some hsplit
  | none =>
    cases ht : lastOpenIndex t with
    | none => exact .none
    | some j =>
      obtain ⟨i, hs', -⟩ := hone h.symm (h.getLast? ▸ hlast) ht
      rw [hs'] at hs
      cases hs

theorem resized_fieldsWithin (h : Resized s t) (depth : Nat) :
    List.Forall₂ Resized (fieldsWithin depth s) (fieldsWithin depth t) := by
  have hcons (c : Char) {l l' : List Text} (h : List.Forall₂ Resized l l') :
      List.Forall₂ Resized (consField c l) (consField c l') := by
    cases h with
    | nil => exact .cons (.refl _) .nil
    | cons hfield hrest => exact .cons (.cons c hfield) hrest
  induction h generalizing depth with
  | nil => exact .cons .nil .nil
  | cons c _ ih =>
    rw [fieldsWithin, fieldsWithin]
    split_ifs
    · exact hcons c (ih _)
    · exact hcons c (ih _)
    · exact .cons .nil (ih _)
    · exact hcons c (ih _)
  | @size m n s t hm hn _ ih =>
    have hpiece {m : Text} (hm : IsSize m) : IsPiece ('[' :: (m ++ [']'])) := isPiece_iff.2
      ⟨hm.not_mem_group (by decide), hm.not_mem_group (by decide), hm.not_mem_group (by decide)⟩
    have hgroup {m : Text} (hm : IsSize m) (s : Text) :
        fieldsWithin depth ('[' :: (m ++ ']' :: s)) =
          ('[' :: (m ++ [']'])).foldr consField (fieldsWithin depth s) := by
      rw [← fieldsWithin_piece (hpiece hm)]
      simp
    have hboth := ih depth
    obtain ⟨field, fields, hs⟩ := exists_fieldsWithin depth s
    obtain ⟨field', fields', ht⟩ := exists_fieldsWithin depth t
    rw [hs, ht] at hboth
    obtain ⟨hfield, hrest⟩ := List.forall₂_cons.1 hboth
    rw [hgroup hm, hgroup hn, hs, ht, foldr_consField, foldr_consField]
    exact .cons (by simpa using Resized.size hm hn hfield) hrest

namespace Parts

/-- Parts that differ in array sizes alone. -/
structure SizedAlike (p q : Parts) : Prop where
  /-- The indirections differ in sizes. -/
  indirection : Resized p.indirection q.indirection
  /-- The fields differ in sizes. -/
  fields : List.Forall₂ Resized p.fields q.fields
  /-- The returned types differ in sizes. -/
  returns : Resized p.returns q.returns

theorem resized_ofReturns {returns returns' arguments arguments' : Text}
    (hreturns : Resized returns returns') (harguments : Resized arguments arguments')
    (hopen : arguments.head? = some '(') (hclose : arguments.getLast? = some ')') :
    ResultRel SizedAlike (ofReturns s returns arguments) (ofReturns t returns' arguments') := by
  have hfields : List.Forall₂ Resized (topFields (interior arguments))
      (topFields (interior arguments')) :=
    List.rel_map (fun _ _ h => resized_strip h)
      (resized_fieldsWithin (resized_interior harguments hopen hclose) 0)
  by_cases hlast : returns.getLast? = some ')'
  · have hlast' : returns'.getLast? = some ')' := hreturns.getLast? ▸ hlast
    have hindex := resized_lastOpenIndex hreturns hlast
    rw [ofReturns, ofReturns, if_neg (by simpa using hlast), if_neg (by simpa using hlast')]
    generalize lastOpenIndex returns = x, lastOpenIndex returns' = y at hindex
    cases hindex with
    | none => exact .error rfl
    | some hsplit =>
      have hunwrap := resized_unwrapBlock hsplit.back hsplit.front hsplit.start hsplit.finish
      exact hunwrap.bind fun _ _ h => .ok ⟨resized_strip h.1, hfields, resized_strip h.2⟩
  · have hlast' : returns'.getLast? ≠ some ')' := hreturns.getLast? ▸ hlast
    rw [ofReturns, ofReturns, if_pos hlast, if_pos hlast']
    exact .ok ⟨.nil, hfields, hreturns⟩

/-- **Function types that differ in sizes are split alike.** -/
theorem resized_ofSpelling (h : Resized s t) :
    ResultRel SizedAlike (ofSpelling s) (ofSpelling t) := by
  refine .within _ _ ?_
  have h := resized_strip h
  generalize strip s = s, strip t = t at h
  rw [ofStripped, ofStripped, ← h.isFunction_eq]
  cases isFunction s with
  | false => exact .error rfl
  | true =>
  simp only [Bool.not_true, Bool.false_eq_true, if_false]
  by_cases hlast : s.getLast? = some ')'
  · have hlast' : t.getLast? = some ')' := h.getLast? ▸ hlast
    rw [if_neg (not_not.2 hlast), if_neg (not_not.2 hlast')]
    have hindex := resized_lastOpenIndex h hlast
    generalize lastOpenIndex s = x, lastOpenIndex t = y at hindex
    cases hindex with
    | none => exact .error rfl
    | @some i j hsplit =>
      cases i with
      | zero =>
        obtain rfl : j = 0 := hsplit.zero.1 rfl
        exact .error rfl
      | succ i =>
        obtain ⟨j, rfl⟩ : ∃ n, j = n + 1 :=
          Nat.exists_eq_succ_of_ne_zero fun hj => Nat.succ_ne_zero i (hsplit.zero.2 hj)
        have hreturns := resized_strip hsplit.front
        have hempty : (strip (s.take (i + 1))).isEmpty = (strip (t.take (j + 1))).isEmpty :=
          hreturns.isEmpty_eq
        show ResultRel SizedAlike (if (strip (s.take (i + 1))).isEmpty then _ else _)
          (if (strip (t.take (j + 1))).isEmpty then _ else _)
        rw [hempty]
        split_ifs
        · exact .error rfl
        · exact resized_ofReturns hreturns hsplit.back hsplit.start hsplit.finish
  · have hlast' : t.getLast? ≠ some ')' := h.getLast? ▸ hlast
    rw [if_pos hlast, if_pos hlast']
    exact .error rfl

end Parts

/-! ## Descriptors -/

/-- Signatures that differ in array sizes alone. -/
structure Signature.SizedAlike (f g : Signature) : Prop where
  /-- The indirections differ in sizes. -/
  indirection : Resized f.indirection g.indirection
  /-- The parameters differ in sizes. -/
  params : List.Forall₂ Resized f.params g.params
  /-- The returned types differ in sizes. -/
  returns : Resized f.returns g.returns

theorem Signature.SizedAlike.descriptor {f g : Signature} (h : f.SizedAlike g) :
    Resized f.descriptor g.descriptor :=
  descriptor_rel Resized.append .nil (fun mark _ => .refl mark)
    (resized_replace (by decide) (by decide) _ h.indirection) h.params h.returns

theorem resized_pointerTo (h : Resized s t) : Resized (pointerTo s) (pointerTo t) := by
  by_cases hbracket : '[' ∈ s
  · -- The stream has no bracket in its name.
    have hvalue {d : Text} (hd : '[' ∈ d) : pointerTo d = '[' :: ']' :: d := by
      rw [pointerTo, Pointee.ofDescriptor, if_neg]
      rintro (rfl | hsuffix)
      · exact absurd hd (by decide)
      · have hmem := (List.isSuffixOf_iff_suffix.1 hsuffix).subset (List.mem_cons_of_mem _ hd)
        exact absurd hmem (by decide)
    rw [hvalue hbracket, hvalue ((h.mem_iff (by decide)).1 hbracket)]
    exact .cons _ (.cons _ h)
  · rw [h.eq_of_not_mem hbracket]
    exact .refl _

/-! ## Resolution -/

theorem resized_describeFunction {part : Text → Trace Text}
    (hpart : ∀ s t, Resized s t → ResultRel Resized (part s).result (part t).result)
    (h : Resized s t) : ResultRel Signature.SizedAlike (describeFunction part s).result
      (describeFunction part t).result := by
  have hparts : ResultRel Parts.SizedAlike (Trace.ofResult (Parts.ofSpelling s)).result
      (Trace.ofResult (Parts.ofSpelling t)).result := Parts.resized_ofSpelling h
  refine .within _ _ (hparts.andThen fun p q hpq => ?_)
  have hfields : List.Forall₂ Resized (p.fields.filter (!·.isEmpty))
      (q.fields.filter (!·.isEmpty)) :=
    List.rel_filter (fun s t h => by dsimp only; rw [h.isEmpty_eq]) hpq.fields
  refine .andThen (.traverse hfields fun s t h => (hpart s t h).within _ _)
    fun params params' hparams => ?_
  exact ((hpart _ _ hpq.returns).within _ _).map fun returns returns' hreturns =>
    ⟨hpq.indirection, hparams, hreturns⟩

namespace Registry

variable {reg : Registry}

/-- **Spellings that differ in array sizes are described alike**, at every level and after any
typedefs. -/
theorem resized_descend (hreg : reg.Without '[') (config : Config) (levels : Nat)
    (chain : List Text) (h : Resized s t) : ResultRel Resized
      (reg.descend config levels chain s).result (reg.descend config levels chain t).result := by
  induction levels generalizing chain s t with
  | zero => exact .error rfl
  | succ levels ih =>
    refine .within _ _ ?_
    have hreading := resized_ofSpelling hreg config.unwind h
    generalize Reading.ofSpelling reg config.unwind s = r,
      Reading.ofSpelling reg config.unwind t = r' at hreading
    cases hreading with
    | descriptor h => exact .ok h
    | function h =>
      exact (resized_describeFunction (fun s t h => ih chain h) h).map fun _ _ h => h.descriptor
    | pointer h => exact (ih chain h).map fun _ _ h => resized_pointerTo h
    | array dimensions h => exact (ih chain h).map fun _ _ h => (Resized.refl dimensions).append h
    | rejected cause s s' => exact .error rfl
    | same r => exact .refl Resized.refl _

example : (({} : Registry).resolve {} "int (*[2])(int [8])".toList).descriptor =
      "[2]func([]int)(int)".toList ∧
    (({} : Registry).resolve {} "struct x[][2]".toList).descriptor = "x [][2]".toList := by
  decide +kernel

end Registry

end CSpelling

import CSpelling.Proofs.Conservation

/-!
# Blocks that hold arguments

`Parts.block?` is the block that splitting a function type cuts out: all of the returned type from
the parenthesis that opens its last one (`Parts.ofSpelling_of_block?`). What stands between the
outer parentheses of a block is balanced (`Parts.exists_of_block?`).

Two shapes promise that there are arguments inside of a block. One with more parentheses than the
outer ones, but without a marker, holds them between these (`mem_of_indirectionSequence`). A marker
with a parenthesis behind it stands between the outer ones too (`exists_of_nested`), because no
balanced text begins with a star and a closing parenthesis. So splitting never misses the
parenthesis that it looks for (`Parts.ofSpelling_finds_parenthesis`).
-/

namespace CSpelling

open Text

variable {s b base block : Text} {f : Failure}

/-! ## Balanced blocks -/

/-- A block without a marker that has several parentheses holds one between the outer ones. -/
theorem mem_of_indirectionSequence
    (hshape : BlockShape.ofBlock ('(' :: (block ++ [')'])) = .indirectionSequence) :
    '(' ∈ block := by
  by_contra hnot
  refine (BlockShape.ofBlock_eq_indirectionSequence_iff.1 hshape).2 ?_
  simp [List.count_eq_zero.2 hnot]

theorem exists_cutAtOpen (h : '(' ∈ s) : ∃ stars after, cutAtOpen s = some (stars, after) := by
  obtain ⟨stars, rest, rfl, hstars⟩ := List.eq_append_cons_of_mem h
  exact ⟨stars, '(' :: rest, cutAtOpen_append hstars rest⟩

/-- **A balanced block is unwrapped, unless it has no star where one is needed.** -/
theorem cause_of_unwrapBlock (hbalanced : Balanced block)
    (h : unwrapBlock ('(' :: (block ++ [')'])) base = .error f) :
    f.cause = .blockWithoutIndirection := by
  rw [unwrapBlock] at h
  cases hshape : BlockShape.ofBlock ('(' :: (block ++ [')'])) with
  | trivialPointer =>
    rw [hshape] at h
    cases h
  | arrayOfPointers =>
    rw [hshape] at h
    cases h
  | deepIndirection =>
    rw [hshape] at h
    cases h
  | indirectionSequence =>
    obtain ⟨stars, after, hcut⟩ := exists_cutAtOpen (mem_of_indirectionSequence hshape)
    rw [hshape, interior_parenthesized] at h
    dsimp only at h
    rw [hcut] at h
    dsimp only at h
    split_ifs at h
    cases h
    rfl
  | nestedFunctionPointer =>
    obtain ⟨front, rest, -, hmarker⟩ := exists_of_nested hbalanced hshape
    obtain ⟨stars, after, hcut⟩ := exists_cutAtOpen (s := front ++ '(' :: rest) (by simp)
    rw [hshape] at h
    dsimp only at h
    rw [interior_removeFirst hmarker, hcut] at h
    cases h

namespace Parts

/-! ## Failures -/

/-- A returned type is taken apart, unless a parenthesis of it is never opened or its block has no
star. -/
theorem cause_of_ofReturns {returns arguments : Text}
    (h : ofReturns s returns arguments = .error f) :
    f.cause = .unbalancedReturn returns ∨ f.cause = .blockWithoutIndirection := by
  rw [ofReturns] at h
  split_ifs at h with hlast
  cases hindex : lastOpenIndex returns with
  | none =>
    rw [hindex] at h
    cases h
    exact .inl rfl
  | some index =>
    obtain ⟨base, block, hsplit, hbalanced, rfl⟩ :=
      exists_of_lastOpenIndex (not_not.1 hlast) hindex
    rw [hindex] at h
    dsimp only at h
    cases hunwrap : unwrapBlock (returns.drop base.length) (returns.take base.length) with
    | error g =>
      rw [hunwrap] at h
      cases h
      rw [hsplit, List.drop_left, List.take_left] at hunwrap
      exact .inr (cause_of_unwrapBlock hbalanced hunwrap)
    | ok halves =>
      rw [hunwrap] at h
      cases h

theorem cause_ne_of_ofStripped (h : ofStripped s = .error f) : f.cause ≠ .blockWithoutParen := by
  unfold ofStripped at h
  split_ifs at h
  · cases h
    exact nofun
  · cases h
    exact nofun
  · split at h
    · cases h
      exact nofun
    · cases h
      exact nofun
    · dsimp only at h
      split_ifs at h
      · cases h
        exact nofun
      · rcases cause_of_ofReturns h with hcause | hcause
        · rw [hcause]
          exact nofun
        · rw [hcause]
          exact nofun

/-! ## The block that is cut out -/

/-- What stands in front of the arguments of a function type, without white space at its ends. -/
def front? (s : Text) : Option Text :=
  if isFunction (strip s) ∧ (strip s).getLast? = some ')' then
    ((lastOpenIndex (strip s)).map fun index => strip ((strip s).take index)).filter (!·.isEmpty)
  else none

/-- The block that splitting a function type cuts out, behind what stands in front of it. -/
def block? (s : Text) : Option (Text × Text) :=
  (front? s).bind fun front =>
    if front.getLast? = some ')' then
      (lastOpenIndex front).map fun index => (front.take index, front.drop index)
    else none

/-- **A block that is cut out is balanced between its outer parentheses.** -/
theorem exists_of_block? (h : block? s = some (base, b)) :
    ∃ inner, b = '(' :: (inner ++ [')']) ∧ Balanced inner := by
  obtain ⟨front, -, hfront⟩ := Option.bind_eq_some_iff.1 h
  split_ifs at hfront with hlast
  obtain ⟨index, hindex, hcut⟩ := Option.map_eq_some_iff.1 hfront
  obtain ⟨before, inner, hsplit, hinner, rfl⟩ := exists_of_lastOpenIndex hlast hindex
  refine ⟨inner, ?_, hinner⟩
  rw [← (Prod.mk.inj hcut).2, hsplit, List.drop_left]

/-- Splitting goes on with what stands in front of the arguments. -/
theorem ofStripped_of_front? {front : Text} (h : front? s = some front) :
    ∃ arguments, ofStripped (strip s) = ofReturns (strip s) front arguments := by
  unfold front? at h
  split_ifs at h with hclosed
  obtain ⟨hmap, hne⟩ := Option.filter_eq_some_iff.1 h
  obtain ⟨index, hindex, rfl⟩ := Option.map_eq_some_iff.1 hmap
  refine ⟨(strip s).drop index, ?_⟩
  unfold ofStripped
  rw [if_neg (by simp [hclosed.1]), if_neg (not_not.2 hclosed.2), hindex]
  cases index with
  | zero => cases hne
  | succ n => exact if_neg (by simpa using hne)

/-- **The block that is cut out is the one that is unwrapped.** -/
theorem ofSpelling_of_block? (h : block? s = some (base, b)) : ∃ fields, ofSpelling s =
    ((unwrapBlock b base).map fun halves => ⟨strip halves.1, fields, strip halves.2⟩).mapError
      (Failure.within (.split s)) := by
  obtain ⟨front, hfront, hcut⟩ := Option.bind_eq_some_iff.1 h
  split_ifs at hcut with hlast
  obtain ⟨index, hindex, hhalves⟩ := Option.map_eq_some_iff.1 hcut
  obtain ⟨rfl, rfl⟩ := Prod.mk.inj hhalves
  obtain ⟨arguments, harguments⟩ := ofStripped_of_front? hfront
  refine ⟨topFields (interior arguments), ?_⟩
  rw [ofSpelling, harguments, ofReturns, if_neg (not_not.2 hlast), hindex]
  dsimp only
  cases unwrapBlock (front.drop index) (front.take index) <;> rfl

/-- **Splitting finds the parenthesis that the shape of a block promises**, whatever is split: it
never fails for want of one. If the block that is cut out and unwrapped counts as stars in front of
arguments, a parenthesis opens between its outer ones. If it counts as a marker in front of
arguments, the first marker of it stands between the outer ones, and a parenthesis opens in what is
left there without the marker. -/
theorem ofSpelling_finds_parenthesis (s : Text) :
    (∀ f, ofSpelling s = .error f → f.cause ≠ .blockWithoutParen) ∧
      ∀ base b, block? s = some (base, b) →
        (∃ fields, ofSpelling s = ((unwrapBlock b base).map fun halves =>
          ⟨strip halves.1, fields, strip halves.2⟩).mapError (Failure.within (.split s))) ∧
        (BlockShape.ofBlock b = .indirectionSequence → '(' ∈ interior b) ∧
        (BlockShape.ofBlock b = .nestedFunctionPointer →
          ∃ front after, b = '(' :: (front ++ marker ++ after ++ [')']) ∧
            cut marker b = some ('(' :: front, after ++ [')']) ∧
            '(' ∈ interior (removeFirst marker b)) := by
  refine ⟨fun f hf => ?_, fun base b hb => ⟨ofSpelling_of_block? hb, ?_⟩⟩
  · rw [ofSpelling] at hf
    cases hstripped : ofStripped (strip s) with
    | error g =>
      rw [hstripped] at hf
      cases hf
      rw [Failure.cause_within]
      exact cause_ne_of_ofStripped hstripped
    | ok parts =>
      rw [hstripped] at hf
      cases hf
  · obtain ⟨inner, rfl, hinner⟩ := exists_of_block? hb
    refine ⟨fun hshape => ?_, fun hshape => ?_⟩
    · rw [interior_parenthesized]
      exact mem_of_indirectionSequence hshape
    · obtain ⟨front, rest, hblock, hmarker⟩ := exists_of_nested hinner hshape
      refine ⟨front, '(' :: rest, by rw [hblock], hmarker, ?_⟩
      rw [interior_removeFirst hmarker]
      simp

/-- Stars in front of arguments, and a marker in front of arguments. -/
theorem ofSpelling_finds_parenthesis_arguments :
    let sequence := "(*(int *, void *))".toList
    let nested := "( *(*)(int *, char *))".toList
    block? "int (*(int *, void *))(void)".toList = some ("int ".toList, sequence) ∧
      '(' ∈ interior sequence ∧
      block? "void ( *(*)(int *, char *))(void)".toList = some ("void ".toList, nested) ∧
      ∃ front after, nested = '(' :: (front ++ marker ++ after ++ [')']) ∧
        cut marker nested = some ('(' :: front, after ++ [')']) ∧
        '(' ∈ interior (removeFirst marker nested) := by
  intro sequence nested
  have hsequence : block? "int (*(int *, void *))(void)".toList =
      some ("int ".toList, sequence) := by decide +kernel
  have hnested : block? "void ( *(*)(int *, char *))(void)".toList =
      some ("void ".toList, nested) := by decide +kernel
  exact ⟨hsequence, ((ofSpelling_finds_parenthesis _).2 _ _ hsequence).2.1 (by decide), hnested,
    ((ofSpelling_finds_parenthesis _).2 _ _ hnested).2.2 (by decide)⟩

end Parts

end CSpelling

import CSpelling.Proofs.Weights

/-!
# The descent into the parts of a spelling

The levels are only a fuse. A part of a reading is lighter than the spelling, or it is what a
typedef stands for that was not met before (`Registry.wellFounded_partOf`), so the descent ends by
itself: `Registry.exists_depth` says that from some depth on the limit is never met and the outcome
does not depend on it.

* `Reading.parts` lists what a reading is resolved from, and `Reading.describe_rel` carries every
  relation between traces that is `Compatible` with their use from the parts to the reading.
* `Registry.descend_of_le` says that what ended within some levels ends in the same way within
  more, so a greater limit changes nothing for it (`Registry.trace_of_maxDepth_le`), and
  `Registry.outcome_descend_congr` that the limit that a failure reports does not matter for its
  kind.
-/

namespace CSpelling

open Text

namespace Trace

variable {α β : Type}

/-! ## Traces that end before the levels do -/

/-- The trace does not fail for want of levels. -/
def Finished (t : Trace α) : Prop := ∀ f limit, t.result = .error f → f.cause ≠ .tooDeep limit

theorem finished_of_ok {t : Trace α} {a : α} (h : t.result = .ok a) : t.Finished := by
  intro f limit hf
  rw [h] at hf
  cases hf

theorem finished_value (a : α) : (value a).Finished := finished_of_ok rfl

theorem finished_fail {cause : Cause} (h : ∀ limit, cause ≠ .tooDeep limit) (s : Text) :
    (fail cause s : Trace α).Finished := by
  intro f limit hf
  cases hf
  exact h limit

theorem finished_within_iff {context : Context} {t : Trace α} :
    (t.within context).Finished ↔ t.Finished := by
  obtain ⟨imports, f | a⟩ := t
  · constructor
    · rintro h _ limit ⟨⟩
      exact h (f.within context) limit rfl
    · rintro h _ limit ⟨⟩
      exact h f limit rfl
  · exact ⟨fun _ => finished_of_ok rfl, fun _ => finished_of_ok rfl⟩

theorem finished_map_iff {g : α → β} {t : Trace α} : (t.map g).Finished ↔ t.Finished := by
  obtain ⟨imports, _ | _⟩ := t <;> simp [Finished, map, Except.map]

theorem andThen_of_ok {t : Trace α} {a : α} (h : t.result = .ok a) (next : α → Trace β) :
    t.andThen next = ⟨t.imports ++ (next a).imports, (next a).result⟩ := by
  rw [andThen, h]

theorem andThen_of_error {t : Trace α} {f : Failure} (h : t.result = .error f)
    (next : α → Trace β) : t.andThen next = ⟨t.imports, .error f⟩ := by
  rw [andThen, h]

/-- What goes on alike after a value comes out alike. -/
theorem andThen_congr {t : Trace α} {next next' : α → Trace β}
    (h : ∀ a, t.result = .ok a → next a = next' a) : t.andThen next = t.andThen next' := by
  cases hresult : t.result with
  | ok a => rw [andThen_of_ok hresult, andThen_of_ok hresult, h a hresult]
  | error f => rw [andThen_of_error hresult, andThen_of_error hresult]

theorem finished_andThen_iff {t : Trace α} {next : α → Trace β} :
    (t.andThen next).Finished ↔ t.Finished ∧ ∀ a, t.result = .ok a → (next a).Finished := by
  cases h : t.result with
  | ok a =>
    rw [andThen_of_ok h]
    refine ⟨fun hnext => ⟨finished_of_ok h, ?_⟩, fun ⟨_, hnext⟩ => hnext a rfl⟩
    rintro _ ⟨⟩
    exact hnext
  | error f =>
    rw [andThen_of_error h]
    refine ⟨fun ht => ⟨?_, fun a ha => by cases ha⟩, fun ⟨ht, _⟩ => ?_⟩
    · intro g limit hg
      cases h.symm.trans hg
      exact ht f limit rfl
    · rintro _ limit ⟨⟩
      exact ht f limit h

/-! ## Relations between traces -/

/-- The relation goes from traces to what is made of them. -/
structure Compatible (R : ∀ {α : Type}, Trace α → Trace α → Prop) : Prop where
  /-- A trace that does not fail for want of levels is related to itself. -/
  refl {α : Type} {t : Trace α} : t.Finished → R t t
  /-- The values are mapped. -/
  map {α β : Type} {t u : Trace α} (g : α → β) : R t u → R (t.map g) (u.map g)
  /-- The failures get a context. -/
  within {α : Type} {t u : Trace α} (context : Context) :
    R t u → R (t.within context) (u.within context)
  /-- The traces go on. -/
  andThen {α β : Type} {t u : Trace α} {next next' : α → Trace β} :
    R t u → (∀ a, t.result = .ok a → R (next a) (next' a)) → R (t.andThen next) (u.andThen next')

theorem Compatible.traverse {R : ∀ {α : Type}, Trace α → Trace α → Prop} (hR : Compatible R)
    {g g' : α → Trace β} {l : List α} (h : ∀ a ∈ l, R (g a) (g' a)) :
    R (traverse g l) (traverse g' l) := by
  induction l with
  | nil => exact hR.refl (finished_value [])
  | cons a rest ih =>
    unfold Trace.traverse
    refine hR.andThen (h a (by simp)) fun b _ => hR.map _ (ih fun a' ha' => h a' (by simp [ha']))

/-- Nothing is left to be done. -/
theorem compatible_finished : Compatible fun {_} t _ => t.Finished where
  refl h := h
  map _ h := finished_map_iff.2 h
  within _ h := finished_within_iff.2 h
  andThen h hnext := finished_andThen_iff.2 ⟨h, hnext⟩

/-- What does not fail for want of levels stays. -/
theorem compatible_stable : Compatible fun {_} t u => t.Finished → t = u where
  refl _ _ := rfl
  map _ h ht := by rw [h (finished_map_iff.1 ht)]
  within _ h ht := by rw [h (finished_within_iff.1 ht)]
  andThen {_ _ t u next next'} h hnext ht := by
    obtain ⟨hfirst, hrest⟩ := finished_andThen_iff.1 ht
    obtain rfl := h hfirst
    exact andThen_congr fun a ha => hnext a ha (hrest a ha)

/-- The value of a trace, or the kind of its failure. -/
def outcome (t : Trace α) : Except FailureKind α := t.result.mapError Failure.kind

theorem outcome_eq_ok_iff {t : Trace α} {a : α} : t.outcome = .ok a ↔ t.result = .ok a := by
  obtain ⟨imports, _ | _⟩ := t <;> simp [outcome, Except.mapError]

theorem outcome_map (g : α → β) (t : Trace α) : (t.map g).outcome = t.outcome.map g := by
  obtain ⟨imports, _ | _⟩ := t <;> rfl

/-- A context changes nothing about the kind of a failure. -/
@[simp] theorem outcome_within (context : Context) (t : Trace α) :
    (t.within context).outcome = t.outcome := by
  obtain ⟨imports, _ | _⟩ := t <;> rfl

theorem outcome_andThen (t : Trace α) (next : α → Trace β) :
    (t.andThen next).outcome = t.outcome.bind fun a => (next a).outcome := by
  obtain ⟨imports, _ | _⟩ := t <;> rfl

/-- The same comes out. -/
theorem compatible_outcome : Compatible fun {_} t u => t.outcome = u.outcome where
  refl _ := rfl
  map g h := by rw [outcome_map, outcome_map, h]
  within _ h := by rw [outcome_within, outcome_within, h]
  andThen {_ _ t u next next'} h hnext := by
    rw [outcome_andThen, outcome_andThen, ← h]
    cases hresult : t.result with
    | ok a =>
      rw [outcome_eq_ok_iff.2 hresult]
      exact hnext a hresult
    | error f =>
      have ht : t.outcome = .error f.kind := by rw [outcome, hresult]; rfl
      rw [ht]
      rfl

end Trace

open Trace

/-! ## The parts of a reading -/

/-- The descriptor of a row of slices. -/
def slices (n : Nat) : Text := (List.replicate n ['[', ']']).flatten

theorem slices_succ (n : Nat) : slices (n + 1) = '[' :: ']' :: slices n := by
  rw [slices, List.replicate_succ, List.flatten_cons]
  rfl

/-- What a reading is resolved from after the typedefs of `chain`. -/
def Reading.parts (chain : List Text) : Reading → List (List Text × Text)
  | .descriptor _ => []
  | .named _ => []
  | .function s =>
    match Parts.ofSpelling s with
    | .ok parts => parts.spellings.map (chain, ·)
    | .error _ => []
  | .enumeration => [(chain, "int".toList)]
  | .alias name underlying =>
    if chain.contains name then [] else [(chain ++ [name], underlying)]
  | .pointer pointee => [(chain, pointee)]
  | .array _ element => [(chain, element)]
  | .rejected _ _ => []

/-- The reading is not rejected for want of levels. -/
def Reading.Shallow (r : Reading) : Prop := ∀ limit s, r ≠ .rejected (.tooDeep limit) s

/-! ## Spellings that are read -/

/-- The grammar of function types is at fault, and nothing stands around the cause. -/
structure Failure.OfGrammar (f : Failure) : Prop where
  /-- The family is that of the grammar. -/
  category : f.cause.category = .grammar
  /-- There are no contexts. -/
  contexts : f.contexts = []

/-- A block that is not unwrapped is at fault. -/
theorem ofGrammar_of_unwrapBlock {block base : Text} {f : Failure}
    (h : unwrapBlock block base = .error f) : f.OfGrammar := by
  unfold unwrapBlock at h
  split at h
  · cases h
  · cases h
  · cases h
  · split at h
    · cases h
      exact ⟨rfl, rfl⟩
    · split_ifs at h
      cases h
      exact ⟨rfl, rfl⟩
  · split at h
    · cases h
      exact ⟨rfl, rfl⟩
    · cases h

namespace Parts

theorem ofGrammar_of_ofReturns {s returns arguments : Text} {f : Failure}
    (h : ofReturns s returns arguments = .error f) : f.OfGrammar := by
  unfold ofReturns at h
  split_ifs at h
  split at h
  · cases h
    exact ⟨rfl, rfl⟩
  · next index _ =>
    cases hblock : unwrapBlock (returns.drop index) (returns.take index) with
    | error g =>
      rw [hblock] at h
      cases h
      exact ofGrammar_of_unwrapBlock hblock
    | ok pair => rw [hblock] at h; cases h

theorem ofGrammar_of_ofStripped {s : Text} {f : Failure} (h : ofStripped s = .error f) :
    f.OfGrammar := by
  unfold ofStripped at h
  split_ifs at h
  · cases h
    exact ⟨rfl, rfl⟩
  · cases h
    exact ⟨rfl, rfl⟩
  · split at h
    · cases h
      exact ⟨rfl, rfl⟩
    · cases h
      exact ⟨rfl, rfl⟩
    · dsimp only at h
      split_ifs at h
      · cases h
        exact ⟨rfl, rfl⟩
      · exact ofGrammar_of_ofReturns h

/-- A spelling that is not split into parts is at fault. -/
theorem category_of_ofSpelling {s : Text} {f : Failure} (h : ofSpelling s = .error f) :
    f.cause.category = .grammar := by
  unfold ofSpelling at h
  cases hs : ofStripped (strip s) with
  | ok parts => rw [hs] at h; cases h
  | error g =>
    rw [hs] at h
    cases h
    rw [Failure.cause_within]
    exact (ofGrammar_of_ofStripped hs).category

/-- A spelling is split into parts, or not, whatever the levels are. -/
theorem finished_ofSpelling (s : Text) : (Trace.ofResult (ofSpelling s)).Finished := by
  intro f limit h hcause
  have hcategory := category_of_ofSpelling h
  rw [hcause] at hcategory
  cases hcategory

end Parts

section Describe

variable {R : ∀ {α : Type}, Trace α → Trace α → Prop} (hR : Compatible R)

include hR

theorem describeFunction_rel {part part' : Text → Trace Text} {s : Text}
    (h : ∀ parts, Parts.ofSpelling s = .ok parts → ∀ f ∈ parts.spellings, R (part f) (part' f)) :
    R (describeFunction part s) (describeFunction part' s) := by
  refine hR.within _ (hR.andThen (hR.refl (Parts.finished_ofSpelling s)) fun parts hparts => ?_)
  have hpart := h parts hparts
  unfold describeParts
  refine hR.andThen (hR.traverse fun f hf => ?_) fun params _ => ?_
  · exact hR.within _ (hpart f (List.mem_append_left _ hf))
  · exact hR.map _ (hR.within _ (hpart _ (List.mem_append_right _ (List.mem_singleton_self _))))

/-- **What relates the resolutions of the parts relates those of the reading.** -/
theorem Reading.describe_rel {reg : Registry} {part part' : List Text → Text → Trace Text}
    {chain : List Text} {r : Reading} (hr : r.Shallow)
    (h : ∀ p ∈ r.parts chain, R (part p.1 p.2) (part' p.1 p.2)) :
    R (r.describe reg part chain) (r.describe reg part' chain) := by
  cases r with
  | descriptor d => exact hR.refl (finished_value d)
  | named name => exact hR.refl (finished_of_ok rfl)
  | function s =>
    refine hR.map _ (describeFunction_rel hR fun parts hparts f hf => h (chain, f) ?_)
    rw [Reading.parts, hparts]
    exact List.mem_map_of_mem hf
  | enumeration => exact h _ (List.mem_singleton_self _)
  | «alias» name underlying =>
    rw [Reading.describe, Reading.describe]
    rw [Reading.parts] at h
    split_ifs at h ⊢ with hchain
    · exact hR.refl (finished_fail (fun _ => Cause.noConfusion) name)
    · exact h _ (List.mem_singleton_self _)
  | pointer pointee => exact hR.map _ (h _ (List.mem_singleton_self _))
  | array dimensions element => exact hR.map _ (h _ (List.mem_singleton_self _))
  | rejected cause s =>
    exact hR.refl (finished_fail (fun limit hcause => hr limit s (by rw [hcause])) s)

end Describe

/-! ## Readings of spellings -/

namespace Reading

/-- A spelling that is read as a whole has no parts, is a function type or an enumeration, or
stands for another spelling that is no function type. -/
theorem ofName?_cases {reg : Registry} {unwind : Bool} {s : Text} {r : Reading}
    (h : ofName? reg unwind s = some r) :
    (∃ d, r = .descriptor d) ∨ (∃ d, r = .named d) ∨ (r = .function s ∧ isFunction s = true) ∨
      r = .enumeration ∨ ∃ underlying, reg.underlying? s = some underlying ∧
        r = .alias s underlying ∧ unwind = true ∧ isFunction s = false ∧
          isFunction underlying = false := by
  unfold ofName? at h
  split at h
  · cases h
    exact .inr (.inl ⟨_, rfl⟩)
  split at h
  · cases h
    exact .inl ⟨_, rfl⟩
  split at h
  · cases h
    exact .inl ⟨_, rfl⟩
  split at h
  · cases h
    exact .inr (.inl ⟨_, rfl⟩)
  split_ifs at h with hkeeps hfunction
  · cases h
    exact .inl ⟨_, rfl⟩
  · cases h
    exact .inr (.inr (.inl ⟨rfl, hfunction⟩))
  · rcases Option.or_eq_some_iff.1 h with h | ⟨-, h⟩
    · unfold ofAlias? at h
      split_ifs at h with henum
      · cases h
        exact .inr (.inr (.inr (.inl rfl)))
      · obtain ⟨underlying, hunderlying, heq⟩ := Option.map_eq_some_iff.1 h
        split_ifs at heq with hfunctionAlias
        · exact .inl ⟨s, heq.symm⟩
        · have hunwind : unwind = true := by simpa [keepsName, hunderlying, henum] using hkeeps
          exact .inr (.inr (.inr (.inr ⟨underlying, hunderlying, heq.symm, hunwind,
            by simpa using hfunction, by simpa using hfunctionAlias⟩)))
    · rw [ofDeclared?] at h
      split_ifs at h
      cases h
      exact .inr (.inl ⟨_, rfl⟩)

/-- A spelling that is read by its form is a pointer or an array of something lighter, or it has no
parts. -/
theorem ofForm_cases (s : Text) :
    (∃ pointee, ofForm s = .pointer pointee ∧ weight pointee < weight s) ∨
      (∃ dimensions element, ofForm s = .array dimensions element ∧ weight element < weight s) ∨
      (∃ d, ofForm s = .descriptor d) ∨
      ∃ cause, ofForm s = .rejected cause s ∧ cause.category ≠ .cycle := by
  unfold ofForm
  split
  · next hstar =>
    obtain ⟨before, rfl⟩ := List.getLast?_eq_some_iff.1 hstar
    refine .inl ⟨_, rfl, ?_⟩
    rw [List.dropLast_concat, weight_strip, weight_append, weight_cons_of_not isBlank_star]
    omega
  split
  · next hsized =>
    refine .inr (.inl ⟨_, _, rfl, ?_⟩)
    exact (weight_lt_of_sizedArray? hsized).trans_le (weight_le_of_sublist List.filter_sublist)
  split
  · exact .inr (.inr (.inl ⟨_, rfl⟩))
  split_ifs
  · exact .inr (.inr (.inr ⟨_, rfl, Category.noConfusion⟩))
  · exact .inr (.inr (.inr ⟨_, rfl, Category.noConfusion⟩))
  · exact .inr (.inr (.inr ⟨_, rfl, Category.noConfusion⟩))
  split
  · next hend =>
    refine .inr (.inl ⟨_, _, rfl, ?_⟩)
    rw [dropEnd?_eq_some_iff.1 hend, weight_append]
    have : weight unsizedEnd = 2 := by decide +kernel
    omega
  · exact .inr (.inr (.inr ⟨_, rfl, Category.noConfusion⟩))

/-- No spelling is rejected for the way that led to it. -/
theorem category_of_ofSpelling {reg : Registry} {unwind : Bool} {spelling s : Text} {cause : Cause}
    (h : ofSpelling reg unwind spelling = .rejected cause s) : cause.category ≠ .cycle := by
  unfold ofSpelling at h
  dsimp only at h
  split_ifs at h
  · cases h
    exact Category.noConfusion
  · cases h
    exact Category.noConfusion
  generalize substitute (normalize spelling) = known at h
  cases hname : ofName? reg unwind known with
  | some r =>
    rw [hname, Option.getD_some] at h
    subst h
    rcases ofName?_cases hname with ⟨_, h⟩ | ⟨_, h⟩ | ⟨h, -⟩ | h | ⟨_, -, h, -⟩ <;> cases h
  | none =>
    rw [hname, Option.getD_none] at h
    rcases ofForm_cases known with
      ⟨_, hform, -⟩ | ⟨_, _, hform, -⟩ | ⟨_, hform⟩ | ⟨_, hform, hcategory⟩
    · cases hform.symm.trans h
    · cases hform.symm.trans h
    · cases hform.symm.trans h
    · cases hform.symm.trans h
      exact hcategory

theorem ofSpelling_shallow (reg : Registry) (unwind : Bool) (spelling : Text) :
    (ofSpelling reg unwind spelling).Shallow :=
  fun _ _ h => category_of_ofSpelling h rfl

/-- A part of a spelling is an `int`, or lighter than the spelling, or what a typedef stands for
that the chain has not met. -/
theorem mem_parts_ofSpelling {reg : Registry} {unwind : Bool} {chain : List Text} {s : Text}
    {q : List Text × Text} (h : q ∈ (ofSpelling reg unwind s).parts chain) :
    q = (chain, "int".toList) ∨ q.1 = chain ∧ weight q.2 < weight s ∨
      ∃ name underlying, reg.underlying? name = some underlying ∧ name ∉ chain ∧
        q = (chain ++ [name], underlying) := by
  have hweight : weight (substitute (normalize s)) ≤ weight s :=
    (weight_substitute_le _).trans (weight_normalize_le s)
  unfold ofSpelling at h
  dsimp only at h
  split_ifs at h
  · cases h
  · cases h
  · cases h
  generalize substitute (normalize s) = known at h hweight
  cases hname : ofName? reg unwind known with
  | some r =>
    rw [hname, Option.getD_some] at h
    rcases ofName?_cases hname with
      ⟨d, rfl⟩ | ⟨d, rfl⟩ | ⟨rfl, -⟩ | rfl | ⟨underlying, hunder, rfl, -⟩
    · cases h
    · cases h
    · rw [parts] at h
      split at h
      · next parts hparts =>
        obtain ⟨f, hf, rfl⟩ := List.mem_map.1 h
        exact .inr (.inl ⟨rfl, (Parts.weight_lt_of_ofSpelling hparts hf).trans_le hweight⟩)
      · cases h
    · exact .inl (List.mem_singleton.1 h)
    · rw [parts] at h
      split_ifs at h with hchain
      · cases h
      · exact .inr (.inr ⟨known, underlying, hunder, by simpa using hchain, List.mem_singleton.1 h⟩)
  | none =>
    rw [hname, Option.getD_none] at h
    rcases ofForm_cases known with
      ⟨pointee, hform, hlt⟩ | ⟨dimensions, element, hform, hlt⟩ | ⟨d, hform⟩ | ⟨cause, hform, -⟩
    · rw [hform] at h
      rw [List.mem_singleton.1 h]
      exact .inr (.inl ⟨rfl, hlt.trans_le hweight⟩)
    · rw [hform] at h
      rw [List.mem_singleton.1 h]
      exact .inr (.inl ⟨rfl, hlt.trans_le hweight⟩)
    · rw [hform] at h
      cases h
    · rw [hform] at h
      cases h

/-- An `int` is resolved at once. -/
theorem ofSpelling_int (reg : Registry) (unwind : Bool) :
    ofSpelling reg unwind "int".toList = .named "int".toList := by
  rfl

end Reading

namespace Registry

/-! ## Levels -/

theorem descend_rel {R : ∀ {α : Type}, Trace α → Trace α → Prop} (hR : Compatible R)
    {reg : Registry} {config config' : Config} (hunwind : config.unwind = config'.unwind)
    {levels : Nat} (levels' : Nat) {chain : List Text} {s : Text}
    (h : ∀ p ∈ (Reading.ofSpelling reg config.unwind s).parts chain,
      R (reg.descend config levels p.1 p.2) (reg.descend config' levels' p.1 p.2)) :
    R (reg.descend config (levels + 1) chain s) (reg.descend config' (levels' + 1) chain s) := by
  rw [descend, descend, ← hunwind]
  exact hR.within _ (Reading.describe_rel hR (Reading.ofSpelling_shallow _ _ _) h)

/-- What ends within some levels ends in the same way within more, whatever limit is reported. -/
theorem descend_of_le (reg : Registry) {config config' : Config}
    (hunwind : config.unwind = config'.unwind) {levels levels' : Nat} (hle : levels ≤ levels')
    {chain : List Text} {s : Text} (h : (reg.descend config levels chain s).Finished) :
    reg.descend config levels chain s = reg.descend config' levels' chain s := by
  induction levels generalizing levels' chain s with
  | zero => exact absurd rfl (h _ config.maxDepth rfl)
  | succ levels ih =>
    obtain ⟨more, rfl⟩ : ∃ more, levels' = more + 1 := ⟨levels' - 1, by omega⟩
    exact descend_rel compatible_stable hunwind more (fun p _ hp => ih (by omega) hp) h

theorem descend_ok_of_le (reg : Registry) {config config' : Config}
    (hunwind : config.unwind = config'.unwind) {levels levels' : Nat} (hle : levels ≤ levels')
    {chain : List Text} {s d : Text} (h : (reg.descend config levels chain s).result = .ok d) :
    (reg.descend config' levels' chain s).result = .ok d := by
  rwa [← reg.descend_of_le hunwind hle (finished_of_ok h)]

theorem descend_succ_ok_iff {reg : Registry} {config : Config} {levels : Nat} {chain : List Text}
    {s d : Text} : (reg.descend config (levels + 1) chain s).result = .ok d ↔
      ((Reading.ofSpelling reg config.unwind s).describe reg (reg.descend config levels)
        chain).result = .ok d := by
  unfold descend Trace.within
  cases ((Reading.ofSpelling reg config.unwind s).describe reg (reg.descend config levels)
    chain).result with
  | ok a => rfl
  | error f => exact ⟨fun h => (by cases h), fun h => (by cases h)⟩

theorem resolve_eq_iff {reg : Registry} {config : Config} {s d : Text} :
    reg.resolve config s = ⟨d, none⟩ ↔ (reg.trace config s).result = .ok d := by
  unfold resolve
  cases (reg.trace config s).result with
  | ok a => simp [Resolution.ofResult]
  | error f => simp [Resolution.ofResult]

/-- The limit that a failure reports does not matter for what comes out. -/
theorem outcome_descend_congr (reg : Registry) {config config' : Config}
    (hunwind : config.unwind = config'.unwind) (levels : Nat) (chain : List Text) (s : Text) :
    (reg.descend config levels chain s).outcome = (reg.descend config' levels chain s).outcome := by
  induction levels generalizing chain s with
  | zero => rfl
  | succ levels ih => exact descend_rel compatible_outcome hunwind levels fun p _ => ih p.1 p.2

/-! ## Parts of spellings -/

/-- The first spelling is a part of the second, each after the typedefs in front of it. -/
def PartOf (reg : Registry) (unwind : Bool) (q p : List Text × Text) : Prop :=
  q ∈ (Reading.ofSpelling reg unwind p.2).parts p.1

/-- The number of typedefs that a chain has not met. -/
def unmet (reg : Registry) (chain : List Text) : Nat :=
  (reg.typedefs.map Prod.fst).countP fun name => !chain.contains name

theorem unmet_append_lt {reg : Registry} {chain : List Text} {name underlying : Text}
    (hname : reg.underlying? name = some underlying) (hchain : name ∉ chain) :
    reg.unmet (chain ++ [name]) < reg.unmet chain := by
  obtain ⟨before, after, hsplit, -⟩ := List.lookup_eq_some_iff.1 hname
  have hmono (names : List Text) :
      names.countP (fun n => !(chain ++ [name]).contains n) ≤
        names.countP (fun n => !chain.contains n) :=
    List.countP_mono_left fun n _ hn => by simp_all
  have hbefore := hmono (before.map Prod.fst)
  have hafter := hmono (after.map Prod.fst)
  rw [unmet, unmet, hsplit, List.map_append, List.map_cons, List.countP_append, List.countP_append,
    List.countP_cons_of_neg (by simp), List.countP_cons_of_pos (by simpa using hchain)]
  omega

/-- How far down a spelling can lead without another typedef: nowhere from an `int`. -/
def reach (s : Text) : Nat := if s = "int".toList then 0 else weight s + 1

/-- A part meets another typedef, or it is lighter. -/
theorem PartOf.lt {reg : Registry} {unwind : Bool} {q p : List Text × Text}
    (h : reg.PartOf unwind q p) :
    reg.unmet q.1 < reg.unmet p.1 ∨ q.1 = p.1 ∧ reach q.2 < reach p.2 := by
  obtain ⟨chain, s⟩ := p
  have hint : s ≠ "int".toList := by
    rintro rfl
    rw [PartOf, Reading.ofSpelling_int] at h
    cases h
  rcases Reading.mem_parts_ofSpelling h with
    rfl | ⟨hchain, hlt⟩ | ⟨name, underlying, hname, hnew, rfl⟩
  · refine .inr ⟨rfl, ?_⟩
    rw [reach, reach, if_pos rfl, if_neg hint]
    omega
  · refine .inr ⟨hchain, ?_⟩
    rw [reach, reach, if_neg hint]
    split_ifs <;> omega
  · exact .inl (unmet_append_lt hname hnew)

/-- **The descent into parts ends, however the typedefs lead to each other.** -/
theorem wellFounded_partOf (reg : Registry) (unwind : Bool) : WellFounded (reg.PartOf unwind) := by
  refine Subrelation.wf (r := InvImage (Prod.Lex (· < ·) (· < ·))
    fun p : List Text × Text => (reg.unmet p.1, reach p.2)) ?_
    (InvImage.wf _ (Prod.lex ⟨_, Nat.lt_wfRel.wf⟩ ⟨_, Nat.lt_wfRel.wf⟩).wf)
  intro q p h
  rcases h.lt with hlt | ⟨hchain, hlt⟩
  · exact Prod.Lex.left _ _ hlt
  · show Prod.Lex _ _ (reg.unmet q.1, reach q.2) (reg.unmet p.1, reach p.2)
    rw [hchain]
    exact Prod.Lex.right _ hlt

/-- Finitely many parts that end within some levels each end within common ones. -/
theorem exists_levels {reg : Registry} {config : Config} {l : List (List Text × Text)}
    (h : ∀ p ∈ l, ∃ levels, (reg.descend config levels p.1 p.2).Finished) :
    ∃ levels, ∀ p ∈ l, (reg.descend config levels p.1 p.2).Finished := by
  induction l with
  | nil => exact ⟨0, by simp⟩
  | cons p rest ih =>
    obtain ⟨m, hm⟩ := h p (by simp)
    obtain ⟨n, hn⟩ := ih fun q hq => h q (by simp [hq])
    refine ⟨max m n, fun q hq => ?_⟩
    rcases List.mem_cons.1 hq with rfl | hq
    · rw [← reg.descend_of_le rfl (le_max_left m n) hm]
      exact hm
    · rw [← reg.descend_of_le rfl (le_max_right m n) (hn q hq)]
      exact hn q hq

theorem exists_finished (reg : Registry) (config : Config) (p : List Text × Text) :
    ∃ levels, (reg.descend config levels p.1 p.2).Finished := by
  induction p using (reg.wellFounded_partOf config.unwind).induction with
  | _ p ih =>
    obtain ⟨levels, hlevels⟩ := exists_levels ih
    exact ⟨levels + 1, descend_rel compatible_finished (Eq.refl config.unwind) levels hlevels⟩

/-- **No spelling needs the limit of levels: from some depth on its outcome is the same for every
limit, and it is not that the parts are nested too deep.** -/
theorem exists_depth (reg : Registry) (unwind : Bool) (s : Text) :
    ∃ (depth : Int) (t : Trace Text), t.Finished ∧
      ∀ config : Config, config.unwind = unwind → depth ≤ config.maxDepth →
        reg.trace config s = t ∧
          reg.resolve config s = .ofResult config.placeholder t.result := by
  obtain ⟨levels, hlevels⟩ := reg.exists_finished { unwind := unwind } ([], s)
  refine ⟨levels, _, hlevels, fun config hunwind hdepth => ?_⟩
  have hle : levels ≤ config.maxDepth.toNat := by omega
  have htrace : _ = reg.trace config s := reg.descend_of_le hunwind.symm hle hlevels
  refine ⟨htrace.symm, ?_⟩
  rw [resolve, ← htrace]

/-- **A greater limit changes nothing for a spelling that stays within a smaller one**: it comes out
as the same descriptor, or fails for the same cause in the same spelling and contexts, and the same
packages are used. -/
theorem trace_of_maxDepth_le (reg : Registry) (config config' : Config)
    (hunwind : config.unwind = config'.unwind) (hdepth : config.maxDepth ≤ config'.maxDepth)
    (s : Text) (hfinished : (reg.trace config s).Finished) :
    reg.trace config' s = reg.trace config s := by
  have hle : config.maxDepth.toNat ≤ config'.maxDepth.toNat := Int.toNat_le_toNat hdepth
  exact (reg.descend_of_le hunwind hle hfinished).symm

/-- A function that takes a stream and an unknown type: three levels are enough to see it fail. -/
theorem trace_of_maxDepth_le_unknown :
    let s := "int (*)(FILE *, nope)".toList
    ((({} : Registry).trace { maxDepth := 3 } s).imports = [runtimePackage] ∧
      (({} : Registry).trace { maxDepth := 3 } s).result.mapError Failure.cause =
        .error .unknownType) ∧
    ({} : Registry).trace { maxDepth := 64 } s = ({} : Registry).trace { maxDepth := 3 } s := by
  intro s
  have hcause : (({} : Registry).trace { maxDepth := 3 } s).imports = [runtimePackage] ∧
      (({} : Registry).trace { maxDepth := 3 } s).result.mapError Failure.cause =
        .error .unknownType := by
    decide +kernel
  refine ⟨hcause, trace_of_maxDepth_le {} { maxDepth := 3 } { maxDepth := 64 } rfl (by decide) s
    fun f limit hf hlimit => ?_⟩
  rw [hf] at hcause
  cases hcause.2.symm.trans (congrArg Except.error hlimit)

end Registry

end CSpelling

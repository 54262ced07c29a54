import CSpelling.Proofs.Descent
import CSpelling.Proofs.FunctionSpellings
import Mathlib.Data.List.Forall2

/-!
# Function types come out as their parts do

`outcome_functionPointer_and_signature`: a function type is resolved by resolving its parameters
and its returned type with one level less. Its descriptor is put together from theirs, and if one
of them fails, the first failure decides what kind of failure it is.

The other parts play no role for what comes out of a part (`outcome_eq_composed`): each is resolved
after the same typedefs, none, and only the limit that is reported differs from a resolution with
one level less (`Registry.outcome_descend_congr`).
-/

namespace CSpelling.FunctionTypes

open Text CSpelling.Normal

variable {params : List Text} {s returns : Text}

/-! ## Outcomes -/

/-- What comes out for a spelling: its descriptor, or the kind of its failure. -/
def outcome (reg : Registry) (config : Config) (s : Text) : Except FailureKind Text :=
  match (reg.resolve config s).failure with
  | none => .ok (reg.resolve config s).descriptor
  | some f => .error f.kind

/-- The same setting with one level less. -/
def below (config : Config) : Config := { config with maxDepth := config.maxDepth - 1 }

/-- The descriptor of a function type behind `k` slices. -/
def functionDescriptor (k : Nat) (params : List Text) (returns : Text) : Text :=
  slices k ++ "func(".toList ++ listSeparator.intercalate params ++ ")(".toList ++ returns ++
    ")".toList

/-- The first of the texts that fails does so in this way. -/
def FailsFirst (f : Text → Except FailureKind Text) (l : List Text) (kind : FailureKind) : Prop :=
  ∃ before s after, l = before ++ s :: after ∧ (∀ q ∈ before, ∃ d, f q = .ok d) ∧ f s = .error kind

theorem outcome_eq (reg : Registry) (config : Config) (s : Text) :
    outcome reg config s = (reg.trace config s).outcome := by
  unfold outcome Registry.resolve Trace.outcome
  cases (reg.trace config s).result <;> rfl

theorem outcome_traverse {α β : Type} (g : α → Trace β) (l : List α) :
    (Trace.traverse g l).outcome = l.mapM fun a => (g a).outcome := by
  induction l with
  | nil => rfl
  | cons a rest ih =>
    rw [Trace.traverse, Trace.outcome_andThen, List.mapM_cons]
    refine congrArg (Except.bind (g a).outcome) (funext fun b => ?_)
    rw [Trace.outcome_map, ih]
    cases rest.mapM fun a => (g a).outcome <;> rfl

section Lists

variable {f : Text → Except FailureKind Text} {kind : FailureKind} {l ds : List Text}

theorem mapM_cons_ok {d : Text} (h : f s = .ok d) (l : List Text) :
    (s :: l).mapM f = (l.mapM f).map (d :: ·) := by
  rw [List.mapM_cons, h]
  cases l.mapM f <;> rfl

theorem mapM_cons_error (h : f s = .error kind) (l : List Text) :
    (s :: l).mapM f = .error kind := by
  rw [List.mapM_cons, h]
  rfl

theorem failsFirst_cons : FailsFirst f (s :: l) kind ↔
    f s = .error kind ∨ (∃ d, f s = .ok d) ∧ FailsFirst f l kind := by
  constructor
  · rintro ⟨before, q, after, hsplit, hbefore, hq⟩
    cases before with
    | nil =>
      obtain ⟨rfl, rfl⟩ := List.cons.inj hsplit
      exact .inl hq
    | cons p front =>
      obtain ⟨rfl, rfl⟩ := List.cons.inj hsplit
      exact .inr ⟨hbefore s (by simp), front, q, after, rfl,
        fun r hr => hbefore r (List.mem_cons_of_mem _ hr), hq⟩
  · rintro (hs | ⟨hs, before, q, after, rfl, hbefore, hq⟩)
    · exact ⟨[], s, l, rfl, by simp, hs⟩
    · refine ⟨s :: before, q, after, rfl, fun r hr => ?_, hq⟩
      rcases List.mem_cons.1 hr with rfl | hr
      · exact hs
      · exact hbefore r hr

theorem mapM_eq_ok_iff : l.mapM f = .ok ds ↔ List.Forall₂ (fun s d => f s = .ok d) l ds := by
  induction l generalizing ds with
  | nil =>
    rw [List.mapM_nil, List.forall₂_nil_left_iff]
    exact ⟨fun h => (Except.ok.inj h).symm, fun h => congrArg Except.ok h.symm⟩
  | cons s rest ih =>
    rw [List.forall₂_cons_left_iff]
    cases hs : f s with
    | error kind =>
      rw [mapM_cons_error hs]
      refine ⟨fun h => (by cases h), ?_⟩
      rintro ⟨_, _, ⟨⟩, -⟩
    | ok d =>
      rw [mapM_cons_ok hs]
      constructor
      · intro h
        cases hrest : rest.mapM f with
        | error kind => rw [hrest] at h; cases h
        | ok tail =>
          rw [hrest] at h
          exact ⟨d, tail, rfl, ih.1 hrest, (Except.ok.inj h).symm⟩
      · rintro ⟨_, tail, ⟨⟩, htail, rfl⟩
        rw [ih.2 htail]
        rfl

theorem mapM_eq_error_iff : l.mapM f = .error kind ↔ FailsFirst f l kind := by
  induction l with
  | nil =>
    refine ⟨fun h => (by cases h), ?_⟩
    rintro ⟨before, s, after, hsplit, -⟩
    simp at hsplit
  | cons s rest ih =>
    rw [failsFirst_cons, ← ih]
    cases hs : f s with
    | error kind' =>
      rw [mapM_cons_error hs]
      constructor
      · intro h
        exact .inl (congrArg Except.error (Except.error.inj h))
      · rintro (h | ⟨⟨d, ⟨⟩⟩, -⟩)
        exact congrArg Except.error (Except.error.inj h)
    | ok d =>
      rw [mapM_cons_ok hs]
      cases rest.mapM f with
      | error kind' =>
        constructor
        · intro h
          exact .inr ⟨⟨d, rfl⟩, h⟩
        · rintro (⟨⟨⟩⟩ | ⟨-, h⟩)
          exact h
      | ok ds =>
        constructor
        · intro h
          cases h
        · rintro (⟨⟨⟩⟩ | ⟨-, ⟨⟩⟩)

end Lists

/-- What comes out of a function type is made of what comes out of its parameters and its returned
type. -/
theorem outcome_describeFunction {part : Text → Trace Text} {parts : Parts}
    (h : Parts.ofSpelling s = .ok parts) :
    ((describeFunction part s).map Signature.descriptor).outcome =
      ((parts.fields.filter (!·.isEmpty)).mapM fun p => (part p).outcome).bind fun ds =>
        (part parts.returns).outcome.map fun r =>
          Signature.descriptor ⟨parts.indirection, ds, r⟩ := by
  rw [Trace.outcome_map, describeFunction, Trace.outcome_within, Trace.outcome_andThen, h]
  have hfields : (Trace.traverse (fun p => (part p).within (.field p))
      (parts.fields.filter (!·.isEmpty))).outcome =
        (parts.fields.filter (!·.isEmpty)).mapM fun p => (part p).outcome := by
    rw [outcome_traverse]
    simp only [Trace.outcome_within]
  show Except.map _ (describeParts part parts).outcome = _
  rw [describeParts, Trace.outcome_andThen, hfields]
  cases (parts.fields.filter (!·.isEmpty)).mapM fun p => (part p).outcome with
  | error kind => rfl
  | ok ds =>
    show Except.map _ (Trace.map _ _).outcome = Except.map _ _
    rw [Trace.outcome_map, Trace.outcome_within]
    cases (part parts.returns).outcome <;> rfl

theorem descriptor_replicate (k : Nat) (params : List Text) (returns : Text) :
    Signature.descriptor ⟨List.replicate k '*', params, returns⟩ =
      functionDescriptor k params returns := by
  have hreplace : replace ['*'] ['[', ']'] (List.replicate k '*') = slices k := by
    unfold replace
    induction k with
    | zero => rfl
    | succ k ih =>
      rw [List.replicate_succ, replaceAfter, if_pos (by simp), List.length_singleton, ih,
        slices_succ]
      rfl
  rw [Signature.descriptor, hreplace]
  rfl

/-! ## Resolution -/

/-- What comes out of a function type whose parameters and returned type come out as `f` says. -/
def composed (f : Text → Except FailureKind Text) (k : Nat) (params : List Text) (returns : Text) :
    Except FailureKind Text :=
  (params.mapM f).bind fun ds => (f returns).map (functionDescriptor k ds)

theorem composed_eq_ok_iff {f : Text → Except FailureKind Text} {k : Nat} {returns d : Text} :
    composed f k params returns = .ok d ↔
      ∃ ds r, List.Forall₂ (fun p d => f p = .ok d) params ds ∧ f returns = .ok r ∧
        d = functionDescriptor k ds r := by
  unfold composed
  constructor
  · intro h
    cases hparams : params.mapM f with
    | error kind =>
      rw [hparams] at h
      cases h
    | ok ds =>
      rw [hparams] at h
      cases hreturns : f returns with
      | error kind =>
        rw [hreturns] at h
        cases h
      | ok r =>
        rw [hreturns] at h
        exact ⟨ds, r, mapM_eq_ok_iff.1 hparams, rfl, (Except.ok.inj h).symm⟩
  · rintro ⟨ds, r, hparams, hreturns, rfl⟩
    rw [mapM_eq_ok_iff.2 hparams, hreturns]
    rfl

/-- A failure of the whole is that of the first part that fails, the returned type last. -/
theorem composed_eq_error_iff {f : Text → Except FailureKind Text} {k : Nat} {returns : Text}
    {kind : FailureKind} :
    composed f k params returns = .error kind ↔ FailsFirst f (params ++ [returns]) kind := by
  rw [composed, ← mapM_eq_error_iff, List.mapM_append]
  cases params.mapM f with
  | error kind' =>
    exact ⟨fun h => congrArg Except.error (Except.error.inj h),
      fun h => congrArg Except.error (Except.error.inj h)⟩
  | ok ds =>
    cases hreturns : f returns with
    | error kind' =>
      show Except.error kind' = Except.error kind ↔ Except.bind (List.mapM f [returns]) _ = _
      rw [mapM_cons_error hreturns]
      exact ⟨fun h => congrArg Except.error (Except.error.inj h),
        fun h => congrArg Except.error (Except.error.inj h)⟩
    | ok r =>
      show Except.ok _ = Except.error kind ↔ Except.bind (List.mapM f [returns]) _ = _
      rw [mapM_cons_ok hreturns]
      exact ⟨fun h => (by cases h), fun h => (by cases h)⟩

section Resolution

variable {reg : Registry} {config : Config} {whole : Text} {k : Nat}

/-- **A function type comes out as its parts do with one level less.** -/
theorem outcome_eq_composed (hdepth : 1 ≤ config.maxDepth) {fields : List Text}
    (hreading : Reading.ofSpelling reg config.unwind whole = .function s)
    (hparts : Parts.ofSpelling s = .ok ⟨List.replicate k '*', fields, returns⟩)
    (hfields : fields.filter (!·.isEmpty) = params) :
    outcome reg config whole = composed (outcome reg (below config)) k params returns := by
  obtain ⟨levels, hlevels⟩ : ∃ levels, config.maxDepth.toNat = levels + 1 :=
    ⟨config.maxDepth.toNat - 1, by omega⟩
  have hbelow : (below config).maxDepth.toNat = levels := by
    show (config.maxDepth - 1).toNat = levels
    omega
  have hpart (p : Text) :
      (reg.descend config levels [] p).outcome = outcome reg (below config) p := by
    rw [outcome_eq, Registry.trace, hbelow]
    have hunwind : config.unwind = (below config).unwind := rfl
    exact reg.outcome_descend_congr hunwind levels [] p
  rw [outcome_eq, Registry.trace, hlevels, Registry.descend, Trace.outcome_within, hreading,
    Reading.describe, outcome_describeFunction hparts, hfields]
  simp only [hpart, descriptor_replicate]
  rfl

/-- What comes out of a function type with a block. -/
theorem outcome_functionPointer (hreg : reg.Without '(') (hdepth : 1 ≤ config.maxDepth)
    (hreturns : IsComponent returns) (hparams : ∀ p ∈ params, IsParameter p) (k : Nat) :
    outcome reg config (functionPointer returns (k + 1) params) =
      composed (outcome reg (below config)) k params returns := by
  have hinner := isInner_intercalate hparams
  refine outcome_eq_composed hdepth (ofSpelling_of_isFunction hreg _ ?_
    (normalize_functionPointer hreturns.isNormal hreturns.ne_nil hinner k) (by simp) ?_ ?_)
    (ofSpelling_functionPointer hreturns hinner k) (filter_topFields hparams)
  · simp [functionPointer, hreturns.colon, hinner.colon]
  · have hspace : FreeOf (returns ++ [' ']) := hreturns.free.append (by decide)
    have hblock : FreeOf (block k) := by
      refine FreeOf.nil.append fun c hc => ?_
      rcases mem_block hc with rfl | rfl <;> decide
    have harguments : FreeOf (inset (listSeparator.intercalate params) ++ [')']) :=
      hinner.freeOf_inset.append (by decide)
    have hclosed := hblock.append_cons (c := ')') (by simp)
      (FreeOf.nil.append_cons (c := '(') (by simp) harguments)
    simpa using hspace.append_cons (c := '(') (by simp) hclosed
  · simpa using isFunction_closed hinner.not_marker_inset
      (returns ++ ' ' :: '(' :: (block k ++ [')']))

/-- What comes out of a function type without a block. -/
theorem outcome_signature (hreg : reg.Without '(') (hdepth : 1 ≤ config.maxDepth)
    (hreturns : IsComponent returns) (hlast : returns.getLast? ≠ some ')')
    (hparams : ∀ p ∈ params, IsParameter p) :
    outcome reg config (signature returns params) =
      composed (outcome reg (below config)) 0 params returns := by
  have hinner := isInner_intercalate hparams
  refine outcome_eq_composed hdepth (ofSpelling_of_isFunction hreg _ ?_
    (normalize_signature hreturns.isNormal hreturns.ne_nil hinner) (by simp) ?_ ?_)
    (ofSpelling_signature hreturns hlast hinner) (filter_topFields hparams)
  · simp [signature, hreturns.colon, hinner.colon]
  · have hspace : FreeOf (returns ++ [' ']) := hreturns.free.append (by decide)
    have harguments : FreeOf (inset (listSeparator.intercalate params) ++ [')']) :=
      hinner.freeOf_inset.append (by decide)
    simpa using hspace.append_cons (c := '(') (by simp) harguments
  · simpa using isFunction_closed hinner.not_marker_inset (returns ++ [' '])

end Resolution

/-- **Function types come out as their parts do.** With one level less for the parts, a function
type with `k + 1` stars has a descriptor if all of its parts have one, and then that of the function
behind `k` slices; otherwise it fails as its first part that fails does, the returned type last.
Without a block it comes out as with one star, if the returned type does not end in a
parenthesis. -/
theorem outcome_functionPointer_and_signature (reg : Registry)
    (hreg : ∀ name ∈ reg.names, '(' ∉ name) (config : Config) (hdepth : 1 ≤ config.maxDepth)
    (k : Nat) (returns : Text) (hreturns : IsComponent returns) (params : List Text)
    (hparams : ∀ p ∈ params, IsParameter p) :
    (∀ d, outcome reg config (functionPointer returns (k + 1) params) = .ok d ↔
      ∃ ds r, List.Forall₂ (fun p d => outcome reg (below config) p = .ok d) params ds ∧
        outcome reg (below config) returns = .ok r ∧ d = functionDescriptor k ds r) ∧
    (∀ kind, outcome reg config (functionPointer returns (k + 1) params) = .error kind ↔
      FailsFirst (outcome reg (below config)) (params ++ [returns]) kind) ∧
    (returns.getLast? ≠ some ')' →
      outcome reg config (signature returns params) =
        outcome reg config (functionPointer returns 1 params)) := by
  have hwhole := outcome_functionPointer hreg hdepth hreturns hparams
  refine ⟨fun d => ?_, fun kind => ?_, fun hlast => ?_⟩
  · rw [hwhole k]
    exact composed_eq_ok_iff
  · rw [hwhole k]
    exact composed_eq_error_iff
  · rw [hwhole 0]
    exact outcome_signature hreg hdepth hreturns hlast hparams

/-- A pointer to a pointer to a function that takes a function. -/
theorem outcome_of_callback :
    outcome {} {} "char * (**)(int, double (char, int))".toList =
      .ok "[]func(int, func(byte, int)(float64))([]byte)".toList :=
  ((outcome_functionPointer_and_signature {} (by decide) {} (by decide) 1 "char *".toList
    ⟨by decide, by decide +kernel, by decide, by decide +kernel⟩
    ["int".toList, "double (char, int)".toList] (by
      intro p hp
      rcases List.mem_cons.1 hp with rfl | hp
      · exact ⟨⟨by decide, by decide +kernel, by decide, by decide +kernel⟩,
          ⟨by decide +kernel, by decide +kernel⟩, by decide⟩
      · rw [List.mem_singleton.1 hp]
        exact ⟨⟨by decide, by decide +kernel, by decide, by decide +kernel⟩,
          ⟨by decide +kernel, by decide +kernel⟩, by decide⟩)).1 _).2
    ⟨["int".toList, "func(byte, int)(float64)".toList], "[]byte".toList,
      .cons (by rfl) (.cons (by rfl) .nil), by rfl, by rfl⟩

end CSpelling.FunctionTypes

import CSpelling.Proofs.Objects
import CSpelling.Proofs.Origins

/-!
# Packages in use

The packages in use are all that a resolution changes in the registry, and no resolution looks at
them. So resolutions one after another are as each by itself (`Registry.resolveAll_isolated`).

A failure does not take back what was recorded before it: of a function type, the parts before the
one that fails were resolved, and their packages stay (`Registry.recordTrace_of_error`). Nothing
else is recorded on the way to a failure.
-/

namespace CSpelling

open Text Trace

namespace Registry

/-! ## Resolutions one after another -/

/-- The packages in use are a set: recording adds what is not there yet. -/
theorem mem_imports_record {reg : Registry} {paths : List Text} {path : Text} :
    path ∈ (reg.record paths).imports ↔ path ∈ reg.imports ∨ path ∈ paths := by
  unfold record
  generalize reg.imports = known
  induction paths generalizing known with
  | nil => simp
  | cons first rest ih =>
    rw [List.foldl_cons, ih, List.mem_insert_iff, List.mem_cons]
    tauto

theorem record_append (reg : Registry) (paths paths' : List Text) :
    reg.record (paths ++ paths') = (reg.record paths).record paths' := by
  rw [record, List.foldl_append]
  rfl

theorem resolveAll_cons (reg : Registry) (p : Text × Config) (rest : List (Text × Config)) :
    (reg.resolveAll (p :: rest)).2 =
      ((reg.record (reg.trace p.2 p.1).imports).resolveAll rest).2 := rfl

theorem resolveAll_eq_record (reg : Registry) (l : List (Text × Config)) :
    (reg.resolveAll l).2 = reg.record (l.flatMap fun p => (reg.trace p.2 p.1).imports) := by
  induction l generalizing reg with
  | nil => rfl
  | cons p rest ih =>
    have htrace (q : Text × Config) :
        (reg.record (reg.trace p.2 p.1).imports).trace q.2 q.1 = reg.trace q.2 q.1 :=
      descend_record ..
    rw [resolveAll_cons, ih, List.flatMap_cons, record_append]
    simp only [htrace]

/-- **Resolutions do not influence each other.** One after another, spellings come out as each by
itself on the registry at the beginning. Of the registry only the packages in use change: each
spelling adds its own, in whatever order and however often it is resolved. -/
theorem resolveAll_isolated (reg : Registry) (l : List (Text × Config)) :
    (reg.resolveAll l).1 = l.map (fun p => reg.resolve p.2 p.1) ∧
      (reg.resolveAll l).2 = { reg with imports := (reg.resolveAll l).2.imports } ∧
      (∀ path, path ∈ (reg.resolveAll l).2.imports ↔
        path ∈ reg.imports ∨ ∃ p ∈ l, path ∈ (reg.trace p.2 p.1).imports) ∧
      ∀ l' : List (Text × Config), (∀ p, p ∈ l' ↔ p ∈ l) →
        ∀ path, path ∈ (reg.resolveAll l').2.imports ↔ path ∈ (reg.resolveAll l).2.imports := by
  have hmem (m : List (Text × Config)) (path : Text) : path ∈ (reg.resolveAll m).2.imports ↔
      path ∈ reg.imports ∨ ∃ p ∈ m, path ∈ (reg.trace p.2 p.1).imports := by
    rw [resolveAll_eq_record, mem_imports_record, List.mem_flatMap]
  refine ⟨resolveAll_eq reg l, ?_, hmem l, fun l' hsame path => ?_⟩
  · rw [resolveAll_eq_record]
    rfl
  · simp only [hmem, hsame]

/-! ## What a failure leaves behind -/

/-- The spelling, after its typedefs, has a descriptor within so many levels. -/
def resolvesWithin (reg : Registry) (config : Config) (levels : Nat) (p : List Text × Text) : Bool :=
  (reg.descend config levels p.1 p.2).result.isOk

/-- The spellings that are resolved before a failure ends the parts `parts`, with `levels` left to
descend: the parts before the first one that fails, and what is resolved of this one. -/
def resolvedFirst (reg : Registry) (config : Config) : Nat → List (List Text × Text) → List Text
  | 0, _ => []
  | levels + 1, parts =>
    (parts.takeWhile (reg.resolvesWithin config (levels + 1))).map Prod.snd ++
      match parts.dropWhile (reg.resolvesWithin config (levels + 1)) with
      | [] => []
      | p :: _ =>
        reg.resolvedFirst config levels ((Reading.ofSpelling reg config.unwind p.2).parts p.1)

@[simp] theorem resolvedFirst_nil (reg : Registry) (config : Config) (levels : Nat) :
    reg.resolvedFirst config levels [] = [] := by
  cases levels <;> rfl

/-- The spellings are resolved, and `reg'` is the registry after that. -/
def Recorded (reg : Registry) (config : Config) (spellings : List Text) (reg' : Registry) : Prop :=
  (∀ s ∈ spellings, ∃ d, reg.resolve config s = ⟨d, none⟩) ∧
    reg' = reg.record (spellings.flatMap fun s => (reg.trace config s).imports)

section Failures

variable {reg : Registry} {config : Config}

theorem resolvedFirst_of_split {levels : Nat} {before after : List (List Text × Text)}
    {p : List Text × Text} {f : Failure}
    (hbefore : ∀ q ∈ before, ∃ d, (reg.descend config (levels + 1) q.1 q.2).result = .ok d)
    (hp : (reg.descend config (levels + 1) p.1 p.2).result = .error f) :
    reg.resolvedFirst config (levels + 1) (before ++ p :: after) = before.map Prod.snd ++
      reg.resolvedFirst config levels ((Reading.ofSpelling reg config.unwind p.2).parts p.1) := by
  have hresolves : ∀ q ∈ before, reg.resolvesWithin config (levels + 1) q = true := by
    intro q hq
    obtain ⟨d, hd⟩ := hbefore q hq
    rw [resolvesWithin, hd]
    rfl
  have hfails : ¬reg.resolvesWithin config (levels + 1) p = true := by
    rw [resolvesWithin, hp]
    exact Bool.false_ne_true
  rw [resolvedFirst, List.takeWhile_append_of_pos hresolves, List.dropWhile_append_of_pos hresolves,
    List.takeWhile_cons_of_neg hfails, List.dropWhile_cons_of_neg hfails, List.append_nil]

/-- Whatever the chain and however many levels are left, what is resolved on the way to a failure
is resolved by itself, and its packages are all that is used. -/
theorem imports_of_failsAt {levels : Nat} (hlevels : levels ≤ config.maxDepth.toNat)
    {parts : List (List Text × Text)} {imports : List Text} {cause : Cause}
    (h : FailsAt (fun p => reg.descend config levels p.1 p.2) parts imports cause) :
    (∀ s ∈ reg.resolvedFirst config levels parts, ∃ d, (reg.trace config s).result = .ok d) ∧
      imports = (reg.resolvedFirst config levels parts).flatMap fun s =>
        (reg.trace config s).imports := by
  induction levels generalizing parts imports cause with
  | zero =>
    obtain ⟨before, p, after, -, hbefore, -, rfl⟩ := h
    have hnone : before = [] := List.eq_nil_iff_forall_not_mem.2 fun q hq => by
      obtain ⟨d, hd⟩ := hbefore q hq
      cases hd
    rw [hnone]
    exact ⟨by simp [resolvedFirst], rfl⟩
  | succ levels ih =>
    obtain ⟨before, p, after, rfl, hbefore, ⟨f, hf, -⟩, rfl⟩ := h
    have htrace {q : List Text × Text} {d : Text}
        (hd : (reg.descend config (levels + 1) q.1 q.2).result = .ok d) :
        reg.descend config (levels + 1) q.1 q.2 = reg.trace config q.2 := by
      have hnil := descend_nil_of_ok hd
      rw [hnil] at hd ⊢
      exact reg.descend_of_le rfl hlevels (finished_of_ok hd)
    rw [resolvedFirst_of_split hbefore hf]
    -- The part that fails is nothing but its own parts up to the failure.
    have hlast : (∀ s ∈ reg.resolvedFirst config levels
        ((Reading.ofSpelling reg config.unwind p.2).parts p.1),
          ∃ d, (reg.trace config s).result = .ok d) ∧
        (reg.descend config (levels + 1) p.1 p.2).imports =
          (reg.resolvedFirst config levels
            ((Reading.ofSpelling reg config.unwind p.2).parts p.1)).flatMap fun s =>
              (reg.trace config s).imports := by
      obtain ⟨g, hg, -⟩ := cause_of_within hf
      rcases Reading.describe_error hg with hparts | ⟨halone, himports⟩
      · exact ih (by omega) hparts
      · rw [halone.parts, resolvedFirst_nil]
        exact ⟨by simp, himports⟩
    constructor
    · intro s hs
      rcases List.mem_append.1 hs with hs | hs
      · obtain ⟨q, hq, rfl⟩ := List.mem_map.1 hs
        obtain ⟨d, hd⟩ := hbefore q hq
        exact ⟨d, by rw [← htrace hd, hd]⟩
      · exact hlast.1 s hs
    · rw [List.flatMap_append, ← hlast.2, List.flatMap_map]
      refine congrArg (· ++ _) (List.flatMap_congr fun q hq => ?_)
      obtain ⟨d, hd⟩ := hbefore q hq
      exact congrArg Trace.imports (htrace hd)

end Failures

/-- **A failure leaves behind the packages of what was resolved before it, and nothing else.** -/
theorem recordTrace_of_error (reg : Registry) (config : Config) (s : Text) :
    (∀ f, (reg.trace config s).result = .error f →
      reg.Recorded config (reg.resolvedFirst config config.maxDepth.toNat [([], s)])
        (reg.recordTrace (reg.trace config s)).2) ∧
    ∀ f, (reg.traceFunction config s).result = .error f →
      reg.Recorded config
        (reg.resolvedFirst config config.maxDepth.toNat ((Reading.function s).parts []))
        (reg.recordTrace (reg.traceFunction config s)).2 := by
  have hrecorded {parts : List (List Text × Text)} {imports : List Text} {cause : Cause}
      (h : FailsAt (fun p => reg.descend config config.maxDepth.toNat p.1 p.2) parts imports cause) :
      reg.Recorded config (reg.resolvedFirst config config.maxDepth.toNat parts)
        (reg.record imports) := by
    obtain ⟨hresolve, himports⟩ := imports_of_failsAt le_rfl h
    refine ⟨fun t ht => ?_, by rw [himports]⟩
    obtain ⟨d, hd⟩ := hresolve t ht
    exact ⟨d, resolve_eq_iff.2 hd⟩
  constructor
  · intro f hf
    exact hrecorded (failsAt_singleton (a := ([], s)) hf)
  · intro f hf
    rcases describeFunction_error hf with ⟨parts, hparts, hfails⟩ | ⟨g, hg, -, himports⟩
    · rw [Reading.parts, hparts]
      exact hrecorded (failsAt_map hfails)
    · have hnone : (reg.traceFunction config s).imports = [] := himports
      rw [Reading.parts, hg, resolvedFirst_nil, recordTrace, hnone]
      exact ⟨by simp, rfl⟩

/-- A function type with a stream as its parameter and an unknown returned type. -/
theorem recordTrace_of_unknown_return :
    let s := "nope (FILE *)".toList
    Recorded {} {} ["FILE *".toList] (recordTrace {} (trace {} {} s)).2 ∧
      Recorded {} {} ["FILE *".toList] (recordTrace {} (traceFunction {} {} s)).2 := by
  have hfirst : resolvedFirst {} {} 64 [([], "nope (FILE *)".toList)] = ["FILE *".toList] ∧
      resolvedFirst {} {} 64 ((Reading.function "nope (FILE *)".toList).parts []) =
        ["FILE *".toList] := by
    decide +kernel
  obtain ⟨htrace, hfunction⟩ := recordTrace_of_error {} {} "nope (FILE *)".toList
  exact ⟨hfirst.1 ▸ htrace _ (by rfl), hfirst.2 ▸ hfunction _ (by rfl)⟩

/-- **A failure leaves a package behind**: that of the stream before the type that is not known. -/
theorem recordTrace_ne_of_failure :
    let s := "nope (FILE *)".toList
    (resolve {} {} s).ok = false ∧ (traceFunction {} {} s).result.isOk = false ∧
      (recordTrace {} (trace {} {} s)).2 = { imports := [runtimePackage] } ∧
      (recordTrace {} (traceFunction {} {} s)).2 = { imports := [runtimePackage] } ∧
      ({ imports := [runtimePackage] } : Registry) ≠ {} := by
  decide +kernel

end Registry

end CSpelling

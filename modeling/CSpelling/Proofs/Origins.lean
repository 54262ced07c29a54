import CSpelling.Proofs.Chains

/-!
# Where failures come from

A reading is resolved from its parts in order, and the first part that fails ends it.
`Reading.describe_error` finds this part: the parts before it are resolved, its cause is the cause
of the whole, and the packages used are those of the parts so far. A reading that fails without
such a part has no parts and uses no package; it is rejected, or a function type that cannot be
split, or a typedef that is met again (`Reading.FailsAlone`).
-/

namespace CSpelling

open Text

namespace Trace

variable {α β : Type}

/-! ## Contexts -/

theorem within_ok_iff {context : Context} {t : Trace α} {a : α} :
    (t.within context).result = .ok a ↔ t.result = .ok a := by
  obtain ⟨imports, _ | _⟩ := t <;> simp [within, Except.mapError]

theorem map_ok_iff {g : α → β} {t : Trace α} {b : β} :
    (t.map g).result = .ok b ↔ ∃ a, t.result = .ok a ∧ g a = b := by
  obtain ⟨imports, _ | _⟩ := t <;> simp [map, Except.map]

theorem within_error_iff {context : Context} {t : Trace α} {f : Failure} :
    (t.within context).result = .error f ↔
      ∃ g, t.result = .error g ∧ f = g.within context := by
  obtain ⟨imports, g | a⟩ := t
  · simp [within, Except.mapError, eq_comm]
  · simp [within, Except.mapError]

theorem map_error_iff {g : α → β} {t : Trace α} {f : Failure} :
    (t.map g).result = .error f ↔ t.result = .error f := by
  obtain ⟨imports, _ | _⟩ := t <;> simp [map, Except.map]

/-- A context does not change the cause. -/
theorem cause_of_within {context : Context} {t : Trace α} {f : Failure}
    (h : (t.within context).result = .error f) :
    ∃ g, t.result = .error g ∧ g.cause = f.cause := by
  obtain ⟨g, hg, rfl⟩ := within_error_iff.1 h
  exact ⟨g, hg, rfl⟩

/-! ## Lists of traces -/

theorem andThen_error_iff {t : Trace α} {next : α → Trace β} {f : Failure} :
    (t.andThen next).result = .error f ↔
      t.result = .error f ∨ ∃ a, t.result = .ok a ∧ (next a).result = .error f := by
  cases h : t.result with
  | error g => simp [andThen_of_error h]
  | ok a => simp [andThen_of_ok h]

theorem traverse_ok_iff {g : α → Trace β} {l : List α} :
    (∃ bs, (traverse g l).result = .ok bs) ↔ ∀ a ∈ l, ∃ b, (g a).result = .ok b := by
  induction l with
  | nil => exact iff_of_true ⟨[], rfl⟩ (by simp)
  | cons a rest ih =>
    rw [List.forall_mem_cons, ← ih]
    cases h : (g a).result with
    | error f => simp [traverse, andThen_of_error h]
    | ok b => simp [traverse, andThen_of_ok h, map_ok_iff]

/-- A list fails with the first of it that does. -/
theorem traverse_error_iff {g : α → Trace β} {l : List α} {f : Failure} :
    (traverse g l).result = .error f ↔ ∃ before a after, l = before ++ a :: after ∧
      (∀ b ∈ before, ∃ c, (g b).result = .ok c) ∧ (g a).result = .error f := by
  induction l with
  | nil => simp [traverse, value, ofResult]
  | cons a rest ih =>
    rw [traverse, andThen_error_iff]
    constructor
    · rintro (h | ⟨b, hb, h⟩)
      · exact ⟨[], a, rest, rfl, by simp, h⟩
      · obtain ⟨before, c, after, rfl, hbefore, hc⟩ := ih.1 (map_error_iff.1 h)
        exact ⟨a :: before, c, after, rfl, List.forall_mem_cons.2 ⟨⟨b, hb⟩, hbefore⟩, hc⟩
    · rintro ⟨_ | ⟨first, before⟩, c, after, heq, hbefore, hc⟩
      · obtain ⟨rfl, rfl⟩ := List.cons.inj heq
        exact .inl hc
      · obtain ⟨rfl, rfl⟩ := List.cons.inj heq
        obtain ⟨⟨b, hb⟩, hbefore⟩ := List.forall_mem_cons.1 hbefore
        exact .inr ⟨b, hb, map_error_iff.2 (ih.2 ⟨before, c, after, rfl, hbefore, hc⟩)⟩

/-- All of the list has values, with the packages `imports`. -/
def Succeeds (g : α → Trace β) (l : List α) (imports : List Text) : Prop :=
  (∀ a ∈ l, ∃ b, (g a).result = .ok b) ∧ imports = l.flatMap fun a => (g a).imports

/-- The first of the list that fails has the cause `cause`; with what stands before it, the packages
`imports` are used. -/
def FailsAt (g : α → Trace β) (l : List α) (imports : List Text) (cause : Cause) : Prop :=
  ∃ before a after, l = before ++ a :: after ∧ (∀ b ∈ before, ∃ c, (g b).result = .ok c) ∧
    (∃ f, (g a).result = .error f ∧ f.cause = cause) ∧
      imports = (before.flatMap fun b => (g b).imports) ++ (g a).imports

theorem Succeeds.append_failsAt {g : α → Trace β} {l l' : List α} {imports imports' : List Text}
    {cause : Cause} (h : Succeeds g l imports) (h' : FailsAt g l' imports' cause) :
    FailsAt g (l ++ l') (imports ++ imports') cause := by
  obtain ⟨hl, rfl⟩ := h
  obtain ⟨before, a, after, rfl, hbefore, ha, rfl⟩ := h'
  refine ⟨l ++ before, a, after, by simp, fun b hb => ?_, ha, by simp⟩
  exact (List.mem_append.1 hb).elim (hl b) (hbefore b)

theorem FailsAt.append {g : α → Trace β} {l : List α} {imports : List Text} {cause : Cause}
    (h : FailsAt g l imports cause) (l' : List α) : FailsAt g (l ++ l') imports cause := by
  obtain ⟨before, a, after, rfl, hbefore, ha, himports⟩ := h
  exact ⟨before, a, after ++ l', by simp, hbefore, ha, himports⟩

theorem failsAt_singleton {g : α → Trace β} {a : α} {f : Failure} (h : (g a).result = .error f) :
    FailsAt g [a] (g a).imports f.cause :=
  ⟨[], a, [], rfl, by simp, ⟨f, h, rfl⟩, rfl⟩

theorem failsAt_map {γ : Type} {g : α → Trace β} {e : γ → α} {l : List γ} {imports : List Text}
    {cause : Cause} (h : FailsAt (g ∘ e) l imports cause) :
    FailsAt g (l.map e) imports cause := by
  obtain ⟨before, c, after, rfl, hbefore, hc, rfl⟩ := h
  refine ⟨before.map e, e c, after.map e, by simp, ?_, hc, by simp [List.flatMap_map]⟩
  simpa using hbefore

theorem succeeds_within {g : α → Trace β} {context : α → Context} {l : List α}
    {imports : List Text} (h : Succeeds (fun a => (g a).within (context a)) l imports) :
    Succeeds g l imports := by
  refine ⟨fun a ha => ?_, h.2⟩
  obtain ⟨b, hb⟩ := h.1 a ha
  exact ⟨b, within_ok_iff.1 hb⟩

theorem failsAt_within {g : α → Trace β} {context : α → Context} {l : List α}
    {imports : List Text} {cause : Cause}
    (h : FailsAt (fun a => (g a).within (context a)) l imports cause) :
    FailsAt g l imports cause := by
  obtain ⟨before, a, after, hsplit, hbefore, ⟨f, hf, hcause⟩, himports⟩ := h
  obtain ⟨f', hf', hcause'⟩ := cause_of_within hf
  refine ⟨before, a, after, hsplit, fun b hb => ?_, ⟨f', hf', hcause'.trans hcause⟩, himports⟩
  obtain ⟨c, hc⟩ := hbefore b hb
  exact ⟨c, within_ok_iff.1 hc⟩

theorem succeeds_of_traverse {g : α → Trace β} {l : List α} {bs : List β}
    (h : (traverse g l).result = .ok bs) : Succeeds g l (traverse g l).imports := by
  induction l generalizing bs with
  | nil => exact ⟨by simp, rfl⟩
  | cons a rest ih =>
    cases ha : (g a).result with
    | error f =>
      rw [traverse, andThen_of_error ha] at h
      cases h
    | ok b =>
      rw [traverse, andThen_of_ok ha] at h ⊢
      obtain ⟨cs, hcs, -⟩ := map_ok_iff.1 h
      obtain ⟨hrest, himports⟩ := ih hcs
      refine ⟨fun x hx => ?_, by rw [List.flatMap_cons, ← himports]; rfl⟩
      rcases List.mem_cons.1 hx with rfl | hx
      · exact ⟨b, ha⟩
      · exact hrest x hx

theorem failsAt_of_traverse {g : α → Trace β} {l : List α} {f : Failure}
    (h : (traverse g l).result = .error f) :
    FailsAt g l (traverse g l).imports f.cause := by
  induction l with
  | nil => cases h
  | cons a rest ih =>
    cases ha : (g a).result with
    | error f' =>
      rw [traverse, andThen_of_error ha] at h ⊢
      cases h
      exact (failsAt_singleton ha).append rest
    | ok b =>
      rw [traverse, andThen_of_ok ha] at h ⊢
      have hfirst : Succeeds g [a] (g a).imports := ⟨by simpa using ⟨b, ha⟩, by simp⟩
      exact hfirst.append_failsAt (ih (map_error_iff.1 h))

end Trace

open Trace

/-! ## Function types -/

/-- A function type fails for the first of its parts that does. -/
theorem describeParts_error {part : Text → Trace Text} {parts : Parts} {f : Failure}
    (h : (describeParts part parts).result = .error f) :
    FailsAt part parts.spellings (describeParts part parts).imports f.cause := by
  unfold describeParts at h ⊢
  dsimp only at h ⊢
  generalize hfields : Trace.traverse (fun s => (part s).within (.field s))
    (parts.fields.filter (!·.isEmpty)) = fields at h ⊢
  cases hresult : fields.result with
  | error g =>
    rw [andThen_of_error hresult] at h ⊢
    cases h
    subst hfields
    exact (failsAt_within (failsAt_of_traverse hresult)).append _
  | ok params =>
    rw [andThen_of_ok hresult] at h ⊢
    obtain ⟨g, hg, hcause⟩ := cause_of_within (map_error_iff.1 h)
    subst hfields
    rw [← hcause]
    exact (succeeds_within (succeeds_of_traverse hresult)).append_failsAt (failsAt_singleton hg)

theorem describeFunction_error {part : Text → Trace Text} {s : Text} {f : Failure}
    (h : (describeFunction part s).result = .error f) :
    (∃ parts, Parts.ofSpelling s = .ok parts ∧
      FailsAt part parts.spellings (describeFunction part s).imports f.cause) ∨
    ∃ g, Parts.ofSpelling s = .error g ∧ f.cause = g.cause ∧
      (describeFunction part s).imports = [] := by
  obtain ⟨g, hg, hcause⟩ := cause_of_within h
  cases hsplit : Parts.ofSpelling s with
  | error g' =>
    have hresult : (Trace.ofResult (Parts.ofSpelling s)).result = .error g' := hsplit
    rw [andThen_of_error hresult] at hg
    cases hg
    refine .inr ⟨g, rfl, hcause.symm, ?_⟩
    rw [describeFunction, andThen_of_error hresult]
    rfl
  | ok parts =>
    have hresult : (Trace.ofResult (Parts.ofSpelling s)).result = .ok parts := hsplit
    rw [andThen_of_ok hresult] at hg
    refine .inl ⟨parts, rfl, ?_⟩
    rw [← hcause, describeFunction, andThen_of_ok hresult]
    exact describeParts_error hg

/-! ## Readings -/

namespace Reading

/-- The reading has the cause of its failure in itself. -/
inductive FailsAlone (chain : List Text) : Reading → Cause → Prop
  /-- It is rejected. -/
  | rejected (cause : Cause) (s : Text) : FailsAlone chain (.rejected cause s) cause
  /-- It is a function type that cannot be split. -/
  | function {s : Text} {f : Failure} (h : Parts.ofSpelling s = .error f) :
    FailsAlone chain (.function s) f.cause
  /-- It is a typedef of the chain. -/
  | «alias» {name : Text} (underlying : Text) (h : name ∈ chain) :
    FailsAlone chain (.alias name underlying) (.typedefCycle (chain ++ [name]))

theorem FailsAlone.parts {chain : List Text} {r : Reading} {cause : Cause}
    (h : FailsAlone chain r cause) : r.parts chain = [] := by
  cases h with
  | rejected cause s => rfl
  | function h => rw [Reading.parts, h]
  | «alias» underlying h => rw [Reading.parts, if_pos (by simpa using h)]

/-- **A reading fails for the first of its parts that does, or alone and without any package.** -/
theorem describe_error {reg : Registry} {part : List Text → Text → Trace Text}
    {chain : List Text} {r : Reading} {f : Failure}
    (h : (r.describe reg part chain).result = .error f) :
    FailsAt (fun p => part p.1 p.2) (r.parts chain) (r.describe reg part chain).imports f.cause ∨
      FailsAlone chain r f.cause ∧ (r.describe reg part chain).imports = [] := by
  cases r with
  | descriptor d => cases h
  | named name => cases h
  | function s =>
    rcases describeFunction_error (map_error_iff.1 h) with
      ⟨parts, hparts, hfails⟩ | ⟨g, hg, hcause, himports⟩
    · rw [Reading.parts, hparts]
      exact .inl (failsAt_map hfails)
    · rw [hcause]
      exact .inr ⟨.function hg, himports⟩
  | enumeration => exact .inl (failsAt_singleton h)
  | «alias» name underlying =>
    rw [describe] at h ⊢
    rw [Reading.parts]
    by_cases hmet : chain.contains name = true
    · rw [if_pos hmet] at h
      rw [if_pos hmet, if_pos hmet]
      cases h
      exact .inr ⟨.alias underlying (by simpa using hmet), rfl⟩
    · rw [if_neg hmet] at h
      rw [if_neg hmet, if_neg hmet]
      exact .inl (failsAt_singleton h)
  | pointer pointee => exact .inl (failsAt_singleton (map_error_iff.1 h))
  | array dimensions element => exact .inl (failsAt_singleton (map_error_iff.1 h))
  | rejected cause s =>
    cases h
    exact .inr ⟨.rejected cause s, rfl⟩

end Reading

/-! ## Typedefs that are met again -/

/-- **No typedef is met again** if something holds of the spelling that its parts take over and
that lets no typedef be read after itself. -/
theorem Registry.not_cyclic_of_invariant {reg : Registry} {config : Config}
    (Holds : List Text × Text → Prop)
    (hpart : ∀ p q, Holds p → q ∈ (Reading.ofSpelling reg config.unwind p.2).parts p.1 → Holds q)
    (hnew : ∀ p name u, Holds p → Reading.ofSpelling reg config.unwind p.2 = .alias name u →
      name ∉ p.1)
    (levels : Nat) {p : List Text × Text} (hp : Holds p) :
    ¬(reg.descend config levels p.1 p.2).Cyclic := by
  induction levels generalizing p with
  | zero =>
    rintro ⟨f, cycle, hf, hcause⟩
    cases hf
    cases hcause
  | succ levels ih =>
    rintro ⟨f, cycle, hf, hcause⟩
    obtain ⟨g, hg, hgcause⟩ := cause_of_within hf
    rw [hcause] at hgcause
    rcases Reading.describe_error hg with hfails | ⟨halone, -⟩
    · obtain ⟨before, q, after, hsplit, -, ⟨f', hf', hcause'⟩, -⟩ := hfails
      have hq : Holds q := hpart p q hp (by rw [hsplit]; simp)
      exact ih hq ⟨f', cycle, hf', hcause'.trans hgcause⟩
    · generalize hreading : Reading.ofSpelling reg config.unwind p.2 = r at halone
      rw [hgcause] at halone
      generalize hcycle : Cause.typedefCycle cycle = cause at halone
      cases halone with
      | rejected _ t =>
        subst hcycle
        exact Reading.category_of_ofSpelling hreading rfl
      | function hsplit =>
        have hcategory := Parts.category_of_ofSpelling hsplit
        rw [← hcycle] at hcategory
        cases hcategory
      | «alias» underlying hmet => exact hnew p _ underlying hp hreading hmet

end CSpelling

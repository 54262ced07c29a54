import CSpelling.Proofs.Descent

/-!
# The typedefs in front of a spelling

A spelling is resolved after a chain of typedefs, which only serves to refuse a typedef that is met
again. `Registry.descend_of_subset` says that a longer chain refuses more and changes nothing else.
A typedef refuses itself in front of its own spelling, but then it would be refused in front of any
other too: `Registry.outcome_descend_singleton` says that what a typedef stands for comes out as
without it.

`Reading.describe_error` finds the part that a failed reading fails for.
-/

namespace CSpelling

open Text

namespace Trace

variable {α β : Type}

/-! ## Typedefs that are met again -/

/-- The trace fails because a typedef leads back to itself. -/
def Cyclic (t : Trace α) : Prop := ∃ f chain, t.result = .error f ∧ f.cause = .typedefCycle chain

theorem not_cyclic_of_ok {t : Trace α} {a : α} (h : t.result = .ok a) : ¬t.Cyclic := by
  rintro ⟨f, chain, hf, -⟩
  rw [h] at hf
  cases hf

theorem not_cyclic_of_not_finished {t : Trace α} (h : ¬t.Finished) : ¬t.Cyclic := by
  rintro ⟨f, chain, hf, hcause⟩
  refine h fun g limit hg hlimit => ?_
  obtain rfl := Except.error.inj (hf.symm.trans hg)
  cases hcause.symm.trans hlimit

/-- What is met again and what is nested too deep both count as malformed. -/
theorem outcome_of_cyclic {t : Trace α} (h : t.Cyclic) : t.outcome = .error .malformed := by
  obtain ⟨f, chain, hf, hcause⟩ := h
  rw [outcome, hf, Except.mapError, Failure.kind, Failure.category, hcause]
  rfl

theorem outcome_of_not_finished {t : Trace α} (h : ¬t.Finished) :
    t.outcome = .error .malformed := by
  obtain ⟨f, limit, hf, hcause⟩ : ∃ f limit, t.result = .error f ∧ f.cause = .tooDeep limit := by
    simpa [Finished] using h
  rw [outcome, hf, Except.mapError, Failure.kind, Failure.category, hcause]
  rfl

theorem Cyclic.finished {t : Trace α} (h : t.Cyclic) : t.Finished :=
  by_contra fun hnot => not_cyclic_of_not_finished hnot h

/-- The first meets a typedef again, or both are the same. -/
theorem compatible_cyclic : Compatible fun {_} t u => t.Cyclic ∨ t = u where
  refl _ := .inr rfl
  map g h := by
    refine h.imp ?_ fun heq => by rw [heq]
    rintro ⟨f, chain, hf, hcause⟩
    exact ⟨f, chain, by rw [Trace.map, hf]; rfl, hcause⟩
  within context h := by
    refine h.imp ?_ fun heq => by rw [heq]
    rintro ⟨f, chain, hf, hcause⟩
    exact ⟨f.within context, chain, by rw [Trace.within, hf]; rfl, hcause⟩
  andThen {_ _ t u next next'} h hnext := by
    rcases h with ⟨f, chain, hf, hcause⟩ | rfl
    · exact .inl ⟨f, chain, by rw [andThen_of_error hf], hcause⟩
    cases hresult : t.result with
    | error f => exact .inr (by rw [andThen_of_error hresult, andThen_of_error hresult])
    | ok a =>
      rw [andThen_of_ok hresult, andThen_of_ok hresult]
      rcases hnext a hresult with hcyclic | heq
      · exact .inl hcyclic
      · exact .inr (by rw [heq])

end Trace

open Trace

/-! ## Typedefs that are read as what they stand for -/

namespace Reading

theorem ofForm_ne_alias (s name underlying : Text) : ofForm s ≠ .alias name underlying := by
  intro h
  rcases ofForm_cases s with ⟨_, hform, -⟩ | ⟨_, _, hform, -⟩ | ⟨_, hform⟩ | ⟨_, hform, -⟩ <;>
    cases hform.symm.trans h

/-- A typedef is read as what it stands for only where typedefs are, and if it is no function
type. -/
theorem ofSpelling_eq_alias {reg : Registry} {unwind : Bool} {s name underlying : Text}
    (h : ofSpelling reg unwind s = .alias name underlying) :
    unwind = true ∧ name = substitute (normalize s) ∧ reg.underlying? name = some underlying ∧
      isFunction name = false ∧ isFunction underlying = false := by
  unfold ofSpelling at h
  dsimp only at h
  split_ifs at h
  generalize substitute (normalize s) = known at h ⊢
  cases hname : ofName? reg unwind known with
  | some r =>
    rw [hname, Option.getD_some] at h
    rw [h] at hname
    rcases ofName?_cases hname with
      ⟨_, heq⟩ | ⟨_, heq⟩ | ⟨heq, -⟩ | heq | ⟨u, hunderlying, heq, hunwind, hplain⟩
    · cases heq
    · cases heq
    · cases heq
    · cases heq
    · obtain ⟨rfl, rfl⟩ := Reading.alias.inj heq
      exact ⟨hunwind, rfl, hunderlying, hplain⟩
  | none =>
    rw [hname, Option.getD_none] at h
    exact absurd h (ofForm_ne_alias _ _ _)

end Reading

/-! ## Longer chains -/

namespace Registry

/-- What relates spellings after two chains, one level down, relates a spelling after these chains,
provided that it relates the typedefs, which are the only ones to look at the chain. -/
theorem descend_rel_chain {R : ∀ {α : Type}, Trace α → Trace α → Prop}
    (hR : Compatible R) {reg : Registry} {config : Config} {levels : Nat}
    {chain chain' : List Text} {s : Text}
    (hsame : ∀ x, R (reg.descend config levels chain' x) (reg.descend config levels chain x))
    (halias : ∀ name underlying, reg.underlying? name = some underlying →
      R ((Reading.alias name underlying).describe reg (reg.descend config levels) chain')
        ((Reading.alias name underlying).describe reg (reg.descend config levels) chain)) :
    R (reg.descend config (levels + 1) chain' s) (reg.descend config (levels + 1) chain s) := by
  rw [descend, descend]
  refine hR.within _ ?_
  have hshallow := Reading.ofSpelling_shallow reg config.unwind s
  -- Every other reading passes the chain on to its parts.
  have hother {r : Reading} (hr : r.Shallow) (hparts : ∀ p ∈ r.parts chain', p.1 = chain')
      (hdescribe : r.describe reg (reg.descend config levels) chain =
        r.describe reg (fun _ => reg.descend config levels chain) chain') :
      R (r.describe reg (reg.descend config levels) chain')
        (r.describe reg (reg.descend config levels) chain) := by
    rw [hdescribe]
    refine Reading.describe_rel hR hr fun p hp => ?_
    rw [hparts p hp]
    exact hsame p.2
  cases hreading : Reading.ofSpelling reg config.unwind s with
  | «alias» name underlying =>
    obtain ⟨-, -, hunderlying, -⟩ := Reading.ofSpelling_eq_alias hreading
    exact halias name underlying hunderlying
  | function t =>
    refine hother (hreading ▸ hshallow) (fun p hp => ?_) rfl
    rw [Reading.parts] at hp
    cases hsplit : Parts.ofSpelling t with
    | ok parts =>
      rw [hsplit] at hp
      obtain ⟨f, -, rfl⟩ := List.mem_map.1 hp
      rfl
    | error f =>
      rw [hsplit] at hp
      cases hp
  | descriptor d => exact hother (hreading ▸ hshallow) (fun p hp => by cases hp) rfl
  | named name => exact hother (hreading ▸ hshallow) (fun p hp => by cases hp) rfl
  | enumeration =>
    exact hother (hreading ▸ hshallow) (fun p hp => by rw [List.mem_singleton.1 hp]) rfl
  | pointer pointee =>
    exact hother (hreading ▸ hshallow) (fun p hp => by rw [List.mem_singleton.1 hp]) rfl
  | array dimensions element =>
    exact hother (hreading ▸ hshallow) (fun p hp => by rw [List.mem_singleton.1 hp]) rfl
  | rejected cause t => exact hother (hreading ▸ hshallow) (fun p hp => by cases hp) rfl

theorem snoc_subset_snoc {chain chain' : List Text} (h : chain ⊆ chain') (name : Text) :
    chain ++ [name] ⊆ chain' ++ [name] :=
  List.append_subset_of_subset_of_subset (List.subset_append_of_subset_left _ h)
    (List.subset_append_right _ _)

/-- **After a longer chain a spelling comes out in the same way**, unless a typedef is met
again. -/
theorem descend_of_subset (reg : Registry) (config : Config) (levels : Nat)
    {chain chain' : List Text} (hsubset : chain ⊆ chain') (s : Text) :
    (reg.descend config levels chain' s).Cyclic ∨
      reg.descend config levels chain' s = reg.descend config levels chain s := by
  induction levels generalizing chain chain' s with
  | zero => exact .inr rfl
  | succ levels ih =>
    refine descend_rel_chain compatible_cyclic (fun x => ih hsubset x) fun name underlying _ => ?_
    rw [Reading.describe, Reading.describe]
    by_cases hmet : name ∈ chain'
    · rw [if_pos (by simpa using hmet)]
      exact .inl ⟨_, _, rfl, rfl⟩
    · have hnew : name ∉ chain := fun hmem => hmet (hsubset hmem)
      rw [if_neg (by simpa using hmet), if_neg (by simpa using hnew)]
      exact ih (snoc_subset_snoc hsubset name) underlying

/-- What comes out after some typedefs comes out without them. -/
theorem descend_nil_of_ok {reg : Registry} {config : Config} {levels : Nat} {chain : List Text}
    {s d : Text} (h : (reg.descend config levels chain s).result = .ok d) :
    reg.descend config levels chain s = reg.descend config levels [] s :=
  (reg.descend_of_subset config levels (List.nil_subset chain) s).resolve_left (not_cyclic_of_ok h)

/-! ## A typedef in front of its own spelling -/

section Singleton

variable {reg : Registry} {config : Config} {n u : Text}

/-- If the spelling of a typedef leads back to the typedef, then after every chain with it. -/
theorem outcome_descend_of_cyclic {levels : Nat}
    (hcyclic : (reg.descend config levels [n] u).Cyclic) {chain : List Text} (hn : n ∈ chain)
    (levels' : Nat) : (reg.descend config levels' chain u).outcome = .error .malformed := by
  by_cases hfinished : (reg.descend config levels' chain u).Finished
  · have hmore := reg.descend_of_le (Eq.refl config.unwind) (le_max_right levels levels') hfinished
    have hmoren :=
      reg.descend_of_le (Eq.refl config.unwind) (le_max_left levels levels') hcyclic.finished
    have hsubset : [n] ⊆ chain := by simpa using hn
    rcases reg.descend_of_subset config (max levels levels') hsubset u with h | h
    · rw [hmore]
      exact outcome_of_cyclic h
    · rw [hmore, h, ← hmoren]
      exact outcome_of_cyclic hcyclic
  · exact outcome_of_not_finished hfinished

/-- A typedef in the chain changes nothing, if its own spelling is malformed wherever the typedef
is met. -/
theorem outcome_descend_of_malformed (hn : reg.underlying? n = some u)
    (hmalformed : ∀ levels chain, n ∈ chain →
      (reg.descend config levels chain u).outcome = .error .malformed)
    (levels : Nat) {chain chain' : List Text} (hsubset : chain ⊆ chain')
    (hsuperset : chain' ⊆ n :: chain) (s : Text) :
    (reg.descend config levels chain' s).outcome = (reg.descend config levels chain s).outcome := by
  induction levels generalizing chain chain' s with
  | zero => rfl
  | succ levels ih =>
    refine descend_rel_chain compatible_outcome (fun x => ih hsubset hsuperset x)
      fun name underlying hname => ?_
    rw [Reading.describe, Reading.describe]
    by_cases hnew : name ∈ chain
    · rw [if_pos (by simpa using hsubset hnew), if_pos (by simpa using hnew)]
      rfl
    rw [if_neg (c := chain.contains name = true) (by simpa using hnew)]
    by_cases hmet : name ∈ chain'
    · -- Only the typedef itself is in one chain and not in the other.
      obtain rfl : name = n := (List.mem_cons.1 (hsuperset hmet)).resolve_right hnew
      obtain rfl : underlying = u := Option.some.inj (hname.symm.trans hn)
      rw [if_pos (by simpa using hmet), hmalformed levels _ (by simp)]
      rfl
    · rw [if_neg (by simpa using hmet)]
      refine ih (snoc_subset_snoc hsubset name) (fun m hm => ?_) underlying
      rcases List.mem_append.1 hm with hm | hm
      · rcases List.mem_cons.1 (hsuperset hm) with rfl | hm
        · exact List.mem_cons_self
        · exact List.mem_cons_of_mem _ (List.mem_append_left _ hm)
      · exact List.mem_cons_of_mem _ (List.mem_append_right _ hm)

/-- **What a typedef stands for comes out after the typedef as without it.** -/
theorem outcome_descend_singleton (hn : reg.underlying? n = some u) (levels : Nat) :
    (reg.descend config levels [n] u).outcome = (reg.descend config levels [] u).outcome := by
  rcases reg.descend_of_subset config levels (List.nil_subset [n]) u with hcyclic | heq
  · refine outcome_descend_of_malformed hn (fun levels' chain hmem => ?_) levels
      (List.nil_subset [n]) (List.Subset.refl [n]) u
    exact outcome_descend_of_cyclic hcyclic hmem levels'
  · rw [heq]

end Singleton

end Registry

end CSpelling

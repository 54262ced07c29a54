import CSpelling.Proofs.Descent
import Mathlib.Logic.Relation

/-!
# Walks along typedefs

`Registry.walk` goes from spelling to spelling, each a typedef of the next one, and stops where it
has been before. Each iteration but the last meets another typedef, so a walk ends
(`Registry.walk_ne_none`), also where typedefs lead back to each other.

What a walk says is exact. If it ends in the table, typedefs lead there
(`Registry.exists_of_walk_eq_true`). If it ends elsewhere, they never leave the spellings that it
has met, and none of these is in the table (`Registry.exists_trap_of_walk_eq_false`).
-/

namespace CSpelling

open Text

namespace Registry

variable {reg : Registry} {table met : List Text} {fuel : Nat} {s t : Text}

/-- The name is a typedef of a spelling that is `m` when normal. -/
def StandsFor (reg : Registry) (n m : Text) : Prop :=
  ∃ u, reg.underlying? n = some u ∧ normalize u = m

/-- The normal spelling that `i` typedefs lead to, one after another, from a spelling. -/
def chain? (reg : Registry) (s : Text) : Nat → Option Text
  | 0 => some (normalize s)
  | i + 1 => (reg.chain? s i).bind fun n => (reg.underlying? n).map normalize

/-- The places that typedefs lead to are numbered along the chain. -/
theorem reflTransGen_standsFor_iff :
    Relation.ReflTransGen reg.StandsFor (normalize s) t ↔ ∃ i, reg.chain? s i = some t := by
  constructor
  · intro h
    induction h with
    | refl => exact ⟨0, rfl⟩
    | tail _ hstep ih =>
      obtain ⟨i, hi⟩ := ih
      obtain ⟨u, hu, rfl⟩ := hstep
      exact ⟨i + 1, by rw [chain?, hi, Option.bind_some, hu, Option.map_some]⟩
  · rintro ⟨i, hi⟩
    induction i generalizing t with
    | zero =>
      obtain rfl := Option.some.inj hi
      exact .refl
    | succ i ih =>
      obtain ⟨n, hn, hstep⟩ := Option.bind_eq_some_iff.1 hi
      obtain ⟨u, hu, rfl⟩ := Option.map_eq_some_iff.1 hstep
      exact (ih hn).tail ⟨u, hu, rfl⟩

/-! ## One iteration -/

theorem walk_zero : reg.walk table 0 met s = if s ∈ table then some true else none := by
  simp only [walk, List.contains_iff_mem]

theorem walk_succ : reg.walk table (fuel + 1) met s =
    if s ∈ table then some true
    else if s ∈ met then some false
    else
      match reg.underlying? s with
      | none => some false
      | some u => reg.walk table fuel (met ++ [s]) (normalize u) := by
  cases hu : reg.underlying? s <;> simp only [walk, hu, List.contains_iff_mem]

theorem walk_zero_eq_some_iff {answer : Bool} :
    reg.walk table 0 met s = some answer ↔ s ∈ table ∧ answer = true := by
  rw [walk_zero]
  split_ifs with htable
  · simp [htable, eq_comm]
  · simp [htable]

/-- A walk answers at once, or it meets a typedef and goes on with what that stands for. -/
theorem walk_succ_cases {answer : Bool} (h : reg.walk table (fuel + 1) met s = some answer) :
    (s ∈ table ∧ answer = true) ∨
    (s ∉ table ∧ (s ∈ met ∨ reg.underlying? s = none) ∧ answer = false) ∨
    ∃ u, s ∉ table ∧ s ∉ met ∧ reg.underlying? s = some u ∧
      reg.walk table fuel (met ++ [s]) (normalize u) = some answer := by
  rw [walk_succ] at h
  split_ifs at h with htable hmet
  · exact .inl ⟨htable, (Option.some.inj h).symm⟩
  · exact .inr (.inl ⟨htable, .inl hmet, (Option.some.inj h).symm⟩)
  · cases hu : reg.underlying? s with
    | none =>
      rw [hu] at h
      exact .inr (.inl ⟨htable, .inr rfl, (Option.some.inj h).symm⟩)
    | some u =>
      rw [hu] at h
      exact .inr (.inr ⟨u, htable, hmet, rfl, h⟩)

/-! ## Whole walks -/

/-- **A walk ends**: each iteration but the last meets a typedef that was not met before. -/
theorem walk_ne_none (h : reg.unmet met < fuel) : reg.walk table fuel met s ≠ none := by
  induction fuel generalizing met s with
  | zero => cases h
  | succ fuel ih =>
    rw [walk_succ]
    split_ifs with htable hmet
    · exact Option.some_ne_none true
    · exact Option.some_ne_none false
    · cases hu : reg.underlying? s with
      | none => exact Option.some_ne_none false
      | some u =>
        have hless : reg.unmet (met ++ [s]) < reg.unmet met := unmet_append_lt hu hmet
        exact ih (by omega)

/-- If a walk ends in the table, typedefs lead there. -/
theorem exists_of_walk_eq_true (h : reg.walk table fuel met s = some true) :
    ∃ t ∈ table, Relation.ReflTransGen reg.StandsFor s t := by
  induction fuel generalizing met s with
  | zero => exact ⟨s, (walk_zero_eq_some_iff.1 h).1, .refl⟩
  | succ fuel ih =>
    rcases walk_succ_cases h with ⟨htable, -⟩ | ⟨-, -, hanswer⟩ | ⟨u, -, -, hu, hwalk⟩
    · exact ⟨s, htable, .refl⟩
    · cases hanswer
    · obtain ⟨t, ht, hchain⟩ := ih hwalk
      exact ⟨t, ht, hchain.head ⟨u, hu, rfl⟩⟩

/-- **If a walk ends elsewhere, typedefs never leave the spellings that it has met**, and none of
them is in the table. -/
theorem exists_trap_of_walk_eq_false
    (hmet : ∀ n ∈ met, n ∉ table ∧ ∀ m, reg.StandsFor n m → m ∈ s :: met)
    (h : reg.walk table fuel met s = some false) :
    ∃ trap : List Text, s :: met ⊆ trap ∧
      ∀ n ∈ trap, n ∉ table ∧ ∀ m, reg.StandsFor n m → m ∈ trap := by
  induction fuel generalizing met s with
  | zero => cases (walk_zero_eq_some_iff.1 h).2
  | succ fuel ih =>
    rcases walk_succ_cases h with ⟨-, hanswer⟩ | ⟨htable, hend, -⟩ | ⟨u, htable, -, hu, hwalk⟩
    · cases hanswer
    · -- Nothing new is met behind the last spelling.
      refine ⟨s :: met, List.Subset.refl _, fun n hn => ?_⟩
      rcases List.mem_cons.1 hn with rfl | hn
      · rcases hend with hmem | hnone
        · exact hmet n hmem
        · refine ⟨htable, ?_⟩
          rintro m ⟨u, hu, -⟩
          cases hnone.symm.trans hu
      · exact hmet n hn
    · have hnext : ∀ n ∈ met ++ [s],
          n ∉ table ∧ ∀ m, reg.StandsFor n m → m ∈ normalize u :: (met ++ [s]) := by
        intro n hn
        rcases List.mem_append.1 hn with hn | hn
        · refine ⟨(hmet n hn).1, fun m hm => List.mem_cons_of_mem _ ?_⟩
          simpa [or_comm] using (hmet n hn).2 m hm
        · obtain rfl := List.mem_singleton.1 hn
          refine ⟨htable, ?_⟩
          rintro m ⟨v, hv, rfl⟩
          obtain rfl := Option.some.inj (hu.symm.trans hv)
          exact List.mem_cons_self
      obtain ⟨trap, hsub, htrap⟩ := ih hnext hwalk
      refine ⟨trap, fun n hn => hsub (List.mem_cons_of_mem _ ?_), htrap⟩
      simpa [or_comm] using hn

/-! ## Leading into a table -/

/-- The walk of `Registry.leadsTo` ends, and with its answer. -/
theorem walk_eq_some_leadsTo (reg : Registry) (table : List Text) (s : Text) :
    reg.walk table (reg.typedefs.length + 1) [] (normalize s) = some (reg.leadsTo table s) := by
  have hunmet : reg.unmet [] = reg.typedefs.length := by simp [unmet]
  have hends : reg.walk table (reg.typedefs.length + 1) [] (normalize s) ≠ none :=
    walk_ne_none (by omega)
  obtain ⟨answer, hanswer⟩ := Option.ne_none_iff_exists'.1 hends
  rw [leadsTo, hanswer, Option.getD_some]

/-- **A spelling leads into the table exactly if a chain of typedefs does**, however long it is. -/
theorem leadsTo_iff : reg.leadsTo table s = true ↔
    ∃ t ∈ table, Relation.ReflTransGen reg.StandsFor (normalize s) t := by
  have hwalk := reg.walk_eq_some_leadsTo table s
  constructor
  · intro h
    rw [h] at hwalk
    exact exists_of_walk_eq_true hwalk
  · rintro ⟨t, ht, hchain⟩
    by_contra hnot
    rw [Bool.eq_false_iff.2 hnot] at hwalk
    obtain ⟨trap, hsub, htrap⟩ := exists_trap_of_walk_eq_false (by simp) hwalk
    have hmem {n : Text} (hn : Relation.ReflTransGen reg.StandsFor (normalize s) n) :
        n ∈ trap := by
      induction hn with
      | refl => exact hsub List.mem_cons_self
      | tail _ hstep ih => exact (htrap _ ih).2 _ hstep
    exact (htrap t (hmem hchain)).1 ht

/-- **The walk along typedefs ends and is exact.** In any registry, whether its typedefs lead back
to each other or not, it ends within one iteration more than there are typedefs, and it ends in the
table exactly if a spelling of the chain is in the table. -/
theorem walk_exact (reg : Registry) (table : List Text) (s : Text) :
    reg.walk table (reg.typedefs.length + 1) [] (normalize s) = some (reg.leadsTo table s) ∧
      (reg.leadsTo table s = true ↔ ∃ i, ∃ n ∈ table, reg.chain? s i = some n) := by
  refine ⟨reg.walk_eq_some_leadsTo table s, leadsTo_iff.trans ?_⟩
  simp only [reflTransGen_standsFor_iff]
  constructor
  · rintro ⟨t, ht, i, hi⟩
    exact ⟨i, t, ht, hi⟩
  · rintro ⟨i, t, ht, hi⟩
    exact ⟨t, ht, i, hi⟩

/-- Typedefs of each other lead nowhere, which is noticed at the first of them. -/
example :
    let reg : Registry := { typedefs := [("a".toList, "b".toList), ("b".toList, "const a".toList)] }
    reg.walk integerTypes 2 [] "a".toList = none ∧
      reg.walk integerTypes 3 [] "a".toList = some false := by
  decide +kernel

end Registry

end CSpelling

import CSpelling.Resolve
import Mathlib.Data.List.Forall2

/-!
# Two resolutions side by side

`Related E R` says of two results that both are values related by `R` or both failures related by
`E`. What resolutions are made of keeps results related: mapping (`Related.map`), contexts
(`Related.within`), one trace after another (`Related.andThen`) and lists of traces
(`Related.traverse`). The descriptors of function types are related if their parts are
(`Signature.descriptor_rel`).
-/

namespace CSpelling

open Text

variable {α β γ δ : Type} {E : Failure → Failure → Prop} {R : α → β → Prop} {S : γ → δ → Prop}

/-! ## Results -/

/-- Related values, or related failures. -/
inductive Related (E : Failure → Failure → Prop) (R : α → β → Prop) :
    Except Failure α → Except Failure β → Prop
  /-- There are values. -/
  | ok {a : α} {b : β} : R a b → Related E R (.ok a) (.ok b)
  /-- Both fail. -/
  | error {f g : Failure} : E f g → Related E R (.error f) (.error g)

namespace Related

theorem refl {R : α → α → Prop} (hE : ∀ f, E f f) (hR : ∀ a, R a a) (x : Except Failure α) :
    Related E R x x := by
  cases x with
  | ok a => exact .ok (hR a)
  | error f => exact .error (hE f)

theorem map {x : Except Failure α} {y : Except Failure β} {f : α → γ} {g : β → δ}
    (hmap : ∀ a b, R a b → S (f a) (g b)) (h : Related E R x y) :
    Related E S (x.map f) (y.map g) := by
  cases h with
  | ok h => exact .ok (hmap _ _ h)
  | error h => exact .error h

theorem within {x : Except Failure α} {y : Except Failure β} {context context' : Context}
    (hE : ∀ f g, E f g → E (f.within context) (g.within context')) (h : Related E R x y) :
    Related E R (x.mapError (Failure.within context)) (y.mapError (Failure.within context')) := by
  cases h with
  | ok h => exact .ok h
  | error h => exact .error (hE _ _ h)

theorem bind {x : Except Failure α} {y : Except Failure β} {f : α → Except Failure γ}
    {g : β → Except Failure δ} (h : Related E R x y)
    (hnext : ∀ a b, R a b → Related E S (f a) (g b)) : Related E S (x.bind f) (y.bind g) := by
  cases h with
  | ok h => exact hnext _ _ h
  | error h => exact .error h

theorem andThen {x : Trace α} {y : Trace β} {f : α → Trace γ} {g : β → Trace δ}
    (h : Related E R x.result y.result)
    (hnext : ∀ a b, R a b → Related E S (f a).result (g b).result) :
    Related E S (x.andThen f).result (y.andThen g).result := by
  obtain ⟨_, x⟩ := x
  obtain ⟨_, y⟩ := y
  cases h with
  | ok h => exact hnext _ _ h
  | error h => exact .error h

theorem traverse {f : α → Trace γ} {g : β → Trace δ} {l : List α} {l' : List β}
    (hl : List.Forall₂ R l l') (h : ∀ a b, R a b → Related E S (f a).result (g b).result) :
    Related E (List.Forall₂ S) (Trace.traverse f l).result (Trace.traverse g l').result := by
  induction hl with
  | nil => exact .ok .nil
  | cons hab _ ih =>
    exact andThen (h _ _ hab) fun _ _ hcd => ih.map fun _ _ hrest => .cons hcd hrest

end Related

/-! ## Texts -/

section Texts

variable {R : Text → Text → Prop} (happend : ∀ {s t u v}, R s t → R u v → R (s ++ u) (t ++ v))

include happend

/-- What goes along an append goes along a list. -/
theorem Text.intercalate_rel (hnil : R [] []) {separator : Text}
    (hseparator : R separator separator) {l l' : List Text} (h : List.Forall₂ R l l') :
    R (separator.intercalate l) (separator.intercalate l') := by
  induction h with
  | nil => exact hnil
  | cons hst hrest ih =>
    cases hrest with
    | nil => simpa using hst
    | cons h hrest =>
      rw [List.intercalate_cons_cons, List.intercalate_cons_cons]
      exact happend (happend hst hseparator) ih

/-- The descriptors of function types are related if what they are written from is. -/
theorem Signature.descriptor_rel (hnil : R [] [])
    (hmarks : ∀ mark ∈ ["func(".toList, listSeparator, ")(".toList, ")".toList], R mark mark)
    {f g : Signature}
    (hindirection : R (replace ['*'] ['[', ']'] f.indirection)
      (replace ['*'] ['[', ']'] g.indirection))
    (hparams : List.Forall₂ R f.params g.params) (hreturns : R f.returns g.returns) :
    R f.descriptor g.descriptor := by
  have hlist : R (listSeparator.intercalate f.params) (listSeparator.intercalate g.params) :=
    intercalate_rel happend hnil (hmarks _ (by simp)) hparams
  have hhead : R (replace ['*'] ['[', ']'] f.indirection ++ "func(".toList)
      (replace ['*'] ['[', ']'] g.indirection ++ "func(".toList) :=
    happend hindirection (hmarks _ (by simp))
  exact happend (happend (happend (happend hhead hlist) (hmarks _ (by simp))) hreturns)
    (hmarks _ (by simp))

end Texts

end CSpelling

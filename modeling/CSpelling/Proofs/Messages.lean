import CSpelling.Proofs.Packages

/-!
# Results on one line

`IsLine s` says that no line ends in `s`. A resolution writes nothing that ends a line: what comes
out of a spelling, be it a descriptor or the message of a failure, is a line if the spelling and
what typedefs stand for are lines (`Registry.onLine_descend`). For each way to put traces together
there is a rule in `Trace.OnLine`, and what a failure is worded with stands in the spelling that it
was found in (`Failure.IsFrom`).
-/

namespace CSpelling

open Text

/-! ## Lines -/

/-- The text does not go on after the end of a line. -/
def IsLine (s : Text) : Prop := '\n' ∉ s

instance (s : Text) : Decidable (IsLine s) := inferInstanceAs (Decidable ('\n' ∉ s))

variable {s t : Text}

@[simp] theorem isLine_nil : IsLine [] := by simp [IsLine]

@[simp] theorem isLine_cons {c : Char} : IsLine (c :: s) ↔ c ≠ '\n' ∧ IsLine s := by
  simp [IsLine, eq_comm]

@[simp] theorem isLine_append : IsLine (s ++ t) ↔ IsLine s ∧ IsLine t := by
  simp [IsLine]

theorem isLine_between {front back : Text} (hfront : IsLine front) (hs : IsLine s)
    (hback : IsLine back) : IsLine (front ++ s ++ back) :=
  isLine_append.2 ⟨isLine_append.2 ⟨hfront, hs⟩, hback⟩

theorem IsLine.subset (h : IsLine s) (hsub : t ⊆ s) : IsLine t := fun hmem => h (hsub hmem)

theorem isLine_of_forall (h : ∀ c ∈ s, c ≠ '\n') : IsLine s := fun hmem => h _ hmem rfl

theorem IsLine.forall_ne (h : IsLine s) : ∀ c ∈ s, c ≠ '\n' := fun _ hc =>
  ne_of_mem_of_not_mem hc h

theorem isLine_intercalate {separator : Text} (hseparator : IsLine separator) {l : List Text} :
    IsLine (separator.intercalate l) ↔ ∀ t ∈ l, IsLine t := by
  rw [IsLine, mem_intercalate_iff hseparator]
  simp [IsLine]

theorem isLine_natText (n : Nat) : IsLine (natText n) := fun h =>
  absurd (Nat.isDigit_of_mem_toDigits (by decide) (by decide) h) (by decide)

theorem isLine_intText (i : Int) : IsLine (intText i) := by
  cases i with
  | ofNat n => exact isLine_natText n
  | negSucc n => simpa [intText] using isLine_natText (n + 1)

theorem isLine_normalize (h : IsLine s) : IsLine (normalize s) := fun hmem =>
  (mem_of_mem_normalize hmem).elim h (by decide)

theorem isLine_substitute (h : IsLine s) : IsLine (Reading.substitute s) := fun hmem =>
  (Reading.mem_of_mem_substitute hmem).elim h (by decide)

/-! ## Messages -/

namespace Cause

/-- The texts that the cause holds. -/
def texts : Cause → List Text
  | typedefCycle chain => chain
  | unbalancedReturn returns => [returns]
  | _ => []

theorem isLine_message {cause : Cause} (hs : IsLine s) (hcause : ∀ t ∈ cause.texts, IsLine t) :
    IsLine (cause.message s) := by
  have hend {front : Text} (hfront : IsLine front) {t : Text} (ht : IsLine t) :
      IsLine (front ++ t) :=
    isLine_append.2 ⟨hfront, ht⟩
  cases cause with
  | strayColon => exact (by decide +kernel : IsLine (message [] strayColon))
  | emptyType => exact (by decide +kernel : IsLine (message [] emptyType))
  | anonymousUnion => exact (by decide +kernel : IsLine (message [] anonymousUnion))
  | tooDeep limit => exact isLine_between (by decide +kernel) (isLine_intText limit) (by decide +kernel)
  | typedefCycle chain =>
    exact hend (by decide +kernel) ((isLine_intercalate (by decide +kernel)).2 hcause)
  | unbalancedReturn returns => exact hend (by decide +kernel) (hcause returns List.mem_cons_self)
  | functionPointer => exact isLine_between (by decide +kernel) hs (by decide +kernel)
  | functionType => exact isLine_between (by decide +kernel) hs (by decide +kernel)
  | unknownType => exact isLine_between (by decide +kernel) hs (by decide +kernel)
  | unclosed => exact isLine_between (by decide +kernel) hs (by decide +kernel)
  | blockWithoutIndirection => exact isLine_between (by decide +kernel) hs (by decide +kernel)
  | notFunction => exact hend (by decide +kernel) hs
  | noArguments => exact hend (by decide +kernel) hs
  | noReturn => exact hend (by decide +kernel) hs
  | blockWithoutParen => exact hend (by decide +kernel) hs
  | noArraySize => exact hend (by decide +kernel) hs

end Cause

/-- The spelling that a context names. -/
def Context.named : Context → Text
  | .type s => s
  | .function s => s
  | .field s => s
  | .returned s => s
  | .split s => s

theorem Context.isLine_text {context : Context} (h : IsLine context.named) :
    IsLine context.text := by
  cases context with
  | type s => exact isLine_between (by decide +kernel) h (by decide)
  | function s => exact isLine_between (by decide +kernel) h (by decide)
  | field s => exact isLine_between (by decide +kernel) h (by decide)
  | returned s => exact isLine_between (by decide +kernel) h (by decide)
  | split s => exact isLine_between (by decide +kernel) h (by decide)

/-- What the failure is worded with stands in the spelling, without any context. -/
structure Failure.IsFrom (s : Text) (f : Failure) : Prop where
  /-- The spelling that the cause was found in. -/
  spelling : f.spelling ⊆ s
  /-- The texts of the cause. -/
  texts : ∀ t ∈ f.cause.texts, t ⊆ s
  /-- There are no contexts. -/
  contexts : f.contexts = []

theorem Failure.IsFrom.isLine_message {f : Failure} (h : f.IsFrom s) (hs : IsLine s) :
    IsLine f.message := by
  rw [message, h.contexts]
  exact Cause.isLine_message (hs.subset h.spelling) fun t ht => hs.subset (h.texts t ht)

theorem isFrom_of_unwrapBlock {block base : Text} {f : Failure}
    (h : unwrapBlock block base = .error f) : f.IsFrom block := by
  unfold unwrapBlock at h
  split at h
  · cases h
  · cases h
  · cases h
  · split at h
    · cases h
      exact ⟨List.Subset.refl _, nofun, rfl⟩
    · split_ifs at h
      cases h
      exact ⟨List.Subset.refl _, nofun, rfl⟩
  · split at h
    · cases h
      exact ⟨List.Subset.refl _, nofun, rfl⟩
    · cases h

namespace Parts

theorem isFrom_of_ofReturns {returns arguments : Text} {f : Failure} (hreturns : returns ⊆ s)
    (h : ofReturns s returns arguments = .error f) : f.IsFrom s := by
  unfold ofReturns at h
  split_ifs at h
  split at h
  · cases h
    exact ⟨List.Subset.refl _, by simpa [Cause.texts] using hreturns, rfl⟩
  · next index _ =>
    have hblock : returns.drop index ⊆ s := List.Subset.trans (List.drop_subset _ _) hreturns
    cases hunwrap : unwrapBlock (returns.drop index) (returns.take index) with
    | error g =>
      rw [hunwrap] at h
      cases h
      obtain ⟨hspelling, htexts, hcontexts⟩ := isFrom_of_unwrapBlock hunwrap
      exact ⟨List.Subset.trans hspelling hblock,
        fun t ht => List.Subset.trans (htexts t ht) hblock, hcontexts⟩
    | ok pair => rw [hunwrap] at h; cases h

theorem isFrom_of_ofStripped {f : Failure} (h : ofStripped s = .error f) : f.IsFrom s := by
  have halone {cause : Cause} (hcause : cause.texts = []) : Failure.IsFrom s ⟨cause, s, []⟩ :=
    ⟨List.Subset.refl _, by simp [hcause], rfl⟩
  unfold ofStripped at h
  split_ifs at h
  · cases h
    exact halone rfl
  · cases h
    exact halone rfl
  · split at h
    · cases h
      exact halone rfl
    · cases h
      exact halone rfl
    · next index _ _ =>
      dsimp only at h
      split_ifs at h
      · cases h
        exact halone rfl
      · exact isFrom_of_ofReturns (strip_subset (List.take_subset index s)) h

end Parts

/-! ## Traces -/

namespace Trace

variable {α β : Type} {P : α → Prop} {Q : β → Prop}

/-- The property holds of what comes out, or the message is a line. -/
def OnLine (P : α → Prop) (t : Trace α) : Prop :=
  match t.result with
  | .ok a => P a
  | .error f => IsLine f.message

theorem onLine_iff {t : Trace α} : t.OnLine P ↔
    (∀ a, t.result = .ok a → P a) ∧ ∀ f, t.result = .error f → IsLine f.message := by
  unfold OnLine
  cases t.result <;> simp

theorem onLine_fail {cause : Cause} (hs : IsLine s) (hcause : ∀ t ∈ cause.texts, IsLine t) :
    (fail cause s : Trace α).OnLine P :=
  Cause.isLine_message hs hcause

namespace OnLine

theorem within {context : Context} (hcontext : IsLine context.named) {t : Trace α}
    (h : t.OnLine P) : (t.within context).OnLine P := by
  obtain ⟨hok, herror⟩ := onLine_iff.1 h
  refine onLine_iff.2 ⟨fun a ha => hok a (within_ok_iff.1 ha), fun f hf => ?_⟩
  obtain ⟨g, hg, rfl⟩ := within_error_iff.1 hf
  rw [Failure.message_within, isLine_append, isLine_append]
  exact ⟨⟨Context.isLine_text hcontext, by decide⟩, herror g hg⟩

theorem map {g : α → β} {t : Trace α} (h : t.OnLine P) (hg : ∀ a, P a → Q (g a)) :
    (t.map g).OnLine Q := by
  obtain ⟨hok, herror⟩ := onLine_iff.1 h
  refine onLine_iff.2 ⟨fun b hb => ?_, fun f hf => herror f (map_error_iff.1 hf)⟩
  obtain ⟨a, ha, rfl⟩ := map_ok_iff.1 hb
  exact hg a (hok a ha)

theorem andThen {next : α → Trace β} {t : Trace α} (h : t.OnLine P)
    (hnext : ∀ a, t.result = .ok a → P a → (next a).OnLine Q) : (t.andThen next).OnLine Q := by
  cases hresult : t.result with
  | error f =>
    rw [andThen_of_error hresult]
    exact (onLine_iff.1 h).2 f hresult
  | ok a =>
    rw [andThen_of_ok hresult]
    exact hnext a hresult ((onLine_iff.1 h).1 a hresult)

theorem traverse {g : α → Trace β} {l : List α} (h : ∀ a ∈ l, (g a).OnLine Q) :
    (Trace.traverse g l).OnLine fun bs => ∀ b ∈ bs, Q b := by
  induction l with
  | nil => exact fun b hb => absurd hb List.not_mem_nil
  | cons a rest ih =>
    refine (h a (by simp)).andThen fun b _ hb => ?_
    refine (ih fun c hc => h c (List.mem_cons_of_mem a hc)).map fun bs hbs => ?_
    exact List.forall_mem_cons.2 ⟨hb, hbs⟩

end OnLine

end Trace

open Trace

/-! ## Readings -/

namespace Reading

/-- A spelling that is rejected by its form is at fault by itself. -/
theorem ofForm_rejected {cause : Cause} (h : ofForm s = .rejected cause t) :
    cause.texts = [] ∧ t = s := by
  unfold ofForm at h
  split at h
  · cases h
  split at h
  · cases h
  split at h
  · cases h
  split_ifs at h
  · cases h
    exact ⟨rfl, rfl⟩
  · cases h
    exact ⟨rfl, rfl⟩
  · cases h
    exact ⟨rfl, rfl⟩
  split at h
  · cases h
  · cases h
    exact ⟨rfl, rfl⟩

/-- A spelling that is rejected is at fault by itself, as it stands or once it is normal. -/
theorem ofSpelling_rejected {reg : Registry} {unwind : Bool} {cause : Cause}
    (h : ofSpelling reg unwind s = .rejected cause t) :
    cause.texts = [] ∧ (t = s ∨ t = substitute (normalize s)) := by
  unfold ofSpelling at h
  dsimp only at h
  split_ifs at h
  · cases h
    exact ⟨rfl, .inl rfl⟩
  · cases h
    exact ⟨rfl, .inl rfl⟩
  generalize substitute (normalize s) = known at h ⊢
  cases hname : ofName? reg unwind known with
  | some r =>
    rw [hname, Option.getD_some] at h
    subst h
    rcases ofName?_cases hname with ⟨_, h⟩ | ⟨_, h⟩ | ⟨h, -⟩ | h | ⟨_, -, h, -⟩ <;> cases h
  | none =>
    rw [hname, Option.getD_none] at h
    exact (ofForm_rejected h).imp_right .inr

end Reading

/-! ## Resolutions -/

/-- The short form of a name stands in the name. -/
theorem Registry.short_subset (reg : Registry) (name : Text) : (reg.qualify name).short ⊆ name := by
  unfold qualify
  split
  · unfold Import.ofName
    split
    · exact List.Subset.refl _
    · next folder last hlast =>
      split
      · exact List.Subset.refl _
      · rw [(eq_of_cutLast hlast).1]
        exact List.subset_append_of_subset_right _ (List.subset_cons_self _ _)
  · exact List.Subset.refl _

theorem onLine_ofSpelling (hs : IsLine s) :
    (Trace.ofResult (Parts.ofSpelling s)).OnLine fun parts =>
      IsLine parts.indirection ∧ ∀ t ∈ parts.spellings, IsLine t := by
  refine onLine_iff.2 ⟨fun parts hparts => ?_, fun f hf => ?_⟩
  · obtain ⟨hindirection, hspellings⟩ := Parts.subset_of_ofSpelling hparts
    have hspace : IsLine (' ' :: s) := isLine_cons.2 ⟨by decide, hs⟩
    exact ⟨hspace.subset hindirection, fun t ht => hs.subset (hspellings t ht)⟩
  · have hsplit : (Parts.ofStripped (strip s)).mapError (Failure.within (.split s)) = .error f := hf
    cases hstripped : Parts.ofStripped (strip s) with
    | ok parts =>
      rw [hstripped] at hsplit
      cases hsplit
    | error g =>
      rw [hstripped] at hsplit
      cases hsplit
      have hmessage := (Parts.isFrom_of_ofStripped hstripped).isLine_message
        (hs.subset (strip_subset (List.Subset.refl _)))
      rw [Failure.message_within]
      exact isLine_append.2 ⟨isLine_append.2 ⟨Context.isLine_text hs, by decide⟩, hmessage⟩

theorem isLine_descriptor {f : Signature} (hindirection : IsLine f.indirection)
    (hparams : ∀ d ∈ f.params, IsLine d) (hreturns : IsLine f.returns) : IsLine f.descriptor := by
  intro h
  rcases (Signature.mem_descriptor_iff (by decide) hindirection).1 h with ⟨d, hd, hmem⟩ | hmem
  · exact hparams d hd hmem
  · exact hreturns hmem

theorem onLine_describeFunction {part : Text → Trace Text}
    (hpart : ∀ t, IsLine t → (part t).OnLine IsLine) (hs : IsLine s) :
    (describeFunction part s).OnLine fun f => IsLine f.descriptor := by
  have hnamed : IsLine (Context.function s).named := hs
  refine .within hnamed ((onLine_ofSpelling hs).andThen fun parts _ hparts => ?_)
  obtain ⟨hindirection, hspellings⟩ := hparts
  have hwithin {t : Text} (ht : t ∈ parts.spellings) {context : Context}
      (hcontext : context.named = t) : ((part t).within context).OnLine IsLine :=
    .within (hcontext.symm ▸ hspellings t ht) (hpart t (hspellings t ht))
  have hparams := OnLine.traverse (g := fun t => (part t).within (.field t))
    (l := parts.fields.filter (!·.isEmpty)) fun t ht => hwithin (List.mem_append_left _ ht) rfl
  refine hparams.andThen fun params _ hlines => ?_
  exact (hwithin (t := parts.returns) (List.mem_append_right _ (by simp)) rfl).map
    fun returns hreturns => isLine_descriptor hindirection hlines hreturns

namespace Registry

/-- **What comes out of a line is a line**, be it a descriptor or a message, if typedefs stand for
lines. -/
theorem onLine_descend {reg : Registry} (hreg : ∀ t ∈ reg.meanings, IsLine t) (config : Config)
    (levels : Nat) {chain : List Text} (hchain : ∀ name ∈ chain, IsLine name) (hs : IsLine s) :
    (reg.descend config levels chain s).OnLine IsLine := by
  induction levels generalizing chain s with
  | zero => exact onLine_fail hs nofun
  | succ levels ih =>
    have hnamed : IsLine (Context.type s).named := hs
    refine .within hnamed ?_
    have hmade := Reading.madeOf_ofSpelling (fun t ht => (hreg t ht).forall_ne) (by decide)
      config.unwind hs.forall_ne
    have hknown : IsLine (Reading.substitute (normalize s)) :=
      isLine_substitute (isLine_normalize hs)
    cases hreading : Reading.ofSpelling reg config.unwind s with
    | descriptor d =>
      rw [hreading] at hmade
      exact isLine_of_forall hmade
    | named name =>
      rw [hreading] at hmade
      have htables : ∀ d ∈ (primitives ++ standardStructs).map Prod.snd, IsLine d := by
        decide +kernel
      exact (hmade.elim (htables name) isLine_of_forall).subset (reg.short_subset name)
    | function t =>
      rw [hreading] at hmade
      exact (onLine_describeFunction (fun u hu => ih hchain hu) (isLine_of_forall hmade)).map
        fun f hf => hf
    | enumeration => exact ih hchain (by decide)
    | «alias» name underlying =>
      rw [hreading] at hmade
      have hname : IsLine name := (Reading.ofSpelling_eq_alias hreading).2.1 ▸ hknown
      have hlonger : ∀ n ∈ chain ++ [name], IsLine n := by
        simpa [or_imp, forall_and] using ⟨hchain, hname⟩
      rw [Reading.describe]
      split_ifs
      · exact onLine_fail hname hlonger
      · exact ih hlonger (isLine_of_forall hmade)
    | pointer pointee =>
      rw [hreading] at hmade
      refine (ih hchain (isLine_of_forall hmade)).map fun d hd => ?_
      exact fun h => hd ((mem_pointerTo_iff (by decide) d).1 h)
    | array dimensions element =>
      rw [hreading] at hmade
      refine (ih hchain (isLine_of_forall hmade.2)).map fun d hd => ?_
      exact isLine_append.2 ⟨isLine_of_forall hmade.1, hd⟩
    | rejected cause t =>
      obtain ⟨hcause, ht⟩ := Reading.ofSpelling_rejected hreading
      exact onLine_fail (ht.elim (fun h => h ▸ hs) fun h => h ▸ hknown) (by simp [hcause])

end Registry

end CSpelling

import CSpelling.Proofs.Characters
import CSpelling.Proofs.Recording

/-!
# The packages that a descriptor needs

A descriptor is put together from what its parts come out as, and the packages in use are recorded
on the side. The two stay in step: `Trace.Tells Q` says that a trace whose value is `a` uses the
runtime package if `Q a` holds, and uses no package otherwise. With a rule for each way to put
traces together, a dot in the descriptor tells at every level whether the package is in use
(`Registry.tells_descend`), and so what a resolution changes in the registry
(`Registry.recordTrace_of_ok`).
-/

namespace CSpelling

open Text

/-! ## Descriptors -/

/-- A character that no separator holds is in one of the items. -/
theorem Text.mem_intercalate_iff {c : Char} {separator : Text} (hc : c ∉ separator)
    {l : List Text} : c ∈ separator.intercalate l ↔ ∃ t ∈ l, c ∈ t := by
  induction l with
  | nil => simp
  | cons first rest ih =>
    cases rest with
    | nil => simp
    | cons second rest =>
      rw [List.intercalate_cons_cons, List.mem_append, List.mem_append, ih,
        List.exists_mem_cons_iff]
      simp [hc]

theorem Signature.mem_descriptor_iff {f : Signature} {c : Char} (hc : c ∉ "func()(, )[]".toList)
    (hindirection : c ∉ f.indirection) :
    c ∈ f.descriptor ↔ (∃ d ∈ f.params, c ∈ d) ∨ c ∈ f.returns := by
  have hmarks : ∀ mark ∈ [['[', ']'], "func(".toList, listSeparator, ")(".toList, ")".toList],
      mark ⊆ "func()(, )[]".toList := by
    decide
  have hmark (mark : Text)
      (h : mark ∈ [['[', ']'], "func(".toList, listSeparator, ")(".toList, ")".toList]) :
      c ∉ mark := fun hmem => hc (hmarks mark h hmem)
  have hslices : c ∉ replace ['*'] ['[', ']'] f.indirection := fun h =>
    (mem_of_mem_replaceAfter h).elim hindirection (hmark ['[', ']'] (by simp))
  have hlist := mem_intercalate_iff (l := f.params) (hmark listSeparator (by simp))
  rw [Signature.descriptor]
  simp only [List.mem_append, hlist, hslices, hmark "func(".toList (by simp),
    hmark ")(".toList (by simp), hmark ")".toList (by simp), false_or, or_false]

/-! ## Traces that tell their packages -/

namespace Trace

variable {α β γ : Type}

/-- If the trace has a value, `Q` tells of the value whether the runtime package is used; no other
package is. -/
def Tells (Q : α → Prop) (t : Trace α) : Prop :=
  ∀ a, t.result = .ok a → ∀ path, path ∈ t.imports ↔ path = runtimePackage ∧ Q a

variable {Q : α → Prop} {R : β → Prop} {S : γ → Prop}

theorem tells_fail (cause : Cause) (s : Text) : (fail cause s : Trace α).Tells Q := nofun

theorem tells_value {a : α} (h : ¬Q a) : (value a).Tells Q := by
  rintro _ ⟨⟩ path
  exact iff_of_false List.not_mem_nil fun hpath => h hpath.2

namespace Tells

theorem within (context : Context) {t : Trace α} (h : t.Tells Q) : (t.within context).Tells Q :=
  fun a ha => h a (within_ok_iff.1 ha)

theorem map {g : α → β} (hg : ∀ a, R (g a) ↔ Q a) {t : Trace α} (h : t.Tells Q) :
    (t.map g).Tells R := by
  intro b hb path
  obtain ⟨a, ha, rfl⟩ := map_ok_iff.1 hb
  rw [hg]
  exact h a ha path

/-- What is put together from two traces needs what one of them needs. -/
theorem andThen_map {k : α → β → γ} (hk : ∀ a b, S (k a b) ↔ Q a ∨ R b) {t : Trace α}
    {u : Trace β} (ht : t.Tells Q) (hu : u.Tells R) :
    (t.andThen fun a => u.map (k a)).Tells S := by
  intro c hc path
  cases hresult : t.result with
  | error f =>
    rw [andThen_of_error hresult] at hc
    cases hc
  | ok a =>
    rw [andThen_of_ok hresult] at hc ⊢
    obtain ⟨b, hb, rfl⟩ := map_ok_iff.1 hc
    show path ∈ t.imports ++ u.imports ↔ _
    rw [List.mem_append, ht a hresult, hu b hb, hk, ← and_or_left]

theorem traverse {g : α → Trace β} {l : List α} (h : ∀ a ∈ l, (g a).Tells R) :
    (Trace.traverse g l).Tells fun bs => ∃ b ∈ bs, R b := by
  induction l with
  | nil => exact tells_value (by simp)
  | cons a rest ih =>
    exact andThen_map (fun b bs => by simp) (h a List.mem_cons_self)
      (ih fun b hb => h b (List.mem_cons_of_mem a hb))

end Tells

end Trace

open Trace

/-! ## Readings -/

/-- Of a name without a dot, nothing is a package. -/
theorem Import.ofName_of_not_mem_dot {name : Text} (h : '.' ∉ name) :
    ofName name = ⟨[], name⟩ := by
  unfold ofName
  cases hcut : cutLast '/' name with
  | none => rfl
  | some halves =>
    have hlast : '.' ∉ halves.2 := fun hmem => h (by simp [(eq_of_cutLast hcut).1, hmem])
    simp only [cutLast_eq_none_iff.2 hlast]

/-- A name of the tables, or one without a dot, is qualified if it belongs to the runtime
package. -/
theorem Registry.tells_describeName {reg : Registry} (hqualifying : reg.qualifying = true)
    {name : Text} (h : name ∈ (primitives ++ standardStructs).map Prod.snd ∨ '.' ∉ name) :
    (reg.describeName name).Tells ('.' ∈ ·) := by
  have htables : ∀ d ∈ (primitives ++ standardStructs).map Prod.snd,
      Import.ofName d = ⟨[], d⟩ ∧ '.' ∉ d ∨
        (Import.ofName d).path = runtimePackage ∧ '.' ∈ (Import.ofName d).short := by
    decide +kernel
  have hname : Import.ofName name = ⟨[], name⟩ ∧ '.' ∉ name ∨
      (Import.ofName name).path = runtimePackage ∧ '.' ∈ (Import.ofName name).short :=
    h.elim (htables name) fun h => .inl ⟨Import.ofName_of_not_mem_dot h, h⟩
  rintro d hd path
  rw [describeName, qualify, if_pos hqualifying] at hd ⊢
  cases hd
  rcases hname with ⟨hlocal, hdot⟩ | ⟨hpath, hdot⟩
  · simp [hlocal, hdot]
  · have hsome : runtimePackage.isEmpty = false := by decide
    simp [hpath, hdot, hsome]

/-- The dots of a function type are those of its parts. -/
theorem tells_describeFunction {part : Text → Trace Text}
    (hpart : ∀ t : Text, '.' ∉ t → (part t).Tells ('.' ∈ ·)) {s : Text} (hs : '.' ∉ s) :
    (describeFunction part s).Tells fun f : Signature => '.' ∈ f.descriptor := by
  refine .within _ ?_
  cases hparts : Parts.ofSpelling s with
  | error f => exact fun _ => nofun
  | ok parts =>
    obtain ⟨hindirection, hspellings⟩ := Parts.subset_of_ofSpelling hparts
    have hdotless : '.' ∉ parts.indirection := fun h =>
      (List.mem_cons.1 (hindirection h)).elim (by decide) hs
    have hfields : ∀ t ∈ parts.spellings, (part t).Tells ('.' ∈ ·) := fun t ht =>
      hpart t fun h => hs (hspellings t ht h)
    have hparams := Tells.traverse (g := fun t => (part t).within (.field t))
      (l := parts.fields.filter (!·.isEmpty))
      fun t ht => (hfields t (List.mem_append_left _ ht)).within (.field t)
    have hreturns := (hfields parts.returns (List.mem_append_right _ (by simp))).within
      (.returned parts.returns)
    have hdots (params : List Text) (returns : Text) :
        '.' ∈ (⟨parts.indirection, params, returns⟩ : Signature).descriptor ↔
          (∃ d ∈ params, '.' ∈ d) ∨ '.' ∈ returns :=
      Signature.mem_descriptor_iff (by decide) hdotless
    exact hparams.andThen_map (S := fun f : Signature => '.' ∈ f.descriptor) hdots hreturns

theorem mem_pointerTo_iff {c : Char} (hc : c ∉ "*[]".toList) (pointee : Text) :
    c ∈ pointerTo pointee ↔ c ∈ pointee := by
  unfold pointerTo
  split <;> simp_all

namespace Registry

/-- **A dot in the descriptor tells whether the runtime package is used**, at every level and after
any typedefs, if there is no dot in the registry and in the spelling. -/
theorem tells_descend {reg : Registry} (hqualifying : reg.qualifying = true)
    (hreg : ∀ t ∈ reg.meanings, '.' ∉ t) (config : Config) (levels : Nat) (chain : List Text)
    {s : Text} (hs : '.' ∉ s) : (reg.descend config levels chain s).Tells ('.' ∈ ·) := by
  have hdotless {t : Text} (h : ∀ c ∈ t, c ≠ '.') : '.' ∉ t := fun hmem => h _ hmem rfl
  induction levels generalizing chain s with
  | zero => exact tells_fail _ s
  | succ levels ih =>
    refine .within _ ?_
    have hmade : (Reading.ofSpelling reg config.unwind s).MadeOf (· ≠ '.') :=
      Reading.madeOf_ofSpelling (fun t ht c hc => ne_of_mem_of_not_mem hc (hreg t ht)) (by decide)
        config.unwind fun c hc => ne_of_mem_of_not_mem hc hs
    generalize Reading.ofSpelling reg config.unwind s = r at hmade
    cases r with
    | descriptor d => exact tells_value (hdotless hmade)
    | named name => exact tells_describeName hqualifying (hmade.imp_right hdotless)
    | function t =>
      exact (tells_describeFunction (fun u hu => ih chain hu) (hdotless hmade)).map fun f => Iff.rfl
    | enumeration => exact ih chain (by decide)
    | «alias» name underlying =>
      rw [Reading.describe]
      split_ifs
      · exact tells_fail _ name
      · exact ih (chain ++ [name]) (hdotless hmade)
    | pointer pointee =>
      exact (ih chain (hdotless hmade)).map (mem_pointerTo_iff (by decide))
    | array dimensions element =>
      refine (ih chain (hdotless hmade.2)).map fun d => ?_
      rw [List.mem_append, or_iff_right (hdotless hmade.1)]
    | rejected cause t => exact tells_fail cause t

/-! ## The registry afterwards -/

/-- Recording a package again changes nothing. -/
theorem imports_record_of_forall_eq (reg : Registry) {paths : List Text} {p : Text}
    (h : ∀ path ∈ paths, path = p) :
    (reg.record paths).imports = if paths = [] then reg.imports else reg.imports.insert p := by
  have hstay {rest known : List Text} (hrest : ∀ path ∈ rest, path = p) (hp : p ∈ known) :
      rest.foldl (fun known path => known.insert path) known = known := by
    induction rest with
    | nil => rfl
    | cons first rest ih =>
      rw [List.foldl_cons, hrest first List.mem_cons_self, List.insert_of_mem hp]
      exact ih fun path hpath => hrest path (List.mem_cons_of_mem first hpath)
  cases paths with
  | nil => rfl
  | cons first rest =>
    obtain rfl := h first List.mem_cons_self
    rw [if_neg (List.cons_ne_nil _ rest)]
    exact hstay (fun path hpath => h path (List.mem_cons_of_mem _ hpath)) List.mem_insert_self

/-- The registry after what has come out is recorded, if it tells its packages. -/
theorem record_of_tells {α : Type} {Q : α → Prop} [DecidablePred Q] {reg : Registry} {t : Trace α}
    (ht : t.Tells Q) {a : α} (ha : t.result = .ok a) :
    reg.record t.imports =
      { reg with imports := if Q a then reg.imports.insert runtimePackage else reg.imports } := by
  have hpaths := ht a ha
  have himports := imports_record_of_forall_eq reg fun path h => ((hpaths path).1 h).1
  have hnone : t.imports = [] ↔ ¬Q a := by
    simp only [List.eq_nil_iff_forall_not_mem, hpaths]
    exact ⟨fun h hQ => h _ ⟨rfl, hQ⟩, fun h _ hpath => h hpath.2⟩
  rw [if_congr hnone rfl rfl, ite_not] at himports
  exact congrArg (fun imports => { reg with imports := imports }) himports

/-- **A resolution that succeeds records what its descriptor needs**: the runtime package if there
is a dot in the descriptor, and nothing if there is none. Nothing else in the registry changes. The
registry qualifies names, and there is no dot in what its typedefs stand for nor in the spelling. -/
theorem recordTrace_of_ok (reg : Registry) (hqualifying : reg.qualifying = true)
    (hreg : ∀ t ∈ reg.meanings, '.' ∉ t) (config : Config) (s : Text) (hs : '.' ∉ s) :
    (∀ d, reg.resolve config s = ⟨d, none⟩ →
      (reg.recordTrace (reg.trace config s)).2 = { reg with
        imports := if '.' ∈ d then reg.imports.insert runtimePackage else reg.imports }) ∧
    ∀ f, (reg.traceFunction config s).result = .ok f →
      (reg.recordTrace (reg.traceFunction config s)).2 = { reg with
        imports :=
          if '.' ∈ f.descriptor then reg.imports.insert runtimePackage else reg.imports } := by
  have hpart (t : Text) (ht : '.' ∉ t) :
      (reg.descend config config.maxDepth.toNat [] t).Tells ('.' ∈ ·) :=
    tells_descend hqualifying hreg config _ [] ht
  exact ⟨fun d hd => record_of_tells (hpart s hs) (resolve_eq_iff.1 hd),
    fun f hf => record_of_tells (tells_describeFunction hpart hs) hf⟩

/-- A function of a stream and of a typedef of a pointer to structures, with and without the typedef
read as what it stands for. -/
theorem recordTrace_of_ok_streams :
    let reg : Registry :=
      { typedefs := [("parts".toList, "div_t *".toList)]
        imports := ["os".toList] }
    let s := "int (FILE *, parts)".toList
    reg.qualifying = true ∧ (∀ t ∈ reg.meanings, '.' ∉ t) ∧ '.' ∉ s ∧
      reg.resolve { unwind := true } s =
        ⟨"func(*noarch.File, []noarch.DivT)(int)".toList, none⟩ ∧
      (reg.recordTrace (reg.trace { unwind := true } s)).2 =
        { reg with imports := [runtimePackage, "os".toList] } ∧
      reg.resolve {} "int (parts)".toList = ⟨"func(parts)(int)".toList, none⟩ ∧
      (reg.recordTrace (reg.trace {} "int (parts)".toList)).2 = reg := by
  intro reg s
  have hreg : ∀ t ∈ reg.meanings, '.' ∉ t := by decide
  have hwith : reg.resolve { unwind := true } s =
      ⟨"func(*noarch.File, []noarch.DivT)(int)".toList, none⟩ := by
    decide +kernel
  have hwithout : reg.resolve {} "int (parts)".toList = ⟨"func(parts)(int)".toList, none⟩ := by
    decide +kernel
  have hs : '.' ∉ s := by decide
  exact ⟨rfl, hreg, hs, hwith, (recordTrace_of_ok reg rfl hreg _ s hs).1 _ hwith, hwithout,
    (recordTrace_of_ok reg rfl hreg _ _ (by decide)).1 _ hwithout⟩

end Registry

end CSpelling

import CSpelling.Proofs.Characters
import CSpelling.Proofs.Knowledge
import CSpelling.Proofs.Results

/-!
# Names with and without their packages

A registry that qualifies names writes `noarch.File` where one that does not writes the name with
the whole path of its package. `Shortened s t` says that two descriptors differ in this alone. If no
text in the registry and in a spelling holds a slash or a dot, paths come from the tables only, so
both registries describe the spelling alike (`Registry.shortened_descend`): a stream is told by
either of its names (`Shortened.ofDescriptor_eq`), and the one descriptor is the other with every
path cut short (`Registry.trace_qualifying`).
-/

namespace CSpelling

open Text

variable {s t u v : Text}

/-! ## Texts without a path -/

/-- The text holds no mark of a path: no slash and no dot. -/
def Text.IsLocal (s : Text) : Prop := ∀ c ∈ s, c ≠ '/' ∧ c ≠ '.'

instance (s : Text) : Decidable s.IsLocal := inferInstanceAs (Decidable (∀ c ∈ s, _ ∧ _))

theorem Text.isLocal_nil : IsLocal [] := by simp [IsLocal]

namespace Text.IsLocal

theorem subset (hs : s.IsLocal) (h : t ⊆ s) : t.IsLocal := fun c hc => hs c (h hc)

theorem not_mem_slash (hs : s.IsLocal) : '/' ∉ s := fun h => (hs _ h).1 rfl

theorem not_mem_dot (hs : s.IsLocal) : '.' ∉ s := fun h => (hs _ h).2 rfl

end Text.IsLocal

/-! ## Paths that are cut short -/

/-- The path of the runtime package in front of a name. -/
def longPath : Text := runtimePackage ++ ['.']

/-- What stands in front of a name that is qualified. -/
def shortPath : Text := "noarch".toList ++ ['.']

/-- The texts differ in the path of the runtime package alone. -/
inductive Shortened : Text → Text → Prop
  /-- Nothing is left. -/
  | nil : Shortened [] []
  /-- The texts go on alike. -/
  | cons {c : Char} {s t : Text} (hc : c ≠ '/' ∧ c ≠ '.') : Shortened s t →
      Shortened (c :: s) (c :: t)
  /-- The path is there, long and short. -/
  | path {s t : Text} : Shortened s t → Shortened (longPath ++ s) (shortPath ++ t)

namespace Shortened

theorem of_isLocal (h : s.IsLocal) : Shortened s s := by
  induction s with
  | nil => exact .nil
  | cons c rest ih => exact .cons (h c (by simp)) (ih fun d hd => h d (List.mem_cons_of_mem c hd))

theorem append (h : Shortened s t) (h' : Shortened u v) : Shortened (s ++ u) (t ++ v) := by
  induction h with
  | nil => exact h'
  | cons hc _ ih => exact .cons hc ih
  | path _ ih =>
    rw [List.append_assoc, List.append_assoc]
    exact .path ih

/-- **The texts are the same without a path, or go on alike up to the first one.** -/
theorem split (h : Shortened s t) : (s = t ∧ s.IsLocal) ∨
    ∃ a s' t', a.IsLocal ∧ s = a ++ (longPath ++ s') ∧ t = a ++ (shortPath ++ t') ∧
      Shortened s' t' := by
  induction h with
  | nil => exact .inl ⟨rfl, isLocal_nil⟩
  | @cons c s t hc _ ih =>
    have hcons {a : Text} (ha : a.IsLocal) : IsLocal (c :: a) := List.forall_mem_cons.2 ⟨hc, ha⟩
    rcases ih with ⟨rfl, hlocal⟩ | ⟨a, s', t', ha, rfl, rfl, h⟩
    · exact .inl ⟨rfl, hcons hlocal⟩
    · exact .inr ⟨c :: a, s', t', hcons ha, rfl, rfl, h⟩
  | @path s t h _ => exact .inr ⟨[], s, t, isLocal_nil, rfl, rfl, h⟩

theorem not_mem_slash (h : Shortened s t) : '/' ∉ t := by
  induction h with
  | nil => exact List.not_mem_nil
  | cons hc _ ih => exact fun hmem => (List.mem_cons.1 hmem).elim (fun h => hc.1 h.symm) ih
  | path _ ih => exact fun hmem => (List.mem_append.1 hmem).elim (by decide) ih

/-- No path begins in front of the one that comes first. -/
theorem not_startsWith_longPath {c : Char} (hc : c ≠ '/' ∧ c ≠ '.') (h : Shortened s t) :
    ¬longPath <+: c :: s := by
  rintro ⟨rest, hrest⟩
  rcases h.split with ⟨-, hlocal⟩ | ⟨a, s', t', ha, rfl, -, -⟩
  · have hdot : '.' ∈ c :: s := hrest ▸ List.mem_append_left rest (by decide)
    exact (List.mem_cons.1 hdot).elim (fun h => hc.2 h.symm) hlocal.not_mem_dot
  · -- The first dot would stand behind the same word in both.
    obtain ⟨host, tail, hlong, hhost⟩ : ∃ host tail, longPath = host ++ '.' :: tail ∧ '.' ∉ host :=
      ⟨"github".toList, _, rfl, by decide⟩
    have hdot : '.' ∉ c :: a ++ host := List.not_mem_append
      (fun hmem => (List.mem_cons.1 hmem).elim (fun h => hc.2 h.symm) ha.not_mem_dot) hhost
    rw [hlong] at hrest
    have hfirst : host ++ '.' :: (tail ++ rest) = (c :: a ++ host) ++ '.' :: (tail ++ s') := by
      simpa only [List.append_assoc, List.cons_append] using hrest
    have hlength := congrArg List.length (append_cons_inj hhost hdot hfirst).1
    rw [List.length_append, List.length_cons] at hlength
    omega

/-- **The one text is the other with every path cut short.** -/
theorem replace_eq (h : Shortened s t) : replace longPath shortPath s = t := by
  induction h with
  | nil => rfl
  | cons hc h ih => rw [replace_cons_of_differs (not_startsWith_longPath hc h), ih]
  | path _ ih => rw [replace_old_append (by decide), ih]

/-- A name is qualified on the one side if it is on the other. -/
theorem eq_path_append_iff {name : Text} (hname : name.IsLocal) (h : Shortened s t) :
    s = longPath ++ name ↔ t = shortPath ++ name := by
  constructor
  · rintro rfl
    rw [← h.replace_eq, replace_old_append (by decide), (of_isLocal hname).replace_eq]
  · rintro rfl
    obtain ⟨stem, hstem, hdot⟩ : ∃ stem, shortPath = stem ++ ['.'] ∧ '.' ∉ stem :=
      ⟨"noarch".toList, rfl, by decide⟩
    have hmem (u : Text) : '.' ∈ shortPath ++ u := by rw [hstem]; simp
    rcases h.split with ⟨rfl, hlocal⟩ | ⟨a, s', t', ha, rfl, ht, hrest⟩
    · exact absurd (hmem name) hlocal.not_mem_dot
    · have hfirst : stem ++ '.' :: name = (a ++ stem) ++ '.' :: t' := by simpa [hstem] using ht
      obtain ⟨hfront, rfl⟩ :=
        append_cons_inj hdot (List.not_mem_append ha.not_mem_dot hdot) hfirst
      obtain rfl : a = [] := List.append_left_eq_self.1 hfront.symm
      rcases hrest.split with ⟨rfl, -⟩ | ⟨b, _, u, -, -, rfl, -⟩
      · rfl
      · exact absurd (List.mem_append_right b (hmem u)) hname.not_mem_dot

/-! ## Streams -/

/-- **A stream is told by its long name as by its short one.** -/
theorem ofDescriptor_eq (h : Shortened s t) : Pointee.ofDescriptor s = Pointee.ofDescriptor t := by
  have htails : ∀ u ∈ handle.tails, u.head? = some '/' → ¬IsLocal u.tail ∧ ¬longPath <:+: u.tail ∧
      ('/' ∉ u.tail → u.tail = shortPath ++ "File".toList) := by
    decide
  have hends {u : Text} (hu : ('/' :: u).isSuffixOf handle) : ¬u.IsLocal ∧ ¬longPath <:+: u ∧
      ('/' ∉ u → u = shortPath ++ "File".toList) :=
    htails _ ((List.mem_tails _ _).2 (List.isSuffixOf_iff_suffix.1 hu)) rfl
  have hhandle : handle = longPath ++ "File".toList := (List.append_assoc _ ['.'] _).symm
  have hlong : (s = handle ∨ ('/' :: s).isSuffixOf handle) ↔ s = longPath ++ "File".toList := by
    rw [← hhandle]
    refine or_iff_left fun hsuffix => ?_
    obtain ⟨hnot, hpath, -⟩ := hends hsuffix
    rcases h.split with ⟨-, hlocal⟩ | ⟨a, s', _, -, rfl, -, -⟩
    · exact hnot hlocal
    · exact hpath ⟨a, s', List.append_assoc a longPath s'⟩
  have hshort : (t = handle ∨ ('/' :: t).isSuffixOf handle) ↔ t = shortPath ++ "File".toList := by
    constructor
    · rintro (rfl | hsuffix)
      · exact absurd h.not_mem_slash (by decide)
      · exact (hends hsuffix).2.2 h.not_mem_slash
    · rintro rfl
      exact .inr (by decide)
  rw [Pointee.ofDescriptor, Pointee.ofDescriptor]
  exact if_congr (hlong.trans ((h.eq_path_append_iff (by decide)).trans hshort.symm)) rfl rfl

theorem pointerTo (h : Shortened s t) : Shortened (pointerTo s) (pointerTo t) := by
  rw [CSpelling.pointerTo, CSpelling.pointerTo, ← h.ofDescriptor_eq]
  cases Pointee.ofDescriptor s with
  | opaqueHandle => exact .cons (by decide) h
  | value => exact .cons (by decide) (.cons (by decide) h)

end Shortened

/-! ## Readings -/

namespace Reading

/-- No path stands in what the reading is made of, but in a name that is qualified. -/
def IsLocal : Reading → Prop
  | .descriptor d => d.IsLocal
  | .named name => Shortened name (Import.ofName name).short
  | .function s => s.IsLocal
  | .enumeration => True
  | .alias _ underlying => underlying.IsLocal
  | .pointer pointee => pointee.IsLocal
  | .array dimensions element => dimensions.IsLocal ∧ element.IsLocal
  | .rejected _ _ => True

theorem isLocal_named (h : s.IsLocal) : (Reading.named s).IsLocal := by
  rw [IsLocal, Import.ofName_of_not_mem h.not_mem_slash]
  exact .of_isLocal h

/-- The names in the tables are qualified by cutting their paths short. -/
theorem isLocal_of_mem (h : s ∈ (primitives ++ standardStructs).map Prod.snd) :
    (Reading.named s).IsLocal := by
  have hall : ∀ d ∈ (primitives ++ standardStructs).map Prod.snd, Text.IsLocal d ∨
      ∃ name ∈ d.tails, d = longPath ++ name ∧ Text.IsLocal name ∧
        (Import.ofName d).short = shortPath ++ name := by
    decide +kernel
  rcases hall s h with hs | ⟨name, -, hlong, hname, hshort⟩
  · exact isLocal_named hs
  · rw [IsLocal, hshort, hlong]
    exact .path (.of_isLocal hname)

variable {reg : Registry}

/-- **The readings of a local spelling are local**, if what typedefs stand for is. -/
theorem isLocal_ofSpelling (hreg : ∀ t ∈ reg.meanings, t.IsLocal) (unwind : Bool)
    (hs : s.IsLocal) : (ofSpelling reg unwind s).IsLocal := by
  have hmade := madeOf_ofSpelling hreg (by decide) unwind hs
  generalize ofSpelling reg unwind s = r at hmade
  cases r with
  | descriptor d => exact hmade
  | named name => exact hmade.elim isLocal_of_mem isLocal_named
  | function t => exact hmade
  | enumeration => trivial
  | «alias» name underlying => exact hmade
  | pointer pointee => exact hmade
  | array dimensions element => exact hmade
  | rejected cause t => trivial

end Reading

/-! ## Resolution -/

/-- Signatures that differ in paths alone, and not in the indirection. -/
structure Signature.Shortened (f g : Signature) : Prop where
  /-- The indirections are the same. -/
  indirection : f.indirection = g.indirection
  /-- There is no path in them. -/
  isLocal : f.indirection.IsLocal
  /-- The parameters differ in paths. -/
  params : List.Forall₂ CSpelling.Shortened f.params g.params
  /-- The returned types differ in paths. -/
  returns : CSpelling.Shortened f.returns g.returns

theorem Signature.Shortened.descriptor {f g : Signature} (h : f.Shortened g) :
    CSpelling.Shortened f.descriptor g.descriptor := by
  have hmarks : ∀ mark ∈ ["func(".toList, listSeparator, ")(".toList, ")".toList],
      Text.IsLocal mark := by
    decide
  have hslices : (replace ['*'] ['[', ']'] f.indirection).IsLocal := fun c hc =>
    (mem_of_mem_replaceAfter hc).elim (h.isLocal c) ((by decide : IsLocal ['[', ']']) c)
  refine descriptor_rel CSpelling.Shortened.append .nil (fun mark hmark => ?_) ?_ h.params h.returns
  · exact .of_isLocal (hmarks mark hmark)
  · rw [← h.indirection]
    exact .of_isLocal hslices

theorem shortened_describeFunction {part part' : Text → Trace Text}
    (hpart : ∀ t, t.IsLocal → Related Eq Shortened (part t).result (part' t).result)
    (hs : s.IsLocal) : Related Eq Signature.Shortened (describeFunction part s).result
      (describeFunction part' s).result := by
  have hwithin (context : Context) (f g : Failure) (h : f = g) :
      f.within context = g.within context := by rw [h]
  refine .within (hwithin _) ?_
  cases hparts : Parts.ofSpelling s with
  | error f => exact .error rfl
  | ok parts =>
    obtain ⟨hindirection, hspellings⟩ := Parts.subset_of_ofSpelling hparts
    have hlocal : IsLocal (' ' :: s) := List.forall_mem_cons.2 ⟨by decide, hs⟩
    have hfields : List.Forall₂ (fun t t' => t = t' ∧ t.IsLocal)
        (parts.fields.filter (!·.isEmpty)) (parts.fields.filter (!·.isEmpty)) :=
      List.forall₂_same.2 fun f hf => ⟨rfl, hs.subset (hspellings f (List.mem_append_left _ hf))⟩
    have hfield (t t' : Text) (ht : t = t' ∧ t.IsLocal) : Related Eq Shortened
        ((part t).within (.field t)).result ((part' t').within (.field t')).result := by
      obtain ⟨rfl, ht⟩ := ht
      exact (hpart t ht).within (hwithin _)
    show Related Eq Signature.Shortened (describeParts part parts).result
      (describeParts part' parts).result
    refine .andThen (.traverse hfields hfield) fun params params' hparams => ?_
    have hreturns := hpart parts.returns (hs.subset (hspellings _ (by simp [Parts.spellings])))
    exact (hreturns.within (hwithin _)).map fun returns returns' h =>
      ⟨rfl, hlocal.subset hindirection, hparams, h⟩

namespace Registry

/-- **Spellings come out alike with and without paths**, at every level and after any typedefs. -/
theorem shortened_descend {reg reg' : Registry} (hknown : reg.knowledge = reg'.knowledge)
    (hlong : reg.qualifying = false) (hshort : reg'.qualifying = true)
    (hreg : ∀ t ∈ reg.meanings, t.IsLocal) (config : Config) (levels : Nat) (chain : List Text)
    (hs : s.IsLocal) : Related Eq Shortened (reg.descend config levels chain s).result
      (reg'.descend config levels chain s).result := by
  induction levels generalizing chain s with
  | zero => exact .error rfl
  | succ levels ih =>
    rw [descend, descend, ← Reading.ofSpelling_of_knowledge hknown]
    refine .within (fun f g h => by rw [h]) ?_
    have hlocal := Reading.isLocal_ofSpelling hreg config.unwind hs
    generalize Reading.ofSpelling reg config.unwind s = r at hlocal
    cases r with
    | descriptor d => exact .ok (.of_isLocal hlocal)
    | named name =>
      have hlocal : Shortened (reg.qualify name).short (reg'.qualify name).short := by
        rw [qualify, qualify, hlong, hshort]
        exact hlocal
      exact .ok hlocal
    | function t =>
      exact (shortened_describeFunction (fun t ht => ih chain ht) hlocal).map
        fun _ _ h => h.descriptor
    | enumeration => exact ih chain (by decide)
    | «alias» name underlying =>
      rw [Reading.describe, Reading.describe]
      split_ifs
      · exact .error rfl
      · exact ih (chain ++ [name]) hlocal
    | pointer pointee => exact (ih chain hlocal).map fun _ _ h => h.pointerTo
    | array dimensions element =>
      exact (ih chain hlocal.2).map fun _ _ h => (Shortened.of_isLocal hlocal.1).append h
    | rejected cause t => exact .error rfl

/-- **Qualifying cuts paths short and changes nothing else**: a registry that qualifies names and
one that does not describe a spelling alike, up to the paths, or fail alike, if no text in what
typedefs stand for nor the spelling holds a mark of a path. -/
theorem trace_qualifying (reg : Registry) (hreg : ∀ t ∈ reg.meanings, t.IsLocal)
    (config : Config) (s : Text) (hs : s.IsLocal) :
    ({ reg with qualifying := true }.trace config s).result =
      ({ reg with qualifying := false }.trace config s).result.map
        (replace longPath shortPath) := by
  let plain : Registry := { reg with qualifying := false }
  let qualified : Registry := { reg with qualifying := true }
  have hknown : plain.knowledge = qualified.knowledge := rfl
  have h : Related Eq Shortened (plain.trace config s).result (qualified.trace config s).result :=
    shortened_descend hknown rfl rfl hreg config config.maxDepth.toNat [] hs
  show (qualified.trace config s).result =
    (plain.trace config s).result.map (replace longPath shortPath)
  generalize (plain.trace config s).result = x, (qualified.trace config s).result = y at h
  cases h with
  | ok h => exact congrArg Except.ok h.replace_eq.symm
  | error h => exact congrArg Except.error h.symm

/-- A function of an array, a function and a structure of the runtime package, which returns the
stream that a typedef stands for. -/
theorem trace_qualifying_streams :
    let reg : Registry :=
      { typedefs := [("stream".toList, "FILE *".toList),
          ("visit".toList, "void (FILE *, struct node *)".toList)]
        declared := ["node".toList] }
    let s := "stream (*)(tm [2], visit *, div_t *)".toList
    (∀ t ∈ reg.meanings, Text.IsLocal t) ∧ Text.IsLocal s ∧
      ({ reg with qualifying := true }.trace { unwind := true } s).result =
        ({ reg with qualifying := false }.trace { unwind := true } s).result.map
          (replace longPath shortPath) ∧
      ({ reg with qualifying := true }.trace { unwind := true } s).result =
        .ok "func([]noarch.Tm, visit, []noarch.DivT)(*noarch.File)".toList := by
  intro reg s
  have hreg : ∀ t ∈ reg.meanings, Text.IsLocal t := by decide
  have hs : Text.IsLocal s := by decide
  exact ⟨hreg, hs, trace_qualifying reg hreg { unwind := true } s hs, by decide +kernel⟩

end Registry

end CSpelling

import CSpelling.Proofs.Unwinding
import CSpelling.Proofs.Walking

/-!
# What arithmetic types come out as

`Registry.leadsTo` follows typedefs from spelling to spelling and so does resolving, if typedefs are
unwound. A walk that ends in the table takes no more steps than there are typedefs
(`Registry.leadsToWithin_of_leadsTo`), because it meets none of them twice.

Where typedefs are words that mean nothing else (`Registry.PlainTypedefs`), resolving takes the same
steps, each one level deeper (`Registry.exists_outcome_of_leadsToWithin`), and the tables of both
agree at the end. So an integer type comes out as an integer, a floating type comes out as a
floating point number, and no spelling is both (`Registry.resolve_of_arithmetic`).
-/

namespace CSpelling

open Text Trace

namespace Registry

variable {reg : Registry} {table results met : List Text} {fuel more : Nat} {s t u : Text}

/-! ## Following typedefs -/

/-- At most `fuel` typedef steps lead from the normal spelling `s` into the table. -/
def leadsToWithin (reg : Registry) (table : List Text) : Nat → Text → Bool
  | 0, s => table.contains s
  | fuel + 1, s =>
    table.contains s ||
      match reg.underlying? s with
      | none => false
      | some underlying => leadsToWithin reg table fuel (normalize underlying)

theorem leadsToWithin_of_mem (h : s ∈ table) (fuel : Nat) :
    reg.leadsToWithin table fuel s = true := by
  cases fuel <;> simp [leadsToWithin, h]

theorem leadsToWithin_succ_iff :
    reg.leadsToWithin table (fuel + 1) s = true ↔ s ∈ table ∨
      ∃ u, reg.underlying? s = some u ∧ reg.leadsToWithin table fuel (normalize u) = true := by
  rw [leadsToWithin, Bool.or_eq_true, List.contains_iff_mem]
  cases reg.underlying? s <;> simp

/-- More steps lead into the table too. -/
theorem leadsToWithin_mono (hle : fuel ≤ more) (h : reg.leadsToWithin table fuel s = true) :
    reg.leadsToWithin table more s = true := by
  induction fuel generalizing more s with
  | zero => exact leadsToWithin_of_mem (by simpa [leadsToWithin] using h) more
  | succ fuel ih =>
    obtain ⟨more, rfl⟩ : ∃ m, more = m + 1 := ⟨more - 1, by omega⟩
    refine leadsToWithin_succ_iff.2 ((leadsToWithin_succ_iff.1 h).imp_right ?_)
    rintro ⟨u, hu, hlead⟩
    exact ⟨u, hu, ih (by omega) hlead⟩

/-- A walk that ends in the table takes no more steps than there are typedefs left, for each of
them meets another one. -/
theorem leadsToWithin_of_walk (h : reg.walk table fuel met s = some true) :
    reg.leadsToWithin table (reg.unmet met) s = true := by
  induction fuel generalizing met s with
  | zero => exact leadsToWithin_of_mem (walk_zero_eq_some_iff.1 h).1 _
  | succ fuel ih =>
    rcases walk_succ_cases h with ⟨htable, -⟩ | ⟨-, -, hanswer⟩ | ⟨u, -, hnew, hu, hwalk⟩
    · exact leadsToWithin_of_mem htable _
    · cases hanswer
    · exact leadsToWithin_mono (unmet_append_lt hu hnew)
        (leadsToWithin_succ_iff.2 (.inr ⟨u, hu, ih hwalk⟩))

theorem leadsToWithin_of_leadsTo (h : reg.leadsTo table s = true) :
    reg.leadsToWithin table reg.typedefs.length (normalize s) = true := by
  have hwalk := reg.walk_eq_some_leadsTo table s
  rw [h] at hwalk
  have hunmet : reg.unmet [] = reg.typedefs.length := by simp [unmet]
  rw [← hunmet]
  exact leadsToWithin_of_walk hwalk

/-! ## Resolving along the steps -/

/-- The typedefs are words that mean nothing else. -/
structure PlainTypedefs (reg : Registry) : Prop where
  /-- The names are words. -/
  word : ∀ entry ∈ reg.typedefs, IsWord entry.1
  /-- No primitive type has a name of them. -/
  primitive : ∀ entry ∈ reg.typedefs, primitives.lookup entry.1 = none
  /-- No type of the standard library has a name of them. -/
  standard : ∀ entry ∈ reg.typedefs, standardStructs.lookup entry.1 = none
  /-- The texts of system headers do not occur in the names. -/
  free : ∀ entry ∈ reg.typedefs, FreeOf entry.1
  /-- No typedef names a union. -/
  union : ∀ entry ∈ reg.bases, ¬unionKeyword <+: entry.2
  /-- There are no enumerations. -/
  enum : reg.enums = []

/-- The spellings of the table are primitive types, and `results` has their descriptors. -/
def DescribedBy (table results : List Text) : Prop :=
  ∀ t ∈ table, t ≠ [] ∧ ':' ∉ t ∧ '(' ∉ t ∧ FreeOf t ∧
    ∃ d ∈ results, primitives.lookup t = some d ∧ '/' ∉ d

instance (table results : List Text) : Decidable (DescribedBy table results) :=
  inferInstanceAs (Decidable (∀ t ∈ table, _))

theorem PlainTypedefs.unionTag?_eq_none (h : reg.PlainTypedefs) (n : Text) :
    Reading.unionTag? reg n = none := by
  unfold Reading.unionTag?
  cases hbase : reg.base? n with
  | none => rfl
  | some base =>
    rw [Option.bind_some, Option.eq_none_iff_forall_ne_some]
    intro tag htag
    exact h.union (n, base) (mem_of_lookup hbase) ⟨tag, (dropStart?_eq_some_iff.1 htag).symm⟩

/-- A spelling that leads into the table has no colon and no parenthesis. -/
theorem not_mem_of_leadsToWithin (hreg : reg.PlainTypedefs) (htable : DescribedBy table results)
    (h : reg.leadsToWithin table fuel (normalize s) = true) {c : Char} (hc : c ∈ [':', '(']) :
    c ∉ s := by
  have hchars : ∀ c ∈ [':', '('], isWordChar c = false ∧ isBlank c = false := by decide
  obtain ⟨hword, hblank⟩ := hchars c hc
  rw [← mem_normalize_iff hword hblank]
  generalize normalize s = n at h
  have hmem (ht : n ∈ table) : c ∉ n := by
    obtain ⟨-, hcolon, hopen, -⟩ := htable _ ht
    rcases List.mem_pair.1 hc with rfl | rfl
    · exact hcolon
    · exact hopen
  cases fuel with
  | zero => exact hmem (by simpa [leadsToWithin] using h)
  | succ fuel =>
    rcases leadsToWithin_succ_iff.1 h with ht | ⟨u, hu, -⟩
    · exact hmem ht
    · exact (hreg.word (n, u) (mem_of_lookup hu)).not_mem hword

/-- A spelling of the table comes out as its descriptor. -/
theorem exists_outcome_of_mem (reg : Registry) (htable : DescribedBy table results)
    (hcolon : ':' ∉ s) (hs : normalize s ∈ table) :
    ∃ d ∈ results, ∀ (config : Config) (levels : Nat),
      (reg.descend config (levels + 1) [] s).outcome = .ok d := by
  obtain ⟨hne, -, -, hfree, d, hd, hlookup, hslash⟩ := htable _ hs
  refine ⟨d, hd, fun config levels => ?_⟩
  have hname : Reading.ofSpelling reg config.unwind s = .named d := by
    rw [Reading.ofSpelling_of_freeOf reg _ hcolon rfl hne hfree, Reading.ofName?, hlookup]
    rfl
  rw [outcome_descend_succ, hname, Reading.describe, Decorations.describeName_eq_value reg hslash]
  rfl

/-- A spelling that is no function type is read as a typedef if its normal spelling is one. -/
theorem PlainTypedefs.ofSpelling_eq_alias (h : reg.PlainTypedefs) (hcolon : ':' ∉ s)
    (hs : reg.underlying? (normalize s) = some u) (hu : '(' ∉ u) :
    Reading.ofSpelling reg true s = .alias (normalize s) u := by
  generalize hn : normalize s = n at hs
  have hentry : (n, u) ∈ reg.typedefs := mem_of_lookup hs
  have henum : reg.isEnum n = false := by simp [isEnum, h.enum]
  exact Reading.ofSpelling_eq_alias_of hcolon hn (h.word _ hentry) (h.free _ hentry)
    (h.primitive _ hentry) (h.standard _ hentry) henum (h.unionTag?_eq_none n) hs
    (isFunction_of_not_mem hu)

/-- **What leads into the table comes out as one of its descriptors**, within one level more than
the steps. -/
theorem exists_outcome_of_leadsToWithin (hreg : reg.PlainTypedefs)
    (htable : DescribedBy table results)
    (h : reg.leadsToWithin table fuel (normalize s) = true) :
    ∃ d ∈ results, ∀ config : Config, config.unwind = true →
      (reg.descend config (fuel + 1) [] s).outcome = .ok d := by
  induction fuel generalizing s with
  | zero =>
    have hcolon : ':' ∉ s := not_mem_of_leadsToWithin hreg htable h (by simp)
    obtain ⟨d, hd, hout⟩ := exists_outcome_of_mem reg htable hcolon
      (by simpa [leadsToWithin] using h)
    exact ⟨d, hd, fun config _ => hout config 0⟩
  | succ fuel ih =>
    have hcolon : ':' ∉ s := not_mem_of_leadsToWithin hreg htable h (by simp)
    rcases leadsToWithin_succ_iff.1 h with hmem | ⟨u, hu, hlead⟩
    · obtain ⟨d, hd, hout⟩ := exists_outcome_of_mem reg htable hcolon hmem
      exact ⟨d, hd, fun config _ => hout config (fuel + 1)⟩
    have hopen : '(' ∉ u := not_mem_of_leadsToWithin hreg htable hlead (by simp)
    have hreading := hreg.ofSpelling_eq_alias hcolon hu hopen
    obtain ⟨d, hd, hout⟩ := ih hlead
    refine ⟨d, hd, fun config hunwind => ?_⟩
    rw [outcome_descend_alias (hunwind ▸ hreading), hout config hunwind]

theorem exists_resolve_of_leadsTo (hreg : reg.PlainTypedefs) (htable : DescribedBy table results)
    (h : reg.leadsTo table s = true) :
    ∃ d ∈ results, ∀ config : Config, config.unwind = true →
      (reg.typedefs.length : Int) < config.maxDepth → reg.resolve config s = ⟨d, none⟩ := by
  obtain ⟨d, hd, hout⟩ :=
    exists_outcome_of_leadsToWithin hreg htable (leadsToWithin_of_leadsTo h)
  refine ⟨d, hd, fun config hunwind hdepth => resolve_eq_iff.2 ?_⟩
  have hle : reg.typedefs.length + 1 ≤ config.maxDepth.toNat := by omega
  exact descend_ok_of_le reg rfl hle (outcome_eq_ok_iff.1 (hout config hunwind))

/-! ## Arithmetic types -/

/-- The descriptors of integer types. -/
def integerDescriptors : List Text :=
  ["int".toList, "int16".toList, "int32".toList, "int64".toList, "uint16".toList,
   "uint32".toList, "uint64".toList]

/-- The descriptors of floating types. -/
def floatDescriptors : List Text := ["float32".toList, "float64".toList]

/-- **Arithmetic types come out as such**, if typedefs are unwound and there are more levels than
typedefs: integer types as integers, floating types as floating point numbers, and nothing is
both. -/
theorem resolve_of_arithmetic (reg : Registry) (hreg : reg.PlainTypedefs) (s : Text) :
    ¬(reg.isInteger s = true ∧ reg.isFloat s = true) ∧
    (reg.isInteger s = true → ∃ d ∈ integerDescriptors, ∀ config : Config, config.unwind = true →
      (reg.typedefs.length : Int) < config.maxDepth → reg.resolve config s = ⟨d, none⟩) ∧
    (reg.isFloat s = true → ∃ d ∈ floatDescriptors, ∀ config : Config, config.unwind = true →
      (reg.typedefs.length : Int) < config.maxDepth → reg.resolve config s = ⟨d, none⟩) := by
  have hintegers : DescribedBy integerTypes integerDescriptors := by decide +kernel
  have hfloats : DescribedBy floatTypes floatDescriptors := by decide +kernel
  have hinteger (h : reg.isInteger s = true) := exists_resolve_of_leadsTo hreg hintegers h
  have hfloat (h : reg.isFloat s = true) := exists_resolve_of_leadsTo hreg hfloats h
  refine ⟨?_, hinteger, hfloat⟩
  -- Both would come out of the same resolution, and no descriptor is in both lists.
  rintro ⟨hi, hf⟩
  obtain ⟨d, hd, hresolve⟩ := hinteger hi
  obtain ⟨d', hd', hresolve'⟩ := hfloat hf
  let config : Config := { maxDepth := reg.typedefs.length + 1, unwind := true }
  have hdepth : (reg.typedefs.length : Int) < config.maxDepth := Int.lt_succ _
  have hsame : d = d' := congrArg Resolution.descriptor
    ((hresolve config rfl hdepth).symm.trans (hresolve' config rfl hdepth))
  have hdisjoint : ∀ d ∈ integerDescriptors, d ∉ floatDescriptors := by decide
  exact hdisjoint d hd (hsame ▸ hd')

/-- The type of sizes, two typedefs away from an unsigned long, and a typedef of a double. -/
theorem resolve_of_arithmetic_sizes :
    let reg : Registry :=
      { typedefs := [("size_t".toList, "word_t".toList),
          ("word_t".toList, "unsigned long".toList), ("real".toList, "const double".toList)],
        declared := ["word_t".toList] }
    let config : Config := { unwind := true, maxDepth := 4 }
    reg.PlainTypedefs ∧
      ¬(reg.isInteger "size_t".toList = true ∧ reg.isFloat "size_t".toList = true) ∧
      (∃ d ∈ integerDescriptors, reg.resolve config "const size_t".toList = ⟨d, none⟩) ∧
      ∃ d ∈ floatDescriptors, reg.resolve config "real".toList = ⟨d, none⟩ := by
  intro reg config
  have hreg : reg.PlainTypedefs :=
    ⟨by decide +kernel, by decide +kernel, by decide +kernel, by decide +kernel, by decide +kernel,
      rfl⟩
  obtain ⟨d, hd, hinteger⟩ :=
    (resolve_of_arithmetic reg hreg "const size_t".toList).2.1 (by decide +kernel)
  obtain ⟨d', hd', hfloat⟩ := (resolve_of_arithmetic reg hreg "real".toList).2.2 (by decide +kernel)
  exact ⟨hreg, (resolve_of_arithmetic reg hreg _).1, ⟨d, hd, hinteger config rfl (by decide)⟩,
    ⟨d', hd', hfloat config rfl (by decide)⟩⟩

end Registry

end CSpelling

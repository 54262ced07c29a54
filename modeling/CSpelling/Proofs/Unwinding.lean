import CSpelling.Proofs.Chains
import CSpelling.Proofs.Stars

/-!
# Typedefs and what they stand for

A typedef that is read as what it stands for comes out in the same way: it is resolved one level
above its own spelling, and stars are taken off both (`Registry.outcome_unwind`). With stars the
spelling must be one that takes stars; `Registry.outcome_ne_of_unwind` shows what happens
otherwise.
-/

namespace CSpelling

open Text Trace CSpelling.Normal CSpelling.FunctionTypes

variable {reg : Registry} {n s u : Text}

/-! ## White space behind a spelling -/

theorem normalize_append_gap (hs : IsPiece s) {g : Text} (hg : IsGap g) :
    normalize (s ++ g) = normalize s := by
  have hboth : IsPiece (s ++ g) := isPiece_append.2 ⟨hs, hg.isPiece⟩
  rw [← normalize_strip hboth, strip_append_gap hg, normalize_strip hs]

theorem isGap_spaces (k : Nat) : IsGap (List.replicate k ' ') := by
  intro c hc
  rw [List.eq_of_mem_replicate hc]
  exact isBlank_space

theorem IsPlain.append_spaces (h : IsPlain s) (k : Nat) : IsPlain (s ++ List.replicate k ' ') :=
  h.of_mem fun _ hc => (List.mem_append.1 hc).imp_right List.eq_of_mem_replicate

theorem Reading.known_append_spaces (h : IsPlain s) (k : Nat) :
    known (s ++ List.replicate k ' ') = known s := by
  rw [known_eq (normalize_append_gap h.isPiece (isGap_spaces k)), known_eq rfl]

theorem TakesStars.append_spaces (h : TakesStars reg s) (k : Nat) :
    TakesStars reg (s ++ List.replicate k ' ') where
  plain := h.plain.append_spaces k
  locale := by
    rw [normalize_append_gap h.plain.isPiece (isGap_spaces k)]
    exact h.locale
  void := by
    rw [Reading.known_append_spaces h.plain]
    exact h.void
  name := by
    rw [Reading.known_append_spaces h.plain]
    exact h.name

theorem Registry.outcome_append_spaces (h : IsPlain s) (config : Config) (levels : Nat)
    (chain : List Text) (k : Nat) :
    (reg.descend config levels chain (s ++ List.replicate k ' ')).outcome =
      (reg.descend config levels chain s).outcome := by
  have hcolon : ':' ∉ s := h.not_mem (by decide +kernel)
  have hcolon' : ':' ∉ s ++ List.replicate k ' ' := (h.append_spaces k).not_mem (by decide +kernel)
  have hnormal := normalize_append_gap h.isPiece (isGap_spaces k)
  cases levels with
  | zero => rfl
  | succ levels =>
    rw [outcome_descend_succ, outcome_descend_succ]
    by_cases hempty : normalize s = []
    · rw [Reading.ofSpelling_of_empty reg _ hcolon hempty,
        Reading.ofSpelling_of_empty reg _ hcolon' (hnormal.trans hempty)]
      rfl
    · rw [Reading.ofSpelling_congr reg _ hcolon' hcolon hnormal hempty]

/-! ## Typedefs -/

/-- A spelling is read as what it stands for if its normal spelling is a word that is a typedef and
nothing else. -/
theorem Reading.ofSpelling_eq_alias_of (hcolon : ':' ∉ s) (hnormal : normalize s = n)
    (hword : IsWord n) (hfree : FreeOf n) (hprimitive : primitives.lookup n = none)
    (hstandard : standardStructs.lookup n = none) (henum : reg.isEnum n = false)
    (hunion : unionTag? reg n = none) (hunderlying : reg.underlying? n = some u)
    (hfunction : isFunction u = false) : ofSpelling reg true s = .alias n u := by
  have hname : isFunction n = false := isFunction_of_not_mem (hword.not_mem (by decide))
  have hpointee : reg.functionPointee? n = none :=
    reg.functionPointee?_of_getLast? fun hlast =>
      hword.not_mem (c := '*') (by decide) (List.mem_of_getLast? hlast)
  rw [ofSpelling_of_freeOf reg true hcolon hnormal hword.ne_nil hfree]
  simp [ofName?, keepsName, ofAlias?, hprimitive, hunion, hpointee, hstandard, hname, henum,
    hunderlying, hfunction]

/-- What is read as a typedef comes out as its spelling does one level below. -/
theorem Registry.outcome_descend_alias {config : Config}
    (h : Reading.ofSpelling reg config.unwind s = .alias n u) (levels : Nat) :
    (reg.descend config (levels + 1) [] s).outcome = (reg.descend config levels [] u).outcome := by
  obtain ⟨-, -, hunderlying, -⟩ := Reading.ofSpelling_eq_alias h
  rw [outcome_descend_succ, h, Reading.describe, if_neg (by simp), List.nil_append,
    outcome_descend_singleton hunderlying]

/-- The name is a typedef of the spelling `u`, and nothing else. -/
structure Registry.Defines (reg : Registry) (n u : Text) : Prop where
  /-- The name is a word. -/
  word : IsWord n
  /-- The word is no qualifier. -/
  notQualifier : n ∉ qualifiers
  /-- The texts of system headers do not occur in it. -/
  free : FreeOf n
  /-- No primitive type has the name. -/
  primitive : primitives.lookup n = none
  /-- No type of the standard library has the name. -/
  standard : standardStructs.lookup n = none
  /-- The name is no enumeration. -/
  enum : reg.isEnum n = false
  /-- The name is no union. -/
  union : Reading.unionTag? reg n = none
  /-- The name stands for the spelling. -/
  underlying : reg.underlying? n = some u
  /-- The spelling is made of words, spaces and stars. -/
  plain : IsPlain u

namespace Registry.Defines

variable (h : reg.Defines n u)

include h

theorem isPlain_name : IsPlain n := fun c hc => isElementChar_iff.2 (.inl (h.word.chars c hc))

theorem normalize_name : normalize n = n := normalize_of_isNormal (h.word.isNormal h.notQualifier)

theorem known_name : Reading.known n = n := by
  rw [Reading.known_eq h.normalize_name, h.free.substitute]

theorem isFunction_underlying : isFunction u = false :=
  isFunction_of_not_mem (h.plain.not_mem (by decide +kernel))

/-- The name takes stars, whatever it stands for. -/
theorem takesStars : TakesStars reg n where
  plain := h.isPlain_name
  locale := by
    rw [h.normalize_name]
    exact h.free localeStruct (by simp [systemTexts])
  void := by
    rw [h.known_name]
    rintro rfl
    exact absurd h.primitive (by decide +kernel)
  name := by
    rw [h.known_name, Registry.namesFunction, h.underlying, Option.any_some,
      h.isFunction_underlying]

theorem ofSpelling_name : Reading.ofSpelling reg true n = .alias n u :=
  Reading.ofSpelling_eq_alias_of (h.word.not_mem (by decide)) h.normalize_name h.word h.free
    h.primitive h.standard h.enum h.union h.underlying h.isFunction_underlying

/-- **A typedef comes out as its spelling does one level below.** -/
theorem outcome_name {config : Config} (hunwind : config.unwind = true) (levels : Nat) :
    (reg.descend config (levels + 1) [] n).outcome = (reg.descend config levels [] u).outcome :=
  Registry.outcome_descend_alias (hunwind ▸ h.ofSpelling_name) levels

end Registry.Defines

namespace Registry

/-- What two spellings come out as does not depend on a limit of levels that both stay within. -/
theorem exists_depth_of_outcome {t : Text} {unwind : Bool} (levels more : Nat)
    (hsame : ∀ l, levels ≤ l → (reg.descend { unwind := unwind } (l + more) [] s).outcome =
      (reg.descend { unwind := unwind } l [] t).outcome) :
    ∃ depth : Int, ∀ config : Config, config.unwind = unwind → depth ≤ config.maxDepth →
      outcome reg config s = outcome reg config t := by
  obtain ⟨ls, hs⟩ := reg.exists_finished { unwind := unwind } ([], s)
  obtain ⟨lt, ht⟩ := reg.exists_finished { unwind := unwind } ([], t)
  refine ⟨max ls lt, fun config hunwind hdepth => ?_⟩
  have hls : ls ≤ config.maxDepth.toNat := by omega
  have hlt : lt ≤ config.maxDepth.toNat := by omega
  have hsafter : ls ≤ max levels (max ls lt) + more := by omega
  have htafter : lt ≤ max levels (max ls lt) := by omega
  calc outcome reg config s
      = (reg.descend config config.maxDepth.toNat [] s).outcome := outcome_eq reg config s
    _ = (reg.descend { unwind := unwind } ls [] s).outcome := by
        rw [reg.descend_of_le hunwind.symm hls hs]
    _ = (reg.descend { unwind := unwind } (max levels (max ls lt) + more) [] s).outcome := by
        rw [reg.descend_of_le rfl hsafter hs]
    _ = (reg.descend { unwind := unwind } (max levels (max ls lt)) [] t).outcome :=
        hsame _ (le_max_left _ _)
    _ = (reg.descend { unwind := unwind } lt [] t).outcome := by
        rw [reg.descend_of_le rfl htafter ht]
    _ = (reg.descend config config.maxDepth.toNat [] t).outcome := by
        rw [reg.descend_of_le hunwind.symm hlt ht]
    _ = outcome reg config t := (outcome_eq reg config t).symm

/-- **A typedef that is unwound comes out as what it stands for**, without stars or with the same
stars behind both. -/
theorem outcome_unwind (reg : Registry) (n u : Text) (h : reg.Defines n u) (i j k : Nat)
    (hstars : k = 0 ∨ reg.Without '*' ∧ TakesStars reg u) :
    ∃ depth : Int, ∀ config : Config, config.unwind = true → depth ≤ config.maxDepth →
      outcome reg config (n ++ List.replicate i ' ' ++ List.replicate k '*') =
        outcome reg config (u ++ List.replicate j ' ' ++ List.replicate k '*') := by
  have hname : k = 0 ∨ reg.Without '*' ∧ TakesStars reg (n ++ List.replicate i ' ') :=
    hstars.imp_right fun hk => ⟨hk.1, h.takesStars.append_spaces i⟩
  have hunder : k = 0 ∨ reg.Without '*' ∧ TakesStars reg (u ++ List.replicate j ' ') :=
    hstars.imp_right fun hk => ⟨hk.1, hk.2.append_spaces j⟩
  refine exists_depth_of_outcome (k + 1) 1 fun l hl => ?_
  obtain ⟨levels, rfl⟩ : ∃ levels, l = levels + 1 + k := ⟨l - 1 - k, by omega⟩
  have hlevels : levels + 1 + k + 1 = levels + 1 + 1 + k := by omega
  rw [hlevels, outcome_append_stars hname, outcome_append_stars hunder,
    outcome_append_spaces h.isPlain_name, outcome_append_spaces h.plain, h.outcome_name rfl]

/-- Two stars behind a typedef of a row of names, and behind the row. -/
theorem outcome_unwind_names :
    let reg : Registry := { typedefs := [("names".toList, "const char * *".toList)] }
    ∃ depth : Int, ∀ config : Config, config.unwind = true → depth ≤ config.maxDepth →
      outcome reg config "names **".toList = outcome reg config "const char * *  **".toList := by
  intro reg
  have hdefines : reg.Defines "names".toList "const char * *".toList :=
    ⟨by decide +kernel, by decide +kernel, by decide +kernel, by decide +kernel, by decide +kernel,
      by decide +kernel, by decide +kernel, by decide +kernel, by decide +kernel⟩
  have hknown : Reading.known "const char * *".toList = "char **".toList :=
    Reading.known_eq (n := "char **".toList) (by decide +kernel)
  have hstars : TakesStars reg "const char * *".toList :=
    ⟨by decide +kernel, by decide +kernel, hknown ▸ by decide +kernel, hknown ▸ by decide +kernel⟩
  exact outcome_unwind reg _ _ hdefines 1 2 2 (.inr ⟨by decide +kernel, hstars⟩)

/-- Within some levels the spelling comes out as `x`, and not for want of levels. -/
def ComesOut (reg : Registry) (levels : Nat) (s : Text) (x : Except FailureKind Text) : Prop :=
  (reg.descend { unwind := true } levels [] s).Finished ∧
    (reg.descend { unwind := true } levels [] s).outcome = x

theorem comesOut_of_ok (levels : Nat) {d : Text}
    (h : (reg.descend { unwind := true } levels [] s).result = .ok d) :
    reg.ComesOut levels s (.ok d) :=
  ⟨finished_of_ok h, outcome_eq_ok_iff.2 h⟩

theorem comesOut_of_empty (hcolon : ':' ∉ s) (h : normalize s = []) (levels : Nat) :
    reg.ComesOut (levels + 1) s (.error .malformed) := by
  have hreading := Reading.ofSpelling_of_empty reg true hcolon h
  refine ⟨?_, ?_⟩
  · rw [descend, hreading]
    exact finished_within_iff.2 (finished_fail (fun _ => Cause.noConfusion) s)
  · rw [outcome_descend_succ, hreading]
    rfl

/-- What comes out differently within some levels does so within every greater limit. -/
theorem ComesOut.not_exists_depth {t : Text} {levels : Nat} {x y : Except FailureKind Text}
    (hs : reg.ComesOut levels s x) (ht : reg.ComesOut levels t y) (hne : x ≠ y) :
    ¬∃ depth : Int, ∀ config : Config, config.unwind = true → depth ≤ config.maxDepth →
      outcome reg config s = outcome reg config t := by
  rintro ⟨depth, h⟩
  obtain ⟨config, hunwind, hdepth, hle⟩ : ∃ config : Config, config.unwind = true ∧
      depth ≤ config.maxDepth ∧ levels ≤ config.maxDepth.toNat :=
    ⟨{ unwind := true, maxDepth := max depth levels }, rfl, by dsimp only; omega,
      by dsimp only; omega⟩
  have hsame := h config hunwind hdepth
  rw [outcome_eq, outcome_eq, trace, trace, ← reg.descend_of_le hunwind.symm hle hs.1,
    ← reg.descend_of_le hunwind.symm hle ht.1, hs.2, ht.2] at hsame
  exact hne hsame

/-- The typedef `n` of `u` comes out differently with `k` stars behind both, within every limit,
although the typedefs are words with no other meaning, no text of a system header occurs in them,
and each mentions shorter ones alone, so that none leads back to itself. -/
def Distinguishes (reg : Registry) (n u : Text) (k : Nat) : Prop :=
  (∀ entry ∈ reg.typedefs, (∀ c ∈ entry.1, isWordChar c = true) ∧
    primitives.lookup entry.1 = none ∧ standardStructs.lookup entry.1 = none ∧ FreeOf entry.1 ∧
    reg.isEnum entry.1 = false ∧ Reading.unionTag? reg entry.1 = none ∧
    ∀ m ∈ reg.typedefs.map Prod.fst, m ∈ chunks (normalize entry.2) → m.length < entry.1.length) ∧
  reg.underlying? n = some u ∧ IsPlain u ∧ isFunction u = false ∧
  ¬∃ depth : Int, ∀ config : Config, config.unwind = true → depth ≤ config.maxDepth →
    outcome reg config (n ++ List.replicate k '*') = outcome reg config (u ++ List.replicate k '*')

/-- **A typedef is not always what it stands for.** It differs with a star behind both, for a
typedef of `void`, of a typedef of a function type or of a text that stands for an `int` as a whole,
and where a name of the registry holds the star; and it differs without stars if it has no name or
the name of a qualifier. -/
theorem outcome_ne_of_unwind :
    Distinguishes { typedefs := [("v".toList, "void".toList)] } "v".toList "void".toList 1 ∧
    Distinguishes
      { typedefs := [("callback".toList, "fn".toList), ("fn".toList, "void (int)".toList)] }
      "callback".toList "fn".toList 1 ∧
    Distinguishes { typedefs := [("n".toList, "__locale_struct".toList)] } "n".toList
      "__locale_struct".toList 1 ∧
    Distinguishes { typedefs := [("n".toList, "int".toList)], declared := ["int *".toList] }
      "n".toList "int".toList 1 ∧
    Distinguishes { typedefs := [([], "int".toList)] } [] "int".toList 0 ∧
    Distinguishes { typedefs := [("const".toList, "int".toList)] } "const".toList
      "int".toList 0 := by
  refine ⟨?_, ?_, ?_, ?_, ?_, ?_⟩
  · refine ⟨by decide +kernel, by decide +kernel, by decide +kernel, by decide +kernel, ?_⟩
    exact (comesOut_of_ok 8 (d := "[]".toList) (by decide +kernel)).not_exists_depth
      (comesOut_of_ok 8 (d := anyType) (by decide +kernel)) (by decide)
  · refine ⟨by decide +kernel, by decide +kernel, by decide +kernel, by decide +kernel, ?_⟩
    exact (comesOut_of_ok 8 (d := "[]fn".toList) (by decide +kernel)).not_exists_depth
      (comesOut_of_ok 8 (d := "fn".toList) (by decide +kernel)) (by decide)
  · refine ⟨by decide +kernel, by decide +kernel, by decide +kernel, by decide +kernel, ?_⟩
    exact (comesOut_of_ok 8 (d := "[]int".toList) (by decide +kernel)).not_exists_depth
      (comesOut_of_ok 8 (d := "int".toList) (by decide +kernel)) (by decide)
  · refine ⟨by decide +kernel, by decide +kernel, by decide +kernel, by decide +kernel, ?_⟩
    exact (comesOut_of_ok 8 (d := "[]int".toList) (by decide +kernel)).not_exists_depth
      (comesOut_of_ok 8 (d := "int *".toList) (by decide +kernel)) (by decide)
  · refine ⟨by decide +kernel, by decide +kernel, by decide +kernel, by decide +kernel, ?_⟩
    exact (comesOut_of_empty (by decide) (by decide +kernel) 7).not_exists_depth
      (comesOut_of_ok 8 (d := "int".toList) (by decide +kernel)) (by decide)
  · refine ⟨by decide +kernel, by decide +kernel, by decide +kernel, by decide +kernel, ?_⟩
    exact (comesOut_of_empty (by decide) (by decide +kernel) 7).not_exists_depth
      (comesOut_of_ok 8 (d := "int".toList) (by decide +kernel)) (by decide)

end Registry

end CSpelling

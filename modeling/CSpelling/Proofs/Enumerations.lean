import CSpelling.Proofs.Unwinding

/-!
# Typedefs of enumerations

A typedef of an enumeration is resolved as an `int`, whether it is used by its own name or unwound
and whether or not it is a typedef of something else too. The decisions in front of this one come
first, though: a name that is a primitive type, the typedef of a union or a type of the standard
library is what that says, and texts of system headers are replaced before the registry is asked.
`Registry.resolve_enumeration` tells the cases apart, and `Registry.resolve_enumeration_ne` shows
a name for each that is a typedef of an enumeration and no `int`.
-/

namespace CSpelling

open Text Trace CSpelling.Normal Decorations

variable {reg : Registry} {config : Config} {n : Text}

namespace Reading

/-- The descriptor of a word by the decisions in front of the one on enumerations: a primitive type,
the typedef of a union or a type of the standard library. -/
def earlier? (reg : Registry) (s : Text) : Option Text :=
  (primitives.lookup s).or ((unionTag? reg s).or (standardStructs.lookup s))

/-- A typedef of an enumeration is read as what an earlier decision says, and as an enumeration if
there is none. -/
theorem ofName?_of_isEnum (hword : IsWord n) (henum : reg.isEnum n = true) (unwind : Bool) :
    ∃ r, ofName? reg unwind n = some r ∧
      ((earlier? reg n = none ∧ r = .enumeration) ∨
        ∃ d, earlier? reg n = some d ∧ (r = .descriptor d ∨
          r = .named d ∧ d ∈ (primitives ++ standardStructs).map Prod.snd)) := by
  have hpointee : reg.functionPointee? n = none :=
    reg.functionPointee?_of_getLast? fun hlast =>
      hword.not_mem (by decide) (List.mem_of_getLast? hlast)
  have hfunction : isFunction n = false := isFunction_of_not_mem (hword.not_mem (by decide))
  have hkeeps : keepsName reg unwind n = false := by simp [keepsName, henum]
  have halias : ofAlias? reg n = some .enumeration := by rw [ofAlias?, if_pos henum]
  have hresult {table : List (Text × Text)} {d : Text} (hd : table.lookup n = some d) :
      d ∈ table.map Prod.snd := List.mem_map_of_mem (mem_of_lookup hd)
  unfold ofName? earlier?
  rw [hpointee, hkeeps, hfunction, halias, List.map_append]
  cases hprimitive : primitives.lookup n with
  | some d =>
    exact ⟨_, rfl, .inr ⟨d, rfl, .inr ⟨rfl, List.mem_append_left _ (hresult hprimitive)⟩⟩⟩
  | none =>
    cases unionTag? reg n with
    | some tag => exact ⟨_, rfl, .inr ⟨tag, rfl, .inl rfl⟩⟩
    | none =>
      cases hstandard : standardStructs.lookup n with
      | some d =>
        exact ⟨_, rfl, .inr ⟨d, rfl, .inr ⟨rfl, List.mem_append_right _ (hresult hstandard)⟩⟩⟩
      | none => exact ⟨_, rfl, .inl ⟨rfl, rfl⟩⟩

theorem isWord_substitute (h : IsWord n) : IsWord (substitute n) where
  ne_nil hnil := h.ne_nil <| by
    refine substitute_induction (P := fun t => t = [] → n = []) ?_ id hnil
    intro f hf t ht hreplaced
    obtain ⟨hne, -, -, hnew, -⟩ := ends_of_mem_fragments hf
    exact ht ((replace_eq_nil_iff hne hnew).1 hreplaced)
  chars c hc := by
    rcases mem_of_mem_substitute hc with hc | hc
    · exact h.chars c hc
    · exact (by decide : IsWord "int".toList).chars c hc

/-- A descriptor of the tables is an `int` only as it stands, not as the name of a package. -/
theorem describeName_eq_int_iff {d : Text}
    (hd : d ∈ (primitives ++ standardStructs).map Prod.snd) :
    (reg.describeName d).result = .ok "int".toList ↔ d = "int".toList := by
  have hshort : ∀ d ∈ (primitives ++ standardStructs).map Prod.snd,
      (Import.ofName d).short = "int".toList ↔ d = "int".toList := by
    decide +kernel
  have hname : (reg.describeName d).result = .ok (reg.qualify d).short := rfl
  rw [hname, Except.ok.injEq, Registry.qualify]
  split_ifs
  · exact hshort d hd
  · exact Iff.rfl

end Reading

open Reading

namespace Registry

/-- A spelling is resolved as `int` if its reading is described so. -/
theorem resolve_eq_int_iff (reg : Registry) {config : Config} (hdepth : 1 ≤ config.maxDepth)
    (n : Text) :
    reg.resolve config n = reg.resolve config "int".toList ↔
      ((ofSpelling reg config.unwind n).describe reg
        (reg.descend config (config.maxDepth.toNat - 1)) []).result = .ok "int".toList := by
  obtain ⟨levels, hlevels⟩ : ∃ levels, config.maxDepth.toNat = levels + 1 :=
    ⟨config.maxDepth.toNat - 1, by omega⟩
  have hint : reg.resolve config "int".toList = ⟨"int".toList, none⟩ := by
    rw [resolve_eq_iff, trace, hlevels]
    exact descend_int reg config levels []
  rw [hint, resolve_eq_iff, trace, hlevels, descend_succ_ok_iff, Nat.add_sub_cancel]

/-- **A typedef of an enumeration is an `int`**, unless it is claimed by an earlier decision. A word
that holds the name of the locale structure is an `int` in any case, a qualifier is none, and other
words come out with the texts of system headers replaced. -/
theorem resolve_enumeration (reg : Registry) (config : Config) (n : Text) (hword : IsWord n)
    (hdepth : 2 ≤ config.maxDepth) :
    (localeStruct <:+: n → reg.resolve config n = reg.resolve config "int".toList) ∧
      (n ∈ qualifiers → reg.resolve config n ≠ reg.resolve config "int".toList) ∧
      (¬localeStruct <:+: n → n ∉ qualifiers →
        (reg.trace config n).outcome = (reg.trace config (substitute n)).outcome ∧
        (reg.isEnum (substitute n) = true →
          (reg.resolve config n = reg.resolve config "int".toList ↔
            ∀ d ∈ earlier? reg (substitute n), d = "int".toList))) := by
  have hcolon : ':' ∉ n := hword.not_mem (by decide)
  have hresolve := reg.resolve_eq_int_iff (Int.le_trans (by decide) hdepth) n
  have hnormal (hqualifier : n ∉ qualifiers) : normalize n = n :=
    normalize_of_isNormal (hword.isNormal hqualifier)
  refine ⟨fun hlocale => ?_, fun hqualifier heq => ?_, fun hlocale hqualifier => ?_⟩
  · have hfree : ∀ q ∈ qualifiers, ¬localeStruct <:+: q := by decide
    have hoccurs : occurs localeStruct (normalize n) = true := by
      rw [hnormal fun hq => hfree n hq hlocale, occurs_iff (by decide)]
      exact hlocale
    rw [hresolve, ofSpelling_of_locale reg config.unwind hcolon hoccurs]
    rfl
  · have hempty : ∀ q ∈ qualifiers, normalize q = [] := by decide +kernel
    rw [hresolve, ofSpelling_of_empty reg config.unwind hcolon (hempty n hqualifier)] at heq
    cases heq
  · have hknown : known n = substitute n := known_eq (hnormal hqualifier)
    have hne : normalize n ≠ [] := (hnormal hqualifier).symm ▸ hword.ne_nil
    have hfree : ¬localeStruct <:+: normalize n := (hnormal hqualifier).symm ▸ hlocale
    have hplain : IsPlain n := fun c hc => isElementChar_iff.2 (.inl (hword.chars c hc))
    refine ⟨?_, fun henum => ?_⟩
    · -- Both have the same reading, and the failures of its parts are alike.
      rw [trace, trace]
      cases config.maxDepth.toNat with
      | zero => rfl
      | succ levels =>
        rw [outcome_descend_succ, outcome_descend_succ, ← hknown,
          ofSpelling_known hplain hne hfree]
    · obtain ⟨r, hr, hcases⟩ := ofName?_of_isEnum (isWord_substitute hword) henum config.unwind
      rw [hresolve, ofSpelling_eq_known hcolon hne hfree, hknown, hr, Option.getD_some]
      rcases hcases with ⟨hnone, rfl⟩ | ⟨d, hd, rfl | ⟨rfl, htable⟩⟩
      · obtain ⟨levels, hlevels⟩ : ∃ levels, config.maxDepth.toNat - 1 = levels + 1 :=
          ⟨config.maxDepth.toNat - 2, by omega⟩
        rw [hnone, hlevels]
        exact iff_of_true (descend_int reg config levels []) (by simp)
      · simp [hd, describe, Trace.value, Trace.ofResult]
      · rw [describe, describeName_eq_int_iff htable]
        simp [hd]

/-- A name that is a typedef of an enumeration and of `long`, unwound with the levels that it takes
and no more. -/
theorem resolve_enumeration_mode :
    let reg : Registry := { typedefs := [("mode".toList, "long".toList)], enums := ["mode".toList] }
    let config : Config := { maxDepth := 2, unwind := true }
    let n := "mode".toList
    IsWord n ∧ 2 ≤ config.maxDepth ∧
      ((localeStruct <:+: n → reg.resolve config n = reg.resolve config "int".toList) ∧
        (n ∈ qualifiers → reg.resolve config n ≠ reg.resolve config "int".toList) ∧
        (¬localeStruct <:+: n → n ∉ qualifiers →
          (reg.trace config n).outcome = (reg.trace config (substitute n)).outcome ∧
          (reg.isEnum (substitute n) = true →
            (reg.resolve config n = reg.resolve config "int".toList ↔
              ∀ d ∈ earlier? reg (substitute n), d = "int".toList)))) ∧
      ¬localeStruct <:+: n ∧ n ∉ qualifiers ∧ reg.isEnum (substitute n) = true ∧
      earlier? reg (substitute n) = none ∧ reg.resolve config n = ⟨"int".toList, none⟩ := by
  intro reg config n
  have hword : IsWord n := by decide
  have hdepth : 2 ≤ config.maxDepth := by decide
  exact ⟨hword, hdepth, resolve_enumeration reg config n hword hdepth, by decide +kernel,
    by decide, by decide +kernel, by decide +kernel, by decide +kernel⟩

/-- The word is a typedef of an enumeration and is resolved to something else than `int`. -/
def HidesEnum (reg : Registry) (n : Text) : Prop :=
  IsWord n ∧ reg.isEnum n = true ∧ reg.resolve {} n ≠ reg.resolve {} "int".toList

instance (reg : Registry) (n : Text) : Decidable (reg.HidesEnum n) :=
  inferInstanceAs (Decidable (_ ∧ _ ∧ _))

/-- **A typedef of an enumeration is not always an `int`**: a primitive type, a type of the standard
library, the typedef of a union, a qualifier and a word that holds a text of system headers. -/
theorem resolve_enumeration_ne :
    HidesEnum { enums := ["FILE".toList] } "FILE".toList ∧
      HidesEnum { enums := ["time_t".toList] } "time_t".toList ∧
      HidesEnum
        { typedefs := [("u".toList, "union U".toList)]
          bases := [("u".toList, "union U".toList)]
          enums := ["u".toList] } "u".toList ∧
      HidesEnum { enums := ["const".toList] } "const".toList ∧
      HidesEnum { enums := ["x__locale_data".toList] } "x__locale_data".toList :=
  ⟨by decide +kernel, by decide +kernel, by decide +kernel, by decide +kernel, by decide +kernel⟩

end Registry

end CSpelling

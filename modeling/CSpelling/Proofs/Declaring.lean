import CSpelling.Proofs.Objects

/-!
# Declared aggregates

A name that is declared as an aggregate is read on its own or behind the keyword of a structure, a
union or a class (`Reading.ofSpelling_declare`). Behind a keyword the name came out as it does
before, and the name on its own was unknown. So a declaration takes nothing away: what came out, or
failed for another reason than an unknown type, does so after it
(`Registry.trace_declare_of_known`).
-/

namespace CSpelling

open Text Trace Decorations

variable {reg : Registry} {config : Config} {n s : Text}

/-! ## Words in a row -/

namespace Text

theorem dropStart?_of_not_mem {start : Text} {c : Char} (hc : c ∈ start) (hs : c ∉ s) :
    dropStart? start s = none := by
  rw [Option.eq_none_iff_forall_ne_some]
  intro rest h
  exact hs (dropStart?_eq_some_iff.1 h ▸ List.mem_append_left rest hc)

theorem dropEnd?_of_not_mem {finish : Text} {c : Char} (hc : c ∈ finish) (hs : c ∉ s) :
    dropEnd? finish s = none := by
  rw [Option.eq_none_iff_forall_ne_some]
  intro before h
  exact hs (dropEnd?_eq_some_iff.1 h ▸ List.mem_append_right before hc)

end Text

namespace Reading

/-- Without a parenthesis nothing looks like a function. -/
theorem not_hasFunction (h : '(' ∉ s) :
    hasFunctionPointer s = false ∧ hasFunctionType s = false := by
  induction s with
  | nil => exact ⟨rfl, rfl⟩
  | cons c rest ih =>
    have hrest : '(' ∉ rest := fun hmem => h (List.mem_cons_of_mem _ hmem)
    rw [hasFunctionPointer, hasFunctionType, dropStart?_of_not_mem (by decide) hrest,
      dropStart?_of_not_mem (by decide) hrest, (ih hrest).1, (ih hrest).2]
    simp

/-- Words in a row are an aggregate, or they have no reading by their form. -/
theorem ofForm_of_words (hs : ∀ c ∈ s, isReturnChar c = true) :
    ofForm s = ((afterKeyword? [structKeyword, unionKeyword, enumKeyword] s).map .descriptor).getD
      (.rejected (if occurs anonymousUnionWords s then .anonymousUnion else .unknownType) s) := by
  have hnot {c : Char} (hc : isReturnChar c = false) : c ∉ s := fun hmem => by
    simp [hs c hmem] at hc
  have hstar : s.getLast? ≠ some '*' := fun h =>
    hnot (c := '*') (by decide) (List.mem_of_getLast? h)
  have hsized : sizedArray? (withoutParens s) = none :=
    sizedArray?_of_not_mem fun h => hnot (by decide) (List.mem_of_mem_filter h)
  have hunsized : dropEnd? unsizedEnd s = none :=
    dropEnd?_of_not_mem (c := ']') (by decide) (hnot (by decide +kernel))
  obtain ⟨hpointer, htype⟩ := not_hasFunction (hnot (c := '(') (by decide +kernel))
  rw [ofForm, if_neg hstar, hsized, hpointer, htype, hunsized]
  cases afterKeyword? [structKeyword, unionKeyword, enumKeyword] s with
  | some tag => rfl
  | none =>
    simp only [Option.map_none, Option.getD_none, Bool.false_eq_true, if_false]
    split_ifs <;> rfl

/-- What is declared as an aggregate stands for itself behind a keyword, or is not known. -/
theorem ofForm_of_tag (hn : IsWord n)
    (htag : (afterKeyword? [structKeyword, unionKeyword, classKeyword] s).getD s = n) :
    ofForm s = .descriptor n ∨ ofForm s = .rejected .unknownType s := by
  have hspace : ' ' ∉ n := hn.not_mem (not_isWordChar_of_isBlank isBlank_space)
  have hword : ∀ c ∈ n, isReturnChar c = true := fun c hc => by simp [isReturnChar, hn.chars c hc]
  cases hafter : afterKeyword? [structKeyword, unionKeyword, classKeyword] s with
  | none =>
    obtain rfl : s = n := by rwa [hafter] at htag
    have hnone : afterKeyword? [structKeyword, unionKeyword, enumKeyword] s = none := by
      rw [afterKeyword?, List.findSome?_eq_none_iff]
      intro keyword hkeyword
      have hall : ∀ k ∈ [structKeyword, unionKeyword, enumKeyword], ' ' ∈ k := by decide
      exact dropStart?_of_not_mem (hall keyword hkeyword) hspace
    have hanonymous : occurs anonymousUnionWords s = false := by
      rw [Bool.eq_false_iff, Ne, occurs_iff (by decide)]
      exact fun h => hspace (h.subset (by decide))
    rw [ofForm_of_words hword, hnone, hanonymous]
    exact .inr rfl
  | some tag =>
    obtain rfl : tag = n := by rwa [hafter] at htag
    obtain ⟨keyword, hkeyword, hdrop⟩ := List.exists_of_findSome?_eq_some hafter
    obtain rfl := dropStart?_eq_some_iff.1 hdrop
    have hall : ∀ k ∈ [structKeyword, unionKeyword, classKeyword], ∀ c ∈ k,
        isReturnChar c = true := by
      decide
    have hwords : ∀ c ∈ keyword ++ tag, isReturnChar c = true := fun c hc =>
      (List.mem_append.1 hc).elim (hall keyword hkeyword c) (hword c)
    rw [ofForm_of_words hwords]
    simp only [List.mem_cons, List.not_mem_nil, or_false] at hkeyword
    rcases hkeyword with rfl | rfl | rfl
    · exact .inl rfl
    · exact .inl rfl
    · have hanonymous : occurs anonymousUnionWords (classKeyword ++ tag) = false := by
        rw [Bool.eq_false_iff, Ne, occurs_iff (by decide)]
        intro h
        have hfirst : "anonymous ".toList <:+: classKeyword ++ tag :=
          (show "anonymous ".toList <+: anonymousUnionWords by decide).isInfix.trans h
        exact not_infix_append (by decide) (fun c hc => by
          obtain rfl : ' ' = c := by simpa using hc
          exact hspace) hfirst
      rw [hanonymous]
      exact .inr rfl

/-! ## Readings -/

/-- Declared aggregates are looked for behind all else that is known of a name. -/
theorem exists_ofName?_declare (reg : Registry) (n : Text) (unwind : Bool) (s : Text) :
    ∃ known : Option Reading, ofName? reg unwind s = known.or (ofDeclared? reg s) ∧
      ofName? (reg.declare n) unwind s = known.or (ofDeclared? (reg.declare n) s) := by
  have hunion : unionTag? (reg.declare n) s = unionTag? reg s := rfl
  have hpointee : (reg.declare n).functionPointee? s = reg.functionPointee? s := rfl
  have hkeeps : keepsName (reg.declare n) unwind s = keepsName reg unwind s := rfl
  have halias : ofAlias? (reg.declare n) s = ofAlias? reg s := rfl
  rw [ofName?, ofName?, hunion, hpointee, hkeeps, halias]
  cases primitives.lookup s with
  | some d => exact ⟨some (.named d), rfl, rfl⟩
  | none =>
    cases unionTag? reg s with
    | some tag => exact ⟨some (.descriptor tag), rfl, rfl⟩
    | none =>
      cases reg.functionPointee? s with
      | some name => exact ⟨some (.descriptor name), rfl, rfl⟩
      | none =>
        cases standardStructs.lookup s with
        | some d => exact ⟨some (.named d), rfl, rfl⟩
        | none =>
          dsimp only
          split_ifs
          · exact ⟨some (.descriptor s), rfl, rfl⟩
          · exact ⟨some (.function s), rfl, rfl⟩
          · exact ⟨ofAlias? reg s, rfl, rfl⟩

/-- A declaration makes a name of what has none and has the name for its tag. -/
theorem ofName?_declare (reg : Registry) (n : Text) (unwind : Bool) (s : Text) :
    ofName? (reg.declare n) unwind s = ofName? reg unwind s ∨
      ofName? (reg.declare n) unwind s = some (.named n) ∧ ofName? reg unwind s = none ∧
        (afterKeyword? [structKeyword, unionKeyword, classKeyword] s).getD s = n := by
  obtain ⟨known, hbefore, hafter⟩ := exists_ofName?_declare reg n unwind s
  rw [hbefore, hafter]
  cases known with
  | some r => exact .inl rfl
  | none =>
    rw [Option.none_or, Option.none_or, ofDeclared?, ofDeclared?]
    generalize (afterKeyword? [structKeyword, unionKeyword, classKeyword] s).getD s = tag
    rw [Registry.isDeclared_declare]
    by_cases htag : tag = n
    · subst htag
      cases reg.isDeclared tag with
      | true => exact .inl (by simp)
      | false => exact .inr (by simp)
    · exact .inl (by simp [htag])

/-- **A declaration changes the reading of one name**, which stood for itself or was not known. -/
theorem ofSpelling_declare (reg : Registry) (hn : IsWord n) (unwind : Bool) (s : Text) :
    ofSpelling (reg.declare n) unwind s = ofSpelling reg unwind s ∨
      ofSpelling (reg.declare n) unwind s = .named n ∧
        (ofSpelling reg unwind s = .descriptor n ∨
          ∃ t, ofSpelling reg unwind s = .rejected .unknownType t) := by
  unfold ofSpelling
  dsimp only
  split_ifs
  · exact .inl rfl
  · exact .inl rfl
  · exact .inl rfl
  generalize substitute (normalize s) = known
  rcases ofName?_declare reg n unwind known with hsame | ⟨hafter, hbefore, htag⟩
  · exact .inl (by rw [hsame])
  · rw [hafter, hbefore, Option.getD_some, Option.getD_none]
    exact .inr ⟨rfl, (ofForm_of_tag hn htag).imp_right fun h => ⟨known, h⟩⟩

end Reading

/-! ## Resolution -/

/-- What does not fail for an unknown type stays. -/
theorem Trace.compatible_known :
    Compatible fun {_} t u => t.outcome ≠ .error .unknown → t = u where
  refl _ _ := rfl
  map g h ht := by rw [h fun heq => ht (by rw [outcome_map, heq]; rfl)]
  within _ h ht := by rw [h (by rwa [outcome_within] at ht)]
  andThen {_ _ t u next next'} h hnext ht := by
    rw [outcome_andThen] at ht
    obtain rfl := h fun heq => ht (by rw [heq]; rfl)
    refine andThen_congr fun a ha => hnext a ha ?_
    rwa [Trace.outcome_eq_ok_iff.2 ha] at ht

namespace Registry

/-- A declaration takes nothing away, at every level and after any typedefs. -/
theorem descend_declare (hn : IsWord n) (levels : Nat) (chain : List Text) (s : Text)
    (h : (reg.descend config levels chain s).outcome ≠ .error .unknown) :
    reg.descend config levels chain s = (reg.declare n).descend config levels chain s := by
  induction levels generalizing chain s with
  | zero => rfl
  | succ levels ih =>
    refine compatible_known.within (.type s) (fun hknown => ?_) h
    rcases Reading.ofSpelling_declare reg hn config.unwind s with hsame | ⟨hafter, hbefore⟩
    · have hqualifying : reg.qualifying = (reg.declare n).qualifying := rfl
      rw [hsame, ← Reading.describe_of_qualifying hqualifying]
      exact Reading.describe_rel compatible_known (Reading.ofSpelling_shallow reg config.unwind s)
        (fun p _ => ih p.1 p.2) hknown
    · rcases hbefore with hbefore | ⟨t, hbefore⟩
      · have hslash : '/' ∉ n := hn.not_mem (by decide)
        rw [hbefore, hafter, Reading.describe, Reading.describe, describeName_eq_value _ hslash]
      · exact absurd (by rw [hbefore]; rfl) hknown

/-- **Declaring an aggregate takes nothing away**: a spelling that came out, or failed for another
reason than an unknown type, does so afterwards, with the same contexts and packages. -/
theorem trace_declare_of_known (reg : Registry) (config : Config) (n s : Text) (hn : IsWord n)
    (h : (reg.trace config s).outcome ≠ .error .unknown) :
    (reg.declare n).trace config s = reg.trace config s :=
  (descend_declare hn config.maxDepth.toNat [] s h).symm

/-- A function of a pointer to a function, a stream and an array of the structure that is
declared. -/
theorem trace_declare_of_known_node :
    let reg : Registry := { typedefs := [("visit".toList, "void (struct node *)".toList)] }
    let s := "struct node **(*)(visit *, FILE *, struct node [4])".toList
    (reg.trace {} s).outcome ≠ .error .unknown ∧
      ((reg.declare "node".toList).trace {} s) = reg.trace {} s := by
  intro reg s
  have h : (reg.trace {} s).outcome ≠ .error .unknown := by decide +kernel
  exact ⟨h, trace_declare_of_known reg {} "node".toList s (by decide +kernel) h⟩

end Registry

end CSpelling

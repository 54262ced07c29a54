import CSpelling.Proofs.Knowledge
import CSpelling.Proofs.Names
import CSpelling.Proofs.Spacing

/-!
# Objects and their descriptors

A declaration of objects names an aggregate or a typedef, with qualifiers in front, and its
declarators put pointers and arrays around the declared names. What a scan records for such a
declarator is, up to spacing and qualifiers, the type with its stars and sizes
(`normalize_object`), and all names that the registry ends up with are words, so each object is
described without a failure: by a slice for each size in front of the descriptor of the pointer
(`describe_object`).

The name of an aggregate without a tag counts among the names that no text of a system header may
occur in. It can hold one that the path of the file does not hold
(`describe_of_underscore_path`).
-/

namespace CSpelling

open Text CSpelling.Normal Decorations

/-! ## Resolving one after another -/

namespace Registry

/-- The packages in use play no part in a resolution. -/
theorem descend_record (reg : Registry) (paths : List Text) (config : Config) (levels : Nat)
    (chain : List Text) (s : Text) :
    (reg.record paths).descend config levels chain s = reg.descend config levels chain s :=
  descend_of_knowledge (knowledge_record reg paths) rfl config levels chain s

/-- Spellings are resolved one after another as each by itself. -/
theorem resolveAll_eq (reg : Registry) (spellings : List (Text × Config)) :
    (reg.resolveAll spellings).1 = spellings.map fun p => reg.resolve p.2 p.1 := by
  induction spellings generalizing reg with
  | nil => rfl
  | cons p rest ih =>
    have hrest (paths : List Text) : rest.map (fun p => (reg.record paths).resolve p.2 p.1) =
        rest.map fun p => reg.resolve p.2 p.1 := by
      refine List.map_congr_left fun q _ => ?_
      rw [resolve, trace, descend_record]
      rfl
    rw [List.map_cons, ← hrest (reg.trace p.2 p.1).imports, ← ih]
    rfl

/-- Each declaration is described by the resolution of its spelling. -/
theorem describeAll_eq (reg : Registry) (config : Config) (ds : List Declaration) :
    reg.describeAll config ds = ds.map fun d => d.described (reg.resolve config d.spelling) := by
  rw [describeAll, resolveAll_eq, List.map_map, List.zipWith_map_right, List.zipWith_self]
  rfl

end Registry

/-! ## Readings of types -/

theorem sizedArray?_of_not_mem {s : Text} (h : '[' ∉ s) : Reading.sizedArray? s = none := by
  have hgroups (t : Text) (ht : '[' ∉ t) : sizeGroups t = [] := by
    cases t with
    | nil => rfl
    | cons c rest =>
      have hc : groupDigits? (c :: rest) = none := by
        unfold groupDigits?
        split
        · next heq =>
          rw [(List.cons.inj heq).1] at ht
          exact absurd (List.mem_cons_self ..) ht
        · rfl
      rw [sizeGroups, sizeGroupsAfter, hc]
  induction s with
  | nil => rfl
  | cons c rest ih =>
    have hdrop : '[' ∉ (c :: rest).dropWhile Reading.isElementChar := fun hmem =>
      h ((List.dropWhile_suffix _).subset hmem)
    rw [Reading.sizedArray?, hgroups _ hdrop]
    simpa using ih fun hmem => h (List.mem_cons_of_mem _ hmem)

section Types

variable {reg : Registry} (hreg : ∀ name ∈ reg.names, ∀ c ∈ name, isWordChar c = true)
  {config : Config} {chain : List Text} {w : Text}

include hreg

/-- An aggregate is read by its tag, or stands for itself in the tables. -/
theorem exists_ofSpelling_tagged (unwind : Bool) (a : Aggregate)
    (hbase : IsBase (a.keyword ++ ' ' :: w)) :
    ∃ d, Reading.ofSpelling reg unwind (a.keyword ++ ' ' :: w) = .named d ∨
      Reading.ofSpelling reg unwind (a.keyword ++ ' ' :: w) = .descriptor d := by
  have hmem : ' ' ∈ a.keyword ++ ' ' :: w := by simp
  have hwithout : reg.Without ' ' := without hreg (not_isWordChar_of_isBlank isBlank_space)
  have hstar : (a.keyword ++ ' ' :: w).getLast? ≠ some '*' :=
    hbase.getLast?_ne (by decide) (by decide)
  have hopen : '(' ∉ a.keyword ++ ' ' :: w := hbase.not_mem (by decide) (by decide)
  have hafter : afterKeyword? [structKeyword, unionKeyword, enumKeyword] (a.keyword ++ ' ' :: w) =
      some w := by cases a <;> rfl
  have hparens : Reading.sizedArray? (Reading.withoutParens (a.keyword ++ ' ' :: w)) = none :=
    sizedArray?_of_not_mem fun h =>
      hbase.not_mem (by decide) (by decide) (List.mem_of_mem_filter h)
  have hform : Reading.ofForm (a.keyword ++ ' ' :: w) = .descriptor w := by
    rw [Reading.ofForm, if_neg hstar, hparens, hafter]
  rw [Reading.ofSpelling_of_freeOf reg unwind (hbase.not_mem (by decide) (by decide)) hbase.normal
    hbase.ne_nil hbase.free, hform]
  unfold Reading.ofName? Reading.unionTag? Reading.keepsName Reading.ofAlias? Reading.ofDeclared?
  rw [hwithout.base? hmem, hwithout.underlying? hmem, hwithout.isEnum hmem,
    reg.functionPointee?_of_getLast? hstar, isFunction_of_not_mem hopen]
  cases primitives.lookup (a.keyword ++ ' ' :: w) with
  | some d => exact ⟨d, .inl rfl⟩
  | none =>
    cases standardStructs.lookup (a.keyword ++ ' ' :: w) with
    | some d => exact ⟨d, .inl rfl⟩
    | none =>
      simp only [Option.bind_none, Option.isSome_none, Bool.and_false, Bool.false_and,
        Bool.false_eq_true, if_false, Option.map_none, Option.none_or]
      split_ifs
      · exact ⟨_, .inl rfl⟩
      · exact ⟨_, .inr rfl⟩

/-- An aggregate has a descriptor. -/
theorem exists_descend_tagged (a : Aggregate) (hbase : IsBase (a.keyword ++ ' ' :: w)) :
    ∃ d, (reg.descend config 1 chain (a.keyword ++ ' ' :: w)).result = .ok d := by
  simp only [Registry.descend_succ_ok_iff]
  obtain ⟨d, hread | hread⟩ := exists_ofSpelling_tagged hreg config.unwind a hbase <;> rw [hread]
  · exact ⟨_, rfl⟩
  · exact ⟨_, rfl⟩

omit hreg in
/-- A typedef has a descriptor unless typedefs are read as what they stand for. -/
theorem exists_descend_typedef (hbase : IsBase w) (hunwind : config.unwind = false)
    (hknown : (reg.underlying? w).isSome = true ∨ reg.isEnum w = true) :
    ∃ d, (reg.descend config 2 chain w).result = .ok d := by
  have hint := descend_int reg config 0 chain
  have hread : ∃ d, Reading.ofSpelling reg false w = .named d ∨
      Reading.ofSpelling reg false w = .descriptor d ∨
      Reading.ofSpelling reg false w = .enumeration := by
    have hstar : w.getLast? ≠ some '*' := hbase.getLast?_ne (by decide) (by decide)
    have hopen : '(' ∉ w := hbase.not_mem (by decide) (by decide)
    rw [Reading.ofSpelling_of_freeOf reg false (hbase.not_mem (by decide) (by decide)) hbase.normal
      hbase.ne_nil hbase.free]
    unfold Reading.ofName? Reading.keepsName Reading.ofAlias?
    rw [reg.functionPointee?_of_getLast? hstar, isFunction_of_not_mem hopen]
    cases primitives.lookup w with
    | some d => exact ⟨d, .inl rfl⟩
    | none =>
      cases Reading.unionTag? reg w with
      | some tag => exact ⟨tag, .inr (.inl rfl)⟩
      | none =>
        cases standardStructs.lookup w with
        | some d => exact ⟨d, .inl rfl⟩
        | none =>
          cases henum : reg.isEnum w with
          | true => exact ⟨[], .inr (.inr (by simp))⟩
          | false => exact ⟨w, .inr (.inl (by simp_all))⟩
  simp only [Registry.descend_succ_ok_iff, hunwind]
  obtain ⟨d, hread | hread | hread⟩ := hread <;> rw [hread]
  · exact ⟨_, rfl⟩
  · exact ⟨_, rfl⟩
  · exact ⟨_, hint⟩

end Types

/-! ## Rendered objects -/

namespace Declarator

/-- Arrays of the given sizes around a declarator, the first size next to it. -/
def arrays (inner : Declarator) (sizes : List Text) : Declarator := sizes.foldl .array inner

theorem ne_nil_of_sizeText? {size digits : Text} (hsize : (sizeLiteral? size).isSome = true)
    (h : sizeText? size = some digits) : digits ≠ [] := by
  obtain ⟨literal, hliteral⟩ := Option.isSome_iff_exists.1 hsize
  rw [sizeText?, hliteral] at h
  obtain ⟨n, -, hn⟩ := Option.bind_eq_some_iff.1 h
  simp only [numeral?, Option.ite_none_right_eq_some, Option.some.injEq] at hn
  rw [← hn.2]
  exact Nat.toDigits_ne_nil

/-- Sizes are written in digits, each in its brackets. -/
theorem exists_suffix_arrays {inner : Declarator} {sizes : List Text} {suffix : Text}
    (hsizes : ∀ size ∈ sizes, (sizeLiteral? size).isSome = true)
    (h : (arrays inner sizes).suffix? = some suffix) :
    ∃ before digits, inner.suffix? = some before ∧ AreSizes digits ∧
      digits.length = sizes.length ∧ suffix = before ++ digits.flatMap bracketed := by
  induction sizes generalizing inner with
  | nil => exact ⟨suffix, [], h, by simp [AreSizes], rfl, by simp⟩
  | cons size rest ih =>
    obtain ⟨before, digits, harray, hdigits, hlength, rfl⟩ :=
      ih (fun s hs => hsizes s (List.mem_cons_of_mem _ hs)) h
    obtain ⟨front, hfront, harray⟩ := Option.bind_eq_some_iff.1 harray
    obtain ⟨first, hfirst, harray⟩ := Option.bind_eq_some_iff.1 harray
    obtain rfl := Option.some.inj harray
    have hliteral := hsizes size (by simp)
    refine ⟨front, first :: digits, hfront, ?_, by simp [hlength], by simp [bracketed]⟩
    intro n hn
    rcases List.mem_cons.1 hn with rfl | hn
    · exact ⟨ne_nil_of_sizeText? hliteral hfirst,
        fun c hc => isDigit_of_mem_sizeText? (by simp [hliteral]) hfirst hc⟩
    · exact hdigits n hn

/-- What pointers and arrays around a name add to a type. -/
theorem exists_suffix_object {k : Nat} {name : Text} {sizes : List Text} {suffix : Text}
    (hsizes : ∀ size ∈ sizes, (sizeLiteral? size).isSome = true)
    (h : (pointers k (arrays (.name name) sizes)).suffix? = some suffix) :
    ∃ digits, AreSizes digits ∧ digits.length = sizes.length ∧
      suffix = List.replicate k '*' ++ digits.flatMap bracketed := by
  rw [suffix?_pointers] at h
  obtain ⟨groups, hgroups, rfl⟩ := Option.map_eq_some_iff.1 h
  obtain ⟨before, digits, hbefore, hdigits, hlength, rfl⟩ := exists_suffix_arrays hsizes hgroups
  obtain rfl : [] = before := Option.some.inj hbefore
  exact ⟨digits, hdigits, hlength, rfl⟩

theorem declaredName_arrays (inner : Declarator) (sizes : List Text) :
    (arrays inner sizes).declaredName = inner.declaredName := by
  induction sizes generalizing inner with
  | nil => rfl
  | cons size rest ih => exact ih (.array inner size)

end Declarator

section Spellings

variable {base : Text} {qualifierTexts digits : List Text}

/-- Qualifiers in front of a type play no part in the normal spelling. -/
theorem normalize_qualified (hq : ∀ q ∈ qualifierTexts, q ∈ qualifiers) (base t : Text) :
    normalize ([' '].intercalate (qualifierTexts ++ [base]) ++ t) = normalize (base ++ t) := by
  induction qualifierTexts with
  | nil => rw [List.nil_append, List.intercalate_singleton]
  | cons q rest ih =>
    have hjoin : [' '].intercalate (q :: rest ++ [base]) ++ t =
        q ++ ' ' :: ([' '].intercalate (rest ++ [base]) ++ t) := by
      rw [List.cons_append, List.intercalate_cons_of_ne_nil (by simp)]
      simp
    rw [hjoin, normalize_qualifier (hq q (by simp)),
      ih fun r hr => hq r (List.mem_cons_of_mem _ hr)]

/-- **The normal spelling of an object** is the type with its stars and sizes. -/
theorem normalize_object (hbase : IsBase base) (hq : ∀ q ∈ qualifierTexts, q ∈ qualifiers) (k : Nat)
    (hdigits : AreSizes digits) :
    normalize (withSuffix ([' '].intercalate (qualifierTexts ++ [base]))
      (List.replicate k '*' ++ digits.flatMap bracketed)) = sized (starred base k) digits := by
  have hstarred := isNormal_starred hbase k
  have hbracket : (starred base k).getLast? ≠ some ']' := fun h =>
    not_mem_starred hbase (by decide) (by decide) k (List.mem_of_getLast? h)
  have hsized : normalize (sized (starred base k) digits) = sized (starred base k) digits :=
    normalize_of_isNormal (isNormal_sized hstarred (starred_ne_nil hbase k) hbracket hdigits)
  cases k with
  | zero =>
    cases digits with
    | nil =>
      have h := normalize_qualified hq base []
      rw [List.append_nil, List.append_nil] at h
      exact h.trans hbase.normal
    | cons first rest =>
      exact (normalize_qualified hq base (' ' :: (first :: rest).flatMap bracketed)).trans hsized
  | succ k =>
    have hwhole : withSuffix ([' '].intercalate (qualifierTexts ++ [base]))
        (List.replicate (k + 1) '*' ++ digits.flatMap bracketed) =
          [' '].intercalate (qualifierTexts ++ [base]) ++
            ' ' :: (List.replicate (k + 1) '*' ++ digits.flatMap bracketed) := by
      rw [withSuffix, if_neg (by simp [List.replicate_succ])]
    rw [hwhole, normalize_qualified hq]
    cases digits with
    | nil => simpa [sized, starred] using normalize_of_isNormal hstarred
    | cons first rest =>
      -- The pass puts the space between the stars and the sizes.
      have hrendered : base ++ ' ' :: (List.replicate (k + 1) '*' ++
          (first :: rest).flatMap bracketed) =
            starred base (k + 1) ++ '[' :: (first ++ [']'] ++ rest.flatMap bracketed) := by
        simp [starred, bracketed]
      have hspaced : sized (starred base (k + 1)) (first :: rest) =
          starred base (k + 1) ++ ' ' :: '[' :: (first ++ [']'] ++ rest.flatMap bracketed) := by
        simp [sized, bracketed]
      rw [hrendered, ← normalize_space_bracket, ← hspaced]
      exact hsized

end Spellings

/-! ## Described objects -/

/-- A pointer is a slice for each star unless it is one to anything, to a function or to a
stream. -/
theorem pointerDescriptor_eq_slices {reg : Registry} {base d : Text} {k : Nat}
    (h : k = 0 ∨ base ≠ "void".toList ∧
      (base = "char".toList ∨ reg.namesFunction base = false) ∧ Pointee.ofDescriptor d = .value) :
    pointerDescriptor reg base d k = slices k ++ d := by
  cases k with
  | zero => rfl
  | succ k =>
    obtain ⟨hvoid, hfunction, hvalue⟩ := h.resolve_left (Nat.succ_ne_zero k)
    have hname : ¬(base ≠ "char".toList ∧ reg.namesFunction base = true) := by
      rintro ⟨hchar, hname⟩
      rcases hfunction with hfunction | hfunction
      · exact hchar hfunction
      · simp [hfunction] at hname
    rw [pointerDescriptor, if_neg hvoid, if_neg hname, if_neg (by simp [hvalue])]

theorem slices_add (m n : Nat) : slices (m + n) = slices m ++ slices n := by
  rw [slices, List.replicate_add, List.flatten_append]
  rfl

section Resolution

variable {reg : Registry} (hreg : ∀ name ∈ reg.names, ∀ c ∈ name, isWordChar c = true)
  {base d : Text} {qualifierTexts digits : List Text}

include hreg

/-- An object has the descriptor of its type with the stars and sizes around it. -/
theorem resolve_object (hbase : IsBase base) (hd : (reg.descend {} 2 [] base).result = .ok d)
    (hq : ∀ q ∈ qualifierTexts, q ∈ qualifiers) {k : Nat} (hk : k + 4 ≤ 64)
    (hdigits : AreSizes digits) :
    reg.resolve {} (withSuffix ([' '].intercalate (qualifierTexts ++ [base]))
      (List.replicate k '*' ++ digits.flatMap bracketed)) =
        ⟨slices digits.length ++ pointerDescriptor reg base d k, none⟩ := by
  have hsuffix : ':' ∉ List.replicate k '*' ++ digits.flatMap bracketed := by
    intro h
    rcases List.mem_append.1 h with h | h
    · simp [List.mem_replicate] at h
    · exact absurd (forall_mem_groups (P := (· ≠ ':')) (by decide) (by decide) hdigits ':'
        (List.mem_cons_of_mem _ h)) (by simp)
  have hfront : ':' ∉ [' '].intercalate (qualifierTexts ++ [base]) := by
    have hall : ∀ q ∈ qualifiers, ':' ∉ q := by decide
    induction qualifierTexts with
    | nil =>
      rw [List.nil_append, List.intercalate_singleton]
      exact hbase.not_mem (by decide) (by decide)
    | cons q rest ih =>
      rw [List.cons_append, List.intercalate_cons_of_ne_nil (by simp)]
      have hrest := ih fun r hr => hq r (List.mem_cons_of_mem _ hr)
      simp [hall q (hq q (by simp)), hrest]
  have hcolon : ':' ∉ withSuffix ([' '].intercalate (qualifierTexts ++ [base]))
      (List.replicate k '*' ++ digits.flatMap bracketed) := by
    unfold withSuffix
    split_ifs
    · exact hfront
    · intro h
      rcases List.mem_append.1 h with h | h
      · exact hfront h
      · exact hsuffix ((List.mem_cons.1 h).resolve_left (by decide))
  have hcolon' : ':' ∉ sized (starred base k) digits :=
    not_mem_sized hbase hdigits (by decide) (by decide) k
  have hnormal := normalize_object hbase hq k hdigits
  have hfixed : normalize (sized (starred base k) digits) = sized (starred base k) digits := by
    rw [← hnormal]
    exact normalize_of_isNormal (isNormal_normalize _)
  have hne : normalize (sized (starred base k) digits) ≠ [] := by
    rw [hfixed]
    cases digits with
    | nil => exact starred_ne_nil hbase k
    | cons first rest => simp [sized]
  have hsized := descend_sized hreg hbase (descend_starred hreg hbase hd k) hdigits
  rw [Registry.resolve_eq_iff]
  refine reg.descend_ok_of_le rfl (show 2 + k + 1 ≤ (64 : Int).toNat by omega) ?_
  rw [Registry.descend_succ_ok_iff] at hsized ⊢
  rwa [Reading.ofSpelling_congr reg _ hcolon hcolon' (hnormal.trans hfixed.symm) hne]

end Resolution

namespace Source

/-- The name in a type: the tag of an aggregate, or the text of the node. -/
def typeName (src : Source) (type : Node) : Text :=
  match type.kind with
  | .aggregate a => src.tag a type
  | _ => src.textOf type

/-- The type is an aggregate, or a typedef that is made somewhere in the tree. -/
def NamesType (src : Source) (root type : Node) : Prop :=
  (∃ a, type.kind = .aggregate a) ∨
    type.kind = .name ∧ (((src.registry root).underlying? (src.textOf type)).isSome = true ∨
      (src.registry root).isEnum (src.textOf type) = true)

theorem words_of_isWord {w : Text} (h : IsWord w) : words w = [w] := by
  have hblank : ∀ c ∈ w, isBlank c = false := fun c hc => isBlank_of_isWordChar (h.chars c hc)
  rw [words, List.splitOnP_eq_singleton hblank]
  simp [h.ne_nil]

variable {src : Source} {root type : Node}

/-- A named type is a base type, and it has a descriptor. -/
theorem isBase_typeSpelling (h : NamesWords src root) (htype : type ∈ root.preorder)
    (hnamed : NamesType src root type) (hq : src.typeName type ∉ qualifiers)
    (hfree : FreeOf (src.typeName type)) :
    IsBase (src.typeSpelling type) ∧
      ∃ d, ((src.registry root).descend {} 2 [] (src.typeSpelling type)).result = .ok d := by
  have hreg : ∀ name ∈ (src.registry root).names, ∀ c ∈ name, isWordChar c = true :=
    fun name hname c hc => isWordChar_of_mem_names h hname hc
  unfold typeName at hq hfree
  rcases hnamed with ⟨a, hkind⟩ | ⟨hkind, hknown⟩
  · rw [hkind] at hq hfree
    have hbase := isBase_tagged a (isWord_tag h a htype) hq hfree
    have hspelling : src.typeSpelling type = a.keyword ++ ' ' :: src.tag a type := by
      rw [typeSpelling, hkind]
    rw [hspelling]
    obtain ⟨d, hd⟩ : ∃ d, ((src.registry root).descend {} 1 []
        (a.keyword ++ ' ' :: src.tag a type)).result = .ok d := exists_descend_tagged hreg a hbase
    exact ⟨hbase, d, Registry.descend_ok_of_le _ rfl (by decide) hd⟩
  · rw [hkind] at hq hfree
    have hword := h.names type htype (.inl hkind)
    have hspelling : src.typeSpelling type = src.textOf type := by
      rw [typeSpelling, hkind]
      simp [words_of_isWord hword]
    rw [hspelling]
    have hbase := isBase_word hword hq hfree
    exact ⟨hbase, exists_descend_typedef hbase rfl hknown⟩

/-- **Objects of a named type are described without a failure.** If all names in a tree are words,
and the type of a declaration is an aggregate or a typedef made anywhere in the tree, behind
qualifiers, then each of its declarators that is made of `k` pointers around arrays with constant
sizes is described: by a slice for each size in front of the descriptor of the type with `k` stars.
That is a slice for each size and star in front of the descriptor of the type itself, unless the
type is `void`, a function type or a stream, behind stars. -/
theorem describe_object (src : Source) (root : Node) (described : List Described)
    (hdescribe : src.describe {} root = some described) (hnames : NamesWords src root)
    (node type d : Node) (hnode : node ∈ root.preorder) (hkind : DeclaresObjects node)
    (htype : node.child? .type = some type) (hd : d ∈ node.childrenWith .declarator)
    (hqualifiers : ∀ q ∈ src.qualifierTexts node.children, q ∈ qualifiers)
    (hnamed : NamesType src root type) (hname : src.typeName type ∉ qualifiers)
    (hfree : FreeOf (src.typeName type)) (k : Nat) (sizes : List Text) (name : Text)
    (hshape : Declarator.ofNode src d = .pointers k (.arrays (.name name) sizes))
    (hsizes : ∀ size ∈ sizes, (sizeLiteral? size).isSome = true) (hk : k + 4 ≤ 64) :
    ∃ suffix kind t,
      (Declarator.ofNode src d).suffix? = some suffix ∧
      (src.registry root).resolve {} (src.typeSpelling type) = ⟨t, none⟩ ∧
      ⟨name, kind, withSuffix (src.baseAmong node.children type) suffix,
        slices sizes.length ++ pointerDescriptor (src.registry root) (src.typeSpelling type) t k,
        none⟩ ∈ described ∧
      (k = 0 ∨ src.typeSpelling type ≠ "void".toList ∧
          (src.typeSpelling type = "char".toList ∨
            (src.registry root).namesFunction (src.typeSpelling type) = false) ∧
          Pointee.ofDescriptor t = .value →
        slices sizes.length ++ pointerDescriptor (src.registry root) (src.typeSpelling type) t k =
          slices (sizes.length + k) ++ t) := by
  have hreg : ∀ name ∈ (src.registry root).names, ∀ c ∈ name, isWordChar c = true :=
    fun name hname c hc => isWordChar_of_mem_names hnames hname hc
  have htypeMem : type ∈ root.preorder :=
    Node.mem_preorder_of_mem_children hnode (List.mem_of_find?_eq_some htype)
  obtain ⟨hbase, t, ht⟩ := isBase_typeSpelling hnames htypeMem hnamed hname hfree
  obtain ⟨decls, hscan, rfl⟩ := Option.map_eq_some_iff.1 hdescribe
  obtain ⟨suffix, kind, hsuffix, hmem⟩ := exists_recorded hscan hnode hkind htype hd
  obtain ⟨digits, hdigits, hlength, hrendered⟩ :=
    Declarator.exists_suffix_object hsizes (hshape ▸ hsuffix)
  have hresolve := resolve_object hreg hbase ht hqualifiers hk hdigits
  refine ⟨suffix, kind, t, hsuffix, ?_, ?_, fun hslices => ?_⟩
  · rw [Registry.resolve_eq_iff]
    exact Registry.descend_ok_of_le _ rfl (by decide) ht
  · rw [Registry.describeAll_eq]
    refine List.mem_map.2 ⟨_, hmem, ?_⟩
    have hdeclared : (Declarator.ofNode src d).declaredName = name := by
      rw [hshape, Declarator.declaredName_pointers, Declarator.declaredName_arrays]
      rfl
    rw [Declaration.described, declare, hdeclared, baseAmong, hrendered, hresolve, hlength]
    rfl
  · rw [pointerDescriptor_eq_slices hslices, ← List.append_assoc, slices_add]

/-- Pointers to a structure that is defined behind them. -/
def nodeListSource : Source :=
  ⟨"lib/list-1.c".toList, "const node *list[0x10]; typedef struct \x7b int x; \x7d node;".toList⟩

/-- The type of the pointers in `nodeListSource`. -/
def nodeListType : Node := .onLine .name (some .type) 6 10 []

/-- The declarator of the pointers in `nodeListSource`. -/
def nodeListDeclarator : Node :=
  .onLine .pointer (some .declarator) 11 22 [
    .onLine .array (some .declarator) 12 22 [
      .onLine .name (some .declarator) 12 16 [], .onLine .other (some .size) 17 21 []]]

/-- The declaration of the pointers in `nodeListSource`. -/
def nodeListNode : Node :=
  .onLine .declaration none 0 23 [.onLine .qualifier none 0 5 [], nodeListType, nodeListDeclarator]

/-- The tree of `nodeListSource`. -/
def nodeListTree : Node :=
  .onLine .other none 0 55 [
    nodeListNode,
    .onLine .typedef none 24 55 [
      .onLine (.aggregate .struct) (some .type) 32 49 [
        .onLine .other (some .body) 39 49 [
          .onLine .fieldDeclaration none 41 47 [
            .onLine .primitiveType (some .type) 41 44 [],
            .onLine .name (some .declarator) 45 46 []]]],
      .onLine .name (some .declarator) 50 54 []]]

/-- A pointer in `nodeListSource` is a slice of slices. -/
theorem describe_object_list :
    ∃ suffix kind t, (Declarator.ofNode nodeListSource nodeListDeclarator).suffix? = some suffix ∧
      (nodeListSource.registry nodeListTree).resolve {} "node".toList = ⟨t, none⟩ ∧
      ⟨"list".toList, kind, withSuffix "const node".toList suffix,
        slices 1 ++ pointerDescriptor (nodeListSource.registry nodeListTree) "node".toList t 1,
        none⟩ ∈ [
          Described.mk "list".toList .variable "const node *[16]".toList "[][]node".toList none,
          ⟨"node".toList, .typedef, "struct __struct_at_lib_list_1_c_1_33_".toList,
            "__struct_at_lib_list_1_c_1_33_".toList, none⟩,
          ⟨"x".toList, .field, "int".toList, "int".toList, none⟩] ∧
      (1 = 0 ∨ "node".toList ≠ "void".toList ∧
          ("node".toList = "char".toList ∨
            (nodeListSource.registry nodeListTree).namesFunction "node".toList = false) ∧
          Pointee.ofDescriptor t = .value →
        slices 1 ++ pointerDescriptor (nodeListSource.registry nodeListTree) "node".toList t 1 =
          slices 2 ++ t) := by
  have hchild : nodeListNode ∈ nodeListTree.children := by simp [nodeListTree, Node.onLine]
  exact describe_object nodeListSource nodeListTree _ (by decide +kernel)
    ⟨by decide +kernel, by decide +kernel⟩ nodeListNode nodeListType nodeListDeclarator
    (Node.mem_preorder_of_mem_children (Node.mem_preorder_self _) hchild) (.inl rfl) rfl
    (by simp [nodeListNode, nodeListDeclarator, Node.onLine, Node.childrenWith])
    (by decide +kernel) (.inr ⟨rfl, .inl (by decide +kernel)⟩) (by decide +kernel)
    (by decide +kernel) 1 ["0x10".toList] "list".toList (by rfl) (by decide +kernel) (by decide)

/-- An array of structures without a tag, in a file whose name gives them the name of another. -/
def underscoreSource : Source := ⟨"_locale_struct.c".toList, "struct \x7b int x; \x7d a[3];".toList⟩

/-- The type of the array in `underscoreSource`. -/
def underscoreType : Node :=
  .onLine (.aggregate .struct) (some .type) 0 17 [
    .onLine .other (some .body) 7 17 [
      .onLine .fieldDeclaration none 9 15 [
        .onLine .primitiveType (some .type) 9 12 [],
        .onLine .name (some .declarator) 13 14 []]]]

/-- The declarator of the array in `underscoreSource`. -/
def underscoreDeclarator : Node :=
  .onLine .array (some .declarator) 18 22 [
    .onLine .name (some .declarator) 18 19 [], .onLine .other (some .size) 20 21 []]

/-- The declaration that `underscoreSource` consists of. -/
def underscoreNode : Node := .onLine .declaration none 0 23 [underscoreType, underscoreDeclarator]

/-- The generated name holds a text of a system header that the path does not hold, and the array
is described as a number. -/
theorem describe_of_underscore_path :
    NamesWords underscoreSource underscoreNode ∧
      NamesType underscoreSource underscoreNode underscoreType ∧
      FreeOf underscoreSource.file ∧
      underscoreSource.typeName underscoreType ∉ qualifiers ∧
      Declarator.ofNode underscoreSource underscoreDeclarator =
        .arrays (.name "a".toList) ["3".toList] ∧
      (underscoreSource.registry underscoreNode).resolve {}
        (underscoreSource.typeSpelling underscoreType) = ⟨"int".toList, none⟩ ∧
      underscoreSource.describe {} underscoreNode = some [
        ⟨"a".toList, .variable, "struct __struct_at__locale_struct_c_1_1_ [3]".toList,
          "int".toList, none⟩,
        ⟨"x".toList, .field, "int".toList, "int".toList, none⟩] ∧
      "int".toList ≠ slices 1 ++ "int".toList := by
  refine ⟨⟨by decide +kernel, by decide +kernel⟩, .inl ⟨.struct, rfl⟩, by decide +kernel,
    by decide +kernel, by rfl, by decide +kernel, by decide +kernel, by decide +kernel⟩

end Source

end CSpelling

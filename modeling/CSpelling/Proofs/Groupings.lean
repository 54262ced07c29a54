import CSpelling.Proofs.Joining
import CSpelling.Proofs.Rendering

/-!
# Function types among declarators

A declarator that puts pointers, arrays, functions and parentheses around a name is rendered with
all its parentheses. So a recorded spelling holds two kinds of them: those around the parameters of
a function, and groupings, which C needs around a pointer inside of an array or a function and
allows anywhere else. The test for function types passes over the grouping `(*)` only.

What a declarator adds begins with a star, a bracket or a parenthesis (`mem_head?_suffix`), so a
grouping makes a marker just if it holds a single pointer around the name (`marker_suffix_iff`). It
follows along the declarator (`isFunction_suffix_append`) that a recorded spelling is taken for a
function type just if there is a function on the way to the name or another grouping
(`isFunction_recorded`).
-/

namespace CSpelling

open Text CSpelling.Normal

/-! ## Parentheses that make no marker -/

theorem isFunction_cons {c : Char} {s : Text} : isFunction (c :: s) = true ↔
    c = '(' ∧ ¬['*', ')'] <+: s ∨ isFunction s = true := by
  rw [← not_iff_not, Bool.not_eq_true, isFunction_eq_false_iff, along_cons,
    ← isFunction_eq_false_iff]
  simp

theorem isFunction_append_of_not_mem {s : Text} (h : '(' ∉ s) (t : Text) :
    isFunction (s ++ t) = isFunction t := by
  induction s with
  | nil => rfl
  | cons c rest ih =>
    obtain ⟨hc, hrest⟩ := not_or.1 (mt List.mem_cons.2 h)
    rw [Bool.eq_iff_iff, List.cons_append, isFunction_cons, ih hrest, or_iff_right]
    exact fun hopen => hc hopen.1.symm

/-! ## Recorded declarators -/

namespace Source

variable {src : Source} {root node type d : Node} {decls : List Declaration}

/-- The node declares objects or typedefs, one for each declarator. -/
def DeclaresNames (node : Node) : Prop := node.kind = .typedef ∨ DeclaresObjects node

/-- A declarator with a name makes one typedef, whatever else it says of the type. -/
theorem exists_typedefFindings {base suffix : Text}
    (hsuffix : (Declarator.ofNode src d).suffix? = some suffix)
    (hname : (Declarator.ofNode src d).declaredName ≠ []) :
    ∃ finding, src.typedefFindings base type d = [some finding] ∧
      finding.declaration? = some (declare base .typedef d (Declarator.ofNode src d) suffix) := by
  have hempty : (declare base .typedef d (Declarator.ofNode src d) suffix).name.isEmpty = false :=
    List.isEmpty_eq_false_iff.2 hname
  simp only [typedefFindings, hsuffix, hempty, Bool.false_eq_true, if_false]
  split_ifs <;> exact ⟨_, rfl, rfl⟩

/-- **Every declarator is recorded**, that of a typedef if it has a name. -/
theorem exists_recorded_name (hscan : src.scan root = some decls) (hnode : node ∈ root.preorder)
    (hkind : DeclaresNames node) (htype : node.child? .type = some type)
    (hd : d ∈ node.childrenWith .declarator) :
    ∃ suffix, (Declarator.ofNode src d).suffix? = some suffix ∧
      ((node.kind = .typedef → (Declarator.ofNode src d).declaredName ≠ []) →
        ∃ kind, declare (src.baseAmong node.children type) kind d (Declarator.ofNode src d) suffix ∈
          decls) := by
  rcases hkind with hkind | hobject
  · obtain ⟨findings, hfindings, rfl⟩ := scan_eq_some_iff.1 hscan
    have hmade {finding : Option Finding}
        (h : finding ∈ src.typedefFindings (src.baseAmong node.children type) type d) :
        ∃ f ∈ findings, some f = finding := by
      have hfound : finding ∈ src.nodeFindings node := by
        simp only [nodeFindings, hkind, declaratorFindings, htype]
        exact List.mem_flatMap.2 ⟨d, hd, h⟩
      have hmem := mem_findings hnode hfound
      rwa [hfindings, List.mem_map] at hmem
    cases hsuffix : (Declarator.ofNode src d).suffix? with
    | none =>
      have hnone : none ∈ src.typedefFindings (src.baseAmong node.children type) type d := by
        simp [typedefFindings, hsuffix]
      obtain ⟨f, -, hf⟩ := hmade hnone
      cases hf
    | some suffix =>
      refine ⟨suffix, rfl, fun hname => ⟨(.typedef : DeclarationKind), ?_⟩⟩
      obtain ⟨finding, hone, hdeclared⟩ := exists_typedefFindings hsuffix (hname hkind)
      obtain ⟨f, hf, heq⟩ := hmade (hone ▸ List.mem_singleton_self _)
      exact List.mem_filterMap.2 ⟨f, hf, by rw [Option.some.inj heq, hdeclared]⟩
  · obtain ⟨suffix, kind, hsuffix, hmem⟩ := exists_recorded hscan hnode hobject htype hd
    exact ⟨suffix, hsuffix, fun _ => ⟨kind, hmem⟩⟩

end Source

/-! ## Functions and groupings -/

namespace Declarator

/-- Pointers, arrays, functions and parentheses around a name; array sizes are integer constants or
left out. -/
def isBuilt : Declarator → Bool
  | .name _ => true
  | .pointer inner => inner.isBuilt
  | .array inner size => inner.isBuilt && (size.isEmpty || (sizeLiteral? size).isSome)
  | .function inner _ => inner.isBuilt
  | .parenthesized inner => inner.isBuilt
  | _ => false

/-- There is a function on the way to the name. -/
def hasFunction : Declarator → Bool
  | .pointer inner => inner.hasFunction
  | .array inner _ => inner.hasFunction
  | .function _ _ => true
  | .parenthesized inner => inner.hasFunction
  | _ => false

/-- A single pointer around a name. -/
def isPlainPointer : Declarator → Bool
  | .pointer (.name _) => true
  | _ => false

/-- There are parentheses on the way to the name, around more or less than a single pointer. -/
def hasGroup : Declarator → Bool
  | .pointer inner => inner.hasGroup
  | .array inner _ => inner.hasGroup
  | .function inner _ => inner.hasGroup
  | .parenthesized inner => !inner.isPlainPointer || inner.hasGroup
  | _ => false

/-- No parameters on the way to the name make a marker with their parentheses. -/
def MakesNoMarker : Declarator → Prop
  | .pointer inner => inner.MakesNoMarker
  | .array inner _ => inner.MakesNoMarker
  | .function inner parameters => inner.MakesNoMarker ∧ ∀ fields ∈ parameterTexts? parameters,
      ¬['*', ')'] <+: listSeparator.intercalate fields ++ [')']
  | .parenthesized inner => inner.MakesNoMarker
  | _ => True

/-! ## Groupings in what a declarator adds -/

theorem exists_suffix_array {inner : Declarator} {size s : Text}
    (h : (array inner size).suffix? = some s) :
    ∃ before digits, inner.suffix? = some before ∧ sizeText? size = some digits ∧
      s = before ++ '[' :: (digits ++ [']']) := by
  obtain ⟨before, hbefore, h⟩ := Option.bind_eq_some_iff.1 h
  obtain ⟨digits, hdigits, h⟩ := Option.bind_eq_some_iff.1 h
  exact ⟨before, digits, hbefore, hdigits, by rw [← Option.some.inj h]; simp⟩

theorem exists_suffix_function {inner : Declarator} {parameters : List Parameter} {s : Text}
    (h : (function inner parameters).suffix? = some s) :
    ∃ before fields, inner.suffix? = some before ∧ parameterTexts? parameters = some fields ∧
      s = before ++ '(' :: (listSeparator.intercalate fields ++ [')']) := by
  obtain ⟨before, hbefore, h⟩ := Option.bind_eq_some_iff.1 h
  obtain ⟨fields, hfields, h⟩ := Option.bind_eq_some_iff.1 h
  exact ⟨before, fields, hbefore, hfields, by rw [← Option.some.inj h]; simp [listSeparator]⟩

/-- What a declarator adds begins with a star, a bracket or a parenthesis. -/
theorem mem_head?_suffix (d : Declarator) {s : Text} (hd : d.isBuilt = true)
    (hs : d.suffix? = some s) : ∀ c ∈ s.head?, c ∈ ['*', '[', '('] := by
  -- An opening mark behind another declarator comes first if that adds nothing.
  have happend {before rest : Text} {c : Char} (hc : c ∈ ['*', '[', '('])
      (hbefore : ∀ c ∈ before.head?, c ∈ ['*', '[', '(']) :
      ∀ e ∈ (before ++ c :: rest).head?, e ∈ ['*', '[', '('] := by
    cases before with
    | nil => simpa using hc
    | cons e tail => exact hbefore
  cases d with
  | name _ =>
    obtain rfl : [] = s := Option.some.inj hs
    simp
  | pointer inner =>
    obtain ⟨before, -, rfl⟩ := Option.map_eq_some_iff.1 hs
    simp
  | array inner size =>
    obtain ⟨hinner, -⟩ := Bool.and_eq_true_iff.1 hd
    obtain ⟨before, digits, hbefore, -, rfl⟩ := exists_suffix_array hs
    exact happend (by simp) (mem_head?_suffix inner hinner hbefore)
  | function inner parameters =>
    obtain ⟨before, fields, hbefore, -, rfl⟩ := exists_suffix_function hs
    exact happend (by simp) (mem_head?_suffix inner hd hbefore)
  | parenthesized inner =>
    obtain ⟨before, -, rfl⟩ := Option.map_eq_some_iff.1 hs
    simp
  | _ => cases hd

/-- What a declarator adds does not begin like the end of a marker. -/
theorem not_prefix_suffix (d : Declarator) {s : Text} (hd : d.isBuilt = true)
    (hs : d.suffix? = some s) : ¬['*', ')'] <+: s := by
  -- Behind another declarator stands an opening parenthesis or bracket.
  have happend {before rest : Text} {c : Char} (hc : c ∈ ['[', '('])
      (hbefore : ¬['*', ')'] <+: before) : ¬['*', ')'] <+: before ++ c :: rest := by
    intro h
    rcases prefix_pair_append h with h | ⟨-, h⟩ | ⟨-, h⟩
    · exact hbefore h
    · obtain rfl : c = ')' := Option.some.inj h
      simp at hc
    · obtain rfl := (List.cons_prefix_cons.1 h).1
      simp at hc
  cases d with
  | name _ =>
    obtain rfl : [] = s := Option.some.inj hs
    simp
  | pointer inner =>
    obtain ⟨before, hbefore, rfl⟩ := Option.map_eq_some_iff.1 hs
    intro hpre
    have hhead : before.head? = some ')' := by
      obtain ⟨rest, hrest⟩ := (List.cons_prefix_cons.1 hpre).2
      rw [← hrest]
      rfl
    have hmem := mem_head?_suffix inner hd hbefore ')' hhead
    simp at hmem
  | array inner size =>
    obtain ⟨hinner, -⟩ := Bool.and_eq_true_iff.1 hd
    obtain ⟨before, digits, hbefore, -, rfl⟩ := exists_suffix_array hs
    exact happend (by simp) (not_prefix_suffix inner hinner hbefore)
  | function inner parameters =>
    obtain ⟨before, fields, hbefore, -, rfl⟩ := exists_suffix_function hs
    exact happend (by simp) (not_prefix_suffix inner hd hbefore)
  | parenthesized inner =>
    obtain ⟨before, -, rfl⟩ := Option.map_eq_some_iff.1 hs
    exact fun hpre => absurd (List.cons_prefix_cons.1 hpre).1 (by decide)
  | _ => cases hd

/-- A declarator adds nothing just if it is a name. -/
theorem suffix_eq_nil_iff {d : Declarator} {s : Text} (hd : d.isBuilt = true)
    (hs : d.suffix? = some s) : s = [] ↔ ∃ n, d = .name n := by
  cases d with
  | name n =>
    obtain rfl : [] = s := Option.some.inj hs
    simp
  | pointer _ =>
    obtain ⟨_, -, rfl⟩ := Option.map_eq_some_iff.1 hs
    simp
  | array _ _ =>
    obtain ⟨_, _, -, -, rfl⟩ := exists_suffix_array hs
    simp
  | function _ _ =>
    obtain ⟨_, _, -, -, rfl⟩ := exists_suffix_function hs
    simp
  | parenthesized _ =>
    obtain ⟨_, -, rfl⟩ := Option.map_eq_some_iff.1 hs
    simp
  | _ => cases hd

/-- A declarator adds a star just if it is a single pointer around a name. -/
theorem suffix_eq_star_iff {d : Declarator} {s : Text} (hd : d.isBuilt = true)
    (hs : d.suffix? = some s) : s = ['*'] ↔ d.isPlainPointer = true := by
  have hnot {c : Char} {before after : Text} (hc : c ≠ '*') : before ++ c :: after ≠ ['*'] :=
    fun heq => by
      have hmem : c ∈ ['*'] := by
        rw [← heq]
        simp
      exact hc (List.mem_singleton.1 hmem)
  cases d with
  | name _ =>
    obtain rfl : [] = s := Option.some.inj hs
    simp [isPlainPointer]
  | pointer inner =>
    obtain ⟨before, hbefore, rfl⟩ := Option.map_eq_some_iff.1 hs
    have hinner : inner.isBuilt = true := hd
    rw [List.cons.injEq, and_iff_right rfl, suffix_eq_nil_iff hinner hbefore]
    cases inner <;> simp [isPlainPointer]
  | array _ _ =>
    obtain ⟨_, _, -, -, rfl⟩ := exists_suffix_array hs
    simp [isPlainPointer, hnot]
  | function _ _ =>
    obtain ⟨_, _, -, -, rfl⟩ := exists_suffix_function hs
    simp [isPlainPointer, hnot]
  | parenthesized _ =>
    obtain ⟨_, -, rfl⟩ := Option.map_eq_some_iff.1 hs
    simp [isPlainPointer]
  | _ => cases hd

/-- **A grouping makes a marker just around a single pointer.** -/
theorem marker_suffix_iff {d : Declarator} {s : Text} (hd : d.isBuilt = true)
    (hs : d.suffix? = some s) (after : Text) :
    ['*', ')'] <+: s ++ ')' :: after ↔ d.isPlainPointer = true := by
  rw [← suffix_eq_star_iff hd hs]
  constructor
  · intro h
    rcases prefix_pair_append h with h | ⟨h, -⟩ | ⟨-, h⟩
    · exact absurd h (not_prefix_suffix d hd hs)
    · exact h
    · exact absurd (List.cons_prefix_cons.1 h).1 (by decide)
  · rintro rfl
    exact ⟨after, rfl⟩

/-- **The parentheses that make no marker** are those around parameters and the groupings. -/
theorem isFunction_suffix_append (d : Declarator) {s : Text} (hd : d.isBuilt = true)
    (hparameters : d.MakesNoMarker) (hs : d.suffix? = some s) (after : Text) :
    isFunction (s ++ after) = true ↔
      (d.hasFunction = true ∨ d.hasGroup = true) ∨ isFunction after = true := by
  cases d with
  | name _ =>
    obtain rfl : [] = s := Option.some.inj hs
    simp [hasFunction, hasGroup]
  | pointer inner =>
    obtain ⟨before, hbefore, rfl⟩ := Option.map_eq_some_iff.1 hs
    rw [List.cons_append, isFunction_cons, isFunction_suffix_append inner hd hparameters hbefore]
    simp [hasFunction, hasGroup]
  | array inner size =>
    obtain ⟨hinner, hsize⟩ := Bool.and_eq_true_iff.1 hd
    obtain ⟨before, digits, hbefore, hdigits, rfl⟩ := exists_suffix_array hs
    have hopen : '(' ∉ '[' :: (digits ++ [']']) := fun hmem => by
      have hmem : '(' ∈ digits := by simpa using hmem
      simpa using isDigit_of_mem_sizeText? hsize hdigits hmem
    rw [List.append_assoc, isFunction_suffix_append inner hinner hparameters hbefore,
      isFunction_append_of_not_mem hopen, hasFunction, hasGroup]
  | function inner parameters =>
    obtain ⟨before, fields, hbefore, hfields, rfl⟩ := exists_suffix_function hs
    have hopen : ¬['*', ')'] <+: listSeparator.intercalate fields ++ [')'] ++ after := by
      intro h
      rcases prefix_pair_append h with h | ⟨h, -⟩ | ⟨h, -⟩
      · exact hparameters.2 fields hfields h
      · simpa using congrArg List.getLast? h
      · simp at h
    have hnot : isFunction ('(' :: (listSeparator.intercalate fields ++ [')'] ++ after)) = true :=
      isFunction_cons.2 (.inl ⟨rfl, hopen⟩)
    rw [List.append_assoc, isFunction_suffix_append inner hd hparameters.1 hbefore,
      List.cons_append, hnot]
    simp [hasFunction]
  | parenthesized inner =>
    obtain ⟨before, hbefore, rfl⟩ := Option.map_eq_some_iff.1 hs
    have hinner : inner.isBuilt = true := hd
    have hgroup : '(' :: before ++ [')'] ++ after = '(' :: (before ++ ')' :: after) := by simp
    rw [hgroup, isFunction_cons, marker_suffix_iff hinner hbefore,
      isFunction_suffix_append inner hinner hparameters hbefore, isFunction_cons]
    simp only [hasFunction, hasGroup]
    cases inner.isPlainPointer <;> simp
  | _ => cases hd

/-! ## Recorded spellings -/

/-- **A recorded spelling is taken for a function type just if there is a function or a grouping on
the way to the name.** The type that a declaration begins with is spelled without a parenthesis, and
the declarator puts pointers, arrays, functions and parentheses around a name. A grouping around a
single pointer does not count; other groupings do, although they do not change the type. -/
theorem isFunction_recorded (src : Source) (root : Node) (decls : List Declaration)
    (hscan : src.scan root = some decls) (node type d : Node) (hnode : node ∈ root.preorder)
    (hkind : Source.DeclaresNames node) (htype : node.child? .type = some type)
    (hd : d ∈ node.childrenWith .declarator) (hbase : '(' ∉ src.baseAmong node.children type)
    (hbuilt : (ofNode src d).isBuilt = true) (hparameters : (ofNode src d).MakesNoMarker) :
    ∃ suffix, (ofNode src d).suffix? = some suffix ∧
      ((node.kind = .typedef → (ofNode src d).declaredName ≠ []) → ∃ kind,
        Source.declare (src.baseAmong node.children type) kind d (ofNode src d) suffix ∈ decls) ∧
      (isFunction (withSuffix (src.baseAmong node.children type) suffix) = true ↔
        (ofNode src d).hasFunction = true ∨ (ofNode src d).hasGroup = true) := by
  obtain ⟨suffix, hsuffix, hrecorded⟩ :=
    Source.exists_recorded_name hscan hnode hkind htype hd
  refine ⟨suffix, hsuffix, hrecorded, ?_⟩
  have hadded := isFunction_suffix_append (ofNode src d) hbuilt hparameters hsuffix []
  have hnil : ¬isFunction [] = true := by decide
  rw [List.append_nil, or_iff_left hnil] at hadded
  rw [← hadded, withSuffix]
  split_ifs with hempty
  · rw [List.isEmpty_iff.1 hempty, isFunction_of_not_mem hbase]
    exact iff_of_false (by simp) hnil
  · have hopen : '(' ∉ src.baseAmong node.children type ++ [' '] := by simpa using hbase
    rw [List.append_cons, isFunction_append_of_not_mem hopen]

/-- A variable that is a pointer to a pointer, in parentheses. -/
def groupSource : Source := ⟨"input.c".toList, "int (**x);".toList⟩

/-- The type of the variable in `groupSource`. -/
def groupType : Node := .onLine .primitiveType (some .type) 0 3 []

/-- The declarator of the variable in `groupSource`. -/
def groupDeclarator : Node :=
  .onLine .parenthesized (some .declarator) 4 9 [
    .onLine .pointer none 5 8 [
      .onLine .pointer (some .declarator) 6 8 [.onLine .name (some .declarator) 7 8 []]]]

/-- The declaration that `groupSource` consists of. -/
def groupNode : Node := .onLine .declaration none 0 10 [groupType, groupDeclarator]

/-- The variable is recorded as one, and its spelling is taken for a function type although there is
no function. -/
theorem isFunction_recorded_group :
    (∃ suffix, (ofNode groupSource groupDeclarator).suffix? = some suffix ∧
      ((groupNode.kind = .typedef → (ofNode groupSource groupDeclarator).declaredName ≠ []) →
        ∃ kind, Source.declare "int".toList kind groupDeclarator
          (ofNode groupSource groupDeclarator) suffix ∈
            [⟨"x".toList, .variable, "int (**)".toList, ⟨1, 4, 1, 9⟩⟩]) ∧
      (isFunction (withSuffix "int".toList suffix) = true ↔
        (ofNode groupSource groupDeclarator).hasFunction = true ∨
          (ofNode groupSource groupDeclarator).hasGroup = true)) ∧
      (ofNode groupSource groupDeclarator).hasFunction = false ∧
      isFunction "int (**)".toList = true := by
  have hnode : groupNode ∈ groupNode.preorder := by simp [groupNode, Node.onLine, Node.preorder]
  have hd : groupDeclarator ∈ groupNode.childrenWith .declarator := by
    simp [groupNode, groupType, groupDeclarator, Node.onLine, Node.childrenWith]
  exact ⟨isFunction_recorded groupSource groupNode _ (by rfl) groupNode groupType groupDeclarator
    hnode (.inr (.inl rfl)) rfl hd (by decide +kernel) (by rfl) (by trivial), by rfl,
    by decide +kernel⟩

end Declarator

end CSpelling

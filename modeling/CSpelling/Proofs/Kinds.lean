import CSpelling.Proofs.Scanning

/-!
# Kinds of recorded objects

Whether a declarator declares a function is found on the way from the outside to the name, and its
text is made on the way from the name to the outside. `Declarator.around?` keeps apart what the text
has in front of the name and behind it, and `Declarator.behindName` drops the parentheses around
nothing but the name.

In the declarators of C, no array and no function is made of a pointer without parentheses
(`Declarator.IsGrammatical`). Of such a declarator both ways tell the same: the recorded kind is
that of a function exactly if an opening parenthesis follows the name (`Source.recorded_kind`).
-/

namespace CSpelling

open Text

namespace Declarator

/-! ## Texts around names -/

/-- What the declarator adds to the spelling of a type: in front of the name, and behind it. -/
def around? : Declarator → Option (Text × Text)
  | .absent => some ([], [])
  | .name _ => some ([], [])
  | .pointer inner => inner.around?.map fun text => ('*' :: text.1, text.2)
  | .array inner size => do
    let text ← inner.around?
    let digits ← sizeText? size
    some (text.1, text.2 ++ '[' :: digits ++ [']'])
  | .function inner parameters => do
    let text ← inner.around?
    let fields ← parameterTexts? parameters
    some (text.1, text.2 ++ '(' :: [',', ' '].intercalate fields ++ [')'])
  | .parenthesized inner => inner.around?.map fun text => ('(' :: text.1, text.2 ++ [')'])
  | .decorated inner => inner.around?
  | .foreign inner => inner.around?

/-- The name leaves nothing between the two texts. -/
theorem suffix?_eq_around? (d : Declarator) :
    d.suffix? = d.around?.map fun text => text.1 ++ text.2 := by
  fun_induction around? d with
  | case1 => rfl
  | case2 s => rfl
  | case3 inner ih => simp [suffix?, ih, Function.comp_def]
  | case4 inner size ih =>
    rw [suffix?, ih]
    cases hinner : inner.around? <;> cases hsize : sizeText? size <;> simp
  | case5 inner parameters ih =>
    rw [suffix?, ih]
    cases hinner : inner.around? <;> cases hfields : parameterTexts? parameters <;> simp
  | case6 inner ih => simp [suffix?, ih, Function.comp_def]
  | case7 inner ih => rw [suffix?, ih]
  | case8 inner ih => rw [suffix?, ih]

/-- What follows a name, without the parentheses around nothing but the name; what stands in front
of the name is read backwards. -/
def ungrouped : Text → Text → Text
  | '(' :: before, ')' :: after => ungrouped before after
  | _, after => after

/-- What follows the name between two texts, without the parentheses around nothing but the
name. -/
def behindName (before after : Text) : Text := ungrouped before.reverse after

/-- The kind that a text shows an object to be of: a function if the parameters follow the name. -/
def shownKind (before after : Text) : DeclarationKind :=
  if (behindName before after).head? = some '(' then .function else .variable

theorem around?_array_eq_some_iff {inner : Declarator} {size before after : Text} :
    (array inner size).around? = some (before, after) ↔
      ∃ behind digits, inner.around? = some (before, behind) ∧ sizeText? size = some digits ∧
        after = behind ++ '[' :: digits ++ [']'] := by
  simp only [around?, Option.bind_eq_bind, Option.bind_eq_some_iff, Option.some.injEq,
    Prod.mk.injEq]
  constructor
  · rintro ⟨⟨before, behind⟩, hinner, digits, hdigits, rfl, rfl⟩
    exact ⟨behind, digits, hinner, hdigits, rfl⟩
  · rintro ⟨behind, digits, hinner, hdigits, rfl⟩
    exact ⟨(before, behind), hinner, digits, hdigits, rfl, rfl⟩

theorem around?_function_eq_some_iff {inner : Declarator} {parameters : List Parameter}
    {before after : Text} : (function inner parameters).around? = some (before, after) ↔
      ∃ behind fields, inner.around? = some (before, behind) ∧
        parameterTexts? parameters = some fields ∧
        after = behind ++ '(' :: [',', ' '].intercalate fields ++ [')'] := by
  simp only [around?, Option.bind_eq_bind, Option.bind_eq_some_iff, Option.some.injEq,
    Prod.mk.injEq]
  constructor
  · rintro ⟨⟨before, behind⟩, hinner, fields, hfields, rfl, rfl⟩
    exact ⟨behind, fields, hinner, hfields, rfl⟩
  · rintro ⟨behind, fields, hinner, hfields, rfl⟩
    exact ⟨(before, behind), hinner, fields, hfields, rfl, rfl⟩

theorem ungrouped_of_head? {after : Text} (h : after.head? ≠ some ')') (before : Text) :
    ungrouped before after = after := by
  rw [ungrouped]
  rintro before after' - rfl
  exact h rfl

theorem ungrouped_star (before after : Text) : ungrouped ('*' :: before) after = after := by
  rw [ungrouped]
  rintro before' after' h -
  cases h

/-! ## Grammatical declarators -/

/-- The declarator is a pointer, perhaps with attributes or an initial value. -/
def isPointer : Declarator → Bool
  | .pointer _ => true
  | .decorated inner => inner.isPointer
  | _ => false

/-- The declarator is built around a name as the grammar of C has it: a pointer that is made into an
array or a function stands in parentheses. -/
def IsGrammatical : Declarator → Prop
  | .absent => False
  | .name _ => True
  | .pointer inner => inner.IsGrammatical
  | .array inner _ => inner.isPointer = false ∧ inner.IsGrammatical
  | .function inner _ => inner.isPointer = false ∧ inner.IsGrammatical
  | .parenthesized inner => inner.IsGrammatical
  | .decorated inner => inner.IsGrammatical
  | .foreign _ => False

instance decidableIsGrammatical : (d : Declarator) → Decidable d.IsGrammatical
  | .absent => inferInstanceAs (Decidable False)
  | .name _ => inferInstanceAs (Decidable True)
  | .pointer inner => decidableIsGrammatical inner
  | .array inner _ =>
    have := decidableIsGrammatical inner
    inferInstanceAs (Decidable (inner.isPointer = false ∧ inner.IsGrammatical))
  | .function inner _ =>
    have := decidableIsGrammatical inner
    inferInstanceAs (Decidable (inner.isPointer = false ∧ inner.IsGrammatical))
  | .parenthesized inner => decidableIsGrammatical inner
  | .decorated inner => decidableIsGrammatical inner
  | .foreign _ => inferInstanceAs (Decidable False)

/-! ## The derivation next to the name -/

/-- The derivation next to the name shows in what follows the name. The declarator stands inside of
others: `before`, read backwards, and `after` are their texts, and `nearest` is what they tell. -/
theorem head?_ungrouped_iff {nearest : Bool} {d : Declarator} {before after front behind : Text}
    (hd : d.IsGrammatical) (htext : d.around? = some (front, behind))
    (hnearest : (ungrouped before after).head? = some '(' ↔ nearest = true)
    (hpointer : d.isPointer = true → after.head? ≠ some '(') :
    (ungrouped (front.reverse ++ before) (behind ++ after)).head? = some '(' ↔
      functionNearest nearest d = true := by
  fun_induction functionNearest nearest d generalizing before after front behind with
  | case1 => exact hd.elim
  | case2 nearest s =>
    obtain ⟨rfl, rfl⟩ := by simpa [around?] using htext
    exact hnearest
  | case3 nearest inner ih =>
    obtain ⟨⟨front, behind⟩, hinner, heq⟩ := Option.map_eq_some_iff.1 htext
    obtain ⟨rfl, rfl⟩ := Prod.mk.inj heq
    have hstar : (ungrouped ('*' :: before) after).head? = some '(' ↔ false = true := by
      simpa [ungrouped_star] using hpointer rfl
    rw [List.reverse_cons, List.append_assoc]
    exact ih hd hinner hstar fun _ => hpointer rfl
  | case4 nearest inner size ih =>
    obtain ⟨behind, digits, hinner, -, rfl⟩ := around?_array_eq_some_iff.1 htext
    have hnone (rest : Text) : (ungrouped before ('[' :: rest)).head? = some '(' ↔ false = true := by
      have hhead : ('[' :: rest).head? ≠ some ')' := by simp
      simp [ungrouped_of_head? hhead]
    rw [List.append_assoc, List.append_assoc]
    exact ih hd.2 hinner (hnone _) fun _ => by simp
  | case5 nearest inner parameters ih =>
    obtain ⟨behind, fields, hinner, -, rfl⟩ := around?_function_eq_some_iff.1 htext
    have hopen (rest : Text) : (ungrouped before ('(' :: rest)).head? = some '(' ↔ true = true := by
      have hhead : ('(' :: rest).head? ≠ some ')' := by simp
      simp [ungrouped_of_head? hhead]
    rw [List.append_assoc, List.append_assoc]
    exact ih hd.2 hinner (hopen _) fun hpointer => absurd hpointer (by simp [hd.1])
  | case6 nearest inner ih =>
    obtain ⟨⟨front, behind⟩, hinner, heq⟩ := Option.map_eq_some_iff.1 htext
    obtain ⟨rfl, rfl⟩ := Prod.mk.inj heq
    rw [List.reverse_cons, List.append_assoc, List.append_assoc]
    exact ih hd hinner hnearest fun _ => by simp
  | case7 nearest inner ih => exact ih hd htext hnearest hpointer
  | case8 nearest inner ih => exact hd.elim

/-- **The text of a declarator shows whether it declares a function.** -/
theorem shownKind_eq {d : Declarator} {before after : Text} (hd : d.IsGrammatical)
    (htext : d.around? = some (before, after)) :
    shownKind before after = if d.declaresFunction then .function else .variable := by
  have h : (ungrouped (before.reverse ++ []) (after ++ [])).head? = some '(' ↔
      functionNearest false d = true :=
    head?_ungrouped_iff hd htext (by simp [ungrouped]) fun _ => by simp
  rw [List.append_nil, List.append_nil] at h
  exact if_congr h rfl rfl

/-- A function of a pointer without parentheses, which the grammar does not have, shows a
function, but the pointer is next to the name. -/
example : shownKind "*".toList "()".toList = .function ∧
    (function (pointer (name "f".toList)) []).declaresFunction = false := by
  decide

end Declarator

namespace Source

variable {src : Source} {root node type d : Node} {decls : List Declaration}

/-- **The kind of a recorded object is the one that its declarator shows**: a function if an opening
parenthesis follows the name, once the parentheses around nothing but the name are dropped, and a
variable otherwise. -/
theorem recorded_kind (hscan : src.scan root = some decls) (hnode : node ∈ root.preorder)
    (hkind : node.kind = .declaration) (htype : node.child? .type = some type)
    (hd : d ∈ node.childrenWith .declarator) (hgrammar : (Declarator.ofNode src d).IsGrammatical) :
    ∃ before after, (Declarator.ofNode src d).around? = some (before, after) ∧
      (Declarator.ofNode src d).suffix? = some (before ++ after) ∧
      let object := declare (src.baseAmong node.children type) (Declarator.shownKind before after) d
        (Declarator.ofNode src d) (before ++ after)
      src.objectFinding (src.baseAmong node.children type) d = some (.declared object) ∧
        object ∈ decls := by
  obtain ⟨findings, hfindings, rfl⟩ := scan_eq_some_iff.1 hscan
  have hmem : src.objectFinding (src.baseAmong node.children type) d ∈ findings.map some := by
    rw [← hfindings]
    refine mem_findings hnode ?_
    simp only [nodeFindings, hkind, declaratorFindings, htype]
    exact List.mem_flatMap.2 ⟨d, hd, List.mem_singleton.2 rfl⟩
  obtain ⟨finding, hfinding, heq⟩ := List.mem_map.1 hmem
  obtain ⟨suffix, hsuffix, hobject⟩ := Option.map_eq_some_iff.1 heq.symm
  obtain ⟨⟨before, after⟩, htext, rfl⟩ := Option.map_eq_some_iff.1
    ((Declarator.suffix?_eq_around? _).symm.trans hsuffix)
  rw [← Declarator.shownKind_eq hgrammar htext] at hobject
  subst hobject
  exact ⟨before, after, htext, hsuffix, heq.symm, List.mem_filterMap.2 ⟨_, hfinding, rfl⟩⟩

/-- A function that returns a pointer, with its name in parentheses twice. -/
def groupedSource : Source := ⟨"input.c".toList, "int *((f))(char);".toList⟩

/-- The type of `groupedSource`. -/
def groupedType : Node := .onLine .primitiveType (some .type) 0 3 []

/-- The declarator of `groupedSource`. -/
def groupedDeclarator : Node :=
  .onLine .pointer (some .declarator) 4 16 [
    .onLine .function (some .declarator) 5 16 [
      .onLine .parenthesized (some .declarator) 5 10 [
        .onLine .parenthesized none 6 9 [.onLine .name none 7 8 []]],
      .onLine .other (some .parameters) 10 16 [
        .onLine .parameter none 11 15 [.onLine .primitiveType (some .type) 11 15 []]]]]

/-- The declaration that `groupedSource` consists of. -/
def groupedNode : Node := .onLine .declaration none 0 17 [groupedType, groupedDeclarator]

/-- The declarator of `groupedSource` shows a function, which is recorded. -/
theorem recorded_kind_grouped :
    (Declarator.ofNode groupedSource groupedDeclarator).IsGrammatical ∧
      ∃ before after,
        (Declarator.ofNode groupedSource groupedDeclarator).around? = some (before, after) ∧
        (Declarator.ofNode groupedSource groupedDeclarator).suffix? = some (before ++ after) ∧
        let object := declare "int".toList (Declarator.shownKind before after) groupedDeclarator
          (Declarator.ofNode groupedSource groupedDeclarator) (before ++ after)
        groupedSource.objectFinding "int".toList groupedDeclarator = some (.declared object) ∧
          object ∈ [⟨"f".toList, .function, "int *(())(char)".toList, ⟨1, 4, 1, 16⟩⟩] := by
  have hgrammar : (Declarator.ofNode groupedSource groupedDeclarator).IsGrammatical := by
    decide +kernel
  have hscan : groupedSource.scan groupedNode =
      some [⟨"f".toList, .function, "int *(())(char)".toList, ⟨1, 4, 1, 16⟩⟩] := by rfl
  have hnode : groupedNode ∈ groupedNode.preorder := by
    simp [groupedNode, Node.onLine, Node.preorder]
  have htype : groupedNode.child? .type = some groupedType := rfl
  have hdeclarator : groupedDeclarator ∈ groupedNode.childrenWith .declarator := by
    simp [groupedNode, groupedType, groupedDeclarator, Node.onLine, Node.childrenWith]
  exact ⟨hgrammar, recorded_kind hscan hnode rfl htype hdeclarator hgrammar⟩

end Source

end CSpelling

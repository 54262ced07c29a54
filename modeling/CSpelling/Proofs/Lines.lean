import CSpelling.Proofs.Messages
import CSpelling.Proofs.Objects
import CSpelling.Proofs.Places

/-!
# The lines of a dump

A dump shows a line for each declaration, if what it shows of the declaration is a line. Names,
descriptors and messages are, if the names in the source and the spellings of types are. A spelling
copies more than names from the source: its words stand beside single spaces
(`Source.isLine_typeSpelling`), but a qualifier, and a size that is no integer constant, are copied
as they stand.

So the dump is made of its lines exactly if no spelling has a line break (`Source.splitOn_dump`),
and if no qualifier and no such size has one, it is.
-/

namespace CSpelling

open Text CSpelling.Normal

variable {s t : Text} {c : Char}

/-! ## Pieces -/

namespace Text

theorem of_mem_splitOnP {p : Char → Bool} (h : t ∈ s.splitOnP p) : ∀ c ∈ t, p c = false := by
  induction s generalizing t with
  | nil =>
    rw [List.splitOnP_nil, List.mem_singleton] at h
    simp [h]
  | cons d rest ih =>
    rw [List.splitOnP_cons_eq_if_modifyHead] at h
    split_ifs at h with hd
    · rcases List.mem_cons.1 h with rfl | h
      · simp
      · exact ih h
    · cases hpieces : rest.splitOnP p with
      | nil => simp [hpieces] at h
      | cons first pieces =>
        rw [hpieces] at h ih
        rcases List.mem_cons.1 h with rfl | h
        · simpa [hd] using ih List.mem_cons_self
        · exact ih (List.mem_cons_of_mem first h)

theorem isLine_of_mem_words (h : t ∈ words s) : IsLine t := fun hmem =>
  absurd (of_mem_splitOnP (List.mem_of_mem_filter h) _ hmem) (by decide)

end Text

/-- The lines stand one below the other, and are found again, if they are lines. -/
theorem splitOn_intercalate_iff {lines : List Text} (hne : lines ≠ []) :
    List.splitOn '\n' (['\n'].intercalate lines) = lines ↔ ∀ line ∈ lines, IsLine line := by
  constructor
  · intro h line hline
    rw [← h, List.splitOn_eq_splitOnP] at hline
    exact isLine_of_forall fun c hc => by simpa using of_mem_splitOnP hline c hc
  · exact fun h => List.splitOn_intercalate '\n' h hne

/-! ## Declarators -/

theorem isLine_withSuffix {base suffix : Text} (hbase : IsLine base) (hsuffix : IsLine suffix) :
    IsLine (withSuffix base suffix) := by
  unfold withSuffix
  split
  · exact hbase
  · exact isLine_append.2 ⟨hbase, isLine_cons.2 ⟨by decide, hsuffix⟩⟩

/-- The text of a size is a line, if it is that of an integer constant or a line already. -/
theorem isLine_sizeText {size digits : Text} (hsize : sizeLiteral? size = none → IsLine size)
    (h : sizeText? size = some digits) : IsLine digits := by
  unfold sizeText? at h
  split at h
  · next hnone =>
    obtain rfl := Option.some.inj h
    exact hsize hnone
  · obtain ⟨n, -, hnumeral⟩ := Option.bind_eq_some_iff.1 h
    simp only [numeral?, Option.ite_none_right_eq_some, Option.some.injEq] at hnumeral
    exact hnumeral.2 ▸ isLine_natText n

namespace Declarator

/-- What the declarator adds to a type is a line. -/
def OnLine (d : Declarator) : Prop := ∀ s, d.suffix? = some s → IsLine s

/-- The spelling of the parameter is a line. -/
def ParameterOnLine (p : Parameter) : Prop := ∀ s, parameterText? p = some s → IsLine s

variable {d : Declarator}

theorem onLine_absent : OnLine .absent := by
  rintro s ⟨⟩
  exact isLine_nil

theorem onLine_name (text : Text) : OnLine (.name text) := by
  rintro s ⟨⟩
  exact isLine_nil

theorem OnLine.pointer (h : d.OnLine) : OnLine (.pointer d) := by
  intro s hs
  obtain ⟨t, ht, rfl⟩ := Option.map_eq_some_iff.1 hs
  exact isLine_cons.2 ⟨by decide, h t ht⟩

theorem OnLine.parenthesized (h : d.OnLine) : OnLine (.parenthesized d) := by
  intro s hs
  obtain ⟨t, ht, rfl⟩ := Option.map_eq_some_iff.1 hs
  exact isLine_cons.2 ⟨by decide, isLine_append.2 ⟨h t ht, by decide⟩⟩

theorem OnLine.array (h : d.OnLine) {size : Text}
    (hsize : sizeLiteral? size = none → IsLine size) : OnLine (.array d size) := by
  intro s hs
  obtain ⟨before, hbefore, hs⟩ := Option.bind_eq_some_iff.1 hs
  obtain ⟨digits, hdigits, hs⟩ := Option.bind_eq_some_iff.1 hs
  obtain rfl := Option.some.inj hs
  simpa using ⟨h before hbefore, isLine_sizeText hsize hdigits⟩

theorem isLine_parameterTexts {parameters : List Parameter}
    (h : ∀ p ∈ parameters, ParameterOnLine p) {fields : List Text}
    (hfields : parameterTexts? parameters = some fields) : ∀ f ∈ fields, IsLine f := by
  induction parameters generalizing fields with
  | nil =>
    obtain rfl : [] = fields := Option.some.inj hfields
    simp
  | cons p rest ih =>
    obtain ⟨field, hfield, hfields⟩ := Option.bind_eq_some_iff.1 hfields
    obtain ⟨others, hothers, hfields⟩ := Option.bind_eq_some_iff.1 hfields
    obtain rfl := Option.some.inj hfields
    obtain ⟨hp, hrest⟩ := List.forall_mem_cons.1 h
    exact List.forall_mem_cons.2 ⟨hp field hfield, ih hrest hothers⟩

theorem OnLine.function (h : d.OnLine) {parameters : List Parameter}
    (hparameters : ∀ p ∈ parameters, ParameterOnLine p) : OnLine (.function d parameters) := by
  intro s hs
  obtain ⟨before, hbefore, hs⟩ := Option.bind_eq_some_iff.1 hs
  obtain ⟨fields, hfields, hs⟩ := Option.bind_eq_some_iff.1 hs
  obtain rfl := Option.some.inj hs
  have hlist := (isLine_intercalate (by decide : IsLine [',', ' '])).2
    (isLine_parameterTexts hparameters hfields)
  simpa using ⟨h before hbefore, hlist⟩

theorem parameterOnLine_variadic : ParameterOnLine .variadic := by
  rintro s ⟨⟩
  decide

theorem OnLine.declared (h : d.OnLine) {base : Text} (hbase : IsLine base) :
    ParameterOnLine (.declared base d) := by
  intro s hs
  obtain ⟨suffix, hsuffix, rfl⟩ := Option.map_eq_some_iff.1 hs
  exact isLine_withSuffix hbase (h suffix hsuffix)

end Declarator

/-! ## Nodes -/

namespace Source

/-- What spellings copy of a node is a line. -/
structure CopiedOnLine (src : Source) (node : Node) : Prop where
  /-- The tag of an aggregate. -/
  tag : (∃ a, node.kind = .aggregate a) → ∀ name, node.child? .name = some name →
    IsLine (src.textOf name)
  /-- A qualifier. -/
  qualifier : node.kind = .qualifier → IsLine (src.textOf node)
  /-- A size that is no integer constant. -/
  size : node.role = some .size → sizeLiteral? (src.textOf node) = none → IsLine (src.textOf node)

variable {src : Source} {node type : Node}

theorem isLine_tag (a : Aggregate)
    (h : ∀ name, node.child? .name = some name → IsLine (src.textOf name)) :
    IsLine (src.tag a node) := by
  unfold tag
  cases hname : node.child? .name with
  | some name => exact h name hname
  | none =>
    obtain ⟨middle, d, e, -, -, hplace⟩ := Aggregate.exists_keyword_placeName src.file
    have hnormal : IsLine (a.keyword ++ ' ' :: a.placeName src.file node.span.start) := by
      rw [hplace]
      exact (isNormal_normalize _).controls.2.1
    exact hnormal.subset fun c hc => List.mem_append_right _ (List.mem_cons_of_mem _ hc)

theorem isLine_usualSpelling {words : List Text} (h : ∀ w ∈ words, IsLine w) :
    IsLine (usualSpelling words) := by
  have htable : ∀ entry ∈ specifiers, IsLine entry.2 := by decide +kernel
  unfold usualSpelling
  split
  · next entry hentry => exact htable _ (List.mem_of_find?_eq_some hentry)
  · exact (isLine_intercalate (by decide)).2 h

/-- The words of a type stand beside single spaces. -/
theorem isLine_typeSpelling (h : (∃ a, node.kind = .aggregate a) →
    ∀ name, node.child? .name = some name → IsLine (src.textOf name)) :
    IsLine (src.typeSpelling node) := by
  have hwords : ∀ w ∈ words (src.textOf node), IsLine w := fun w hw => isLine_of_mem_words hw
  unfold typeSpelling
  split
  · next a hkind =>
    have hkeyword : IsLine a.keyword := by cases a <;> decide
    exact isLine_append.2
      ⟨hkeyword, isLine_cons.2 ⟨by decide, isLine_tag a (h ⟨a, hkind⟩)⟩⟩
  · exact isLine_usualSpelling hwords
  · exact isLine_usualSpelling hwords
  · exact (isLine_intercalate (by decide)).2 hwords

theorem isLine_baseAmong {children : List Node} (hchildren : ∀ m ∈ children, src.CopiedOnLine m)
    (htype : type ∈ children) : IsLine (src.baseAmong children type) := by
  refine (isLine_intercalate (by decide)).2 fun t ht => ?_
  rcases List.mem_append.1 ht with ht | ht
  · obtain ⟨m, hm, rfl⟩ := List.mem_map.1 ht
    obtain ⟨hm, hkind⟩ := List.mem_filter.1 hm
    exact (hchildren m hm).qualifier (by simpa using hkind)
  · rw [List.mem_singleton.1 ht]
    exact isLine_typeSpelling (hchildren type htype).tag

end Source

namespace Declarator

variable {src : Source}

mutual

/-- What a declarator adds to a type is a line, if what it copies from the source is. -/
theorem onLine_ofNode (node : Node) (h : ∀ m ∈ node.preorder, src.CopiedOnLine m) :
    (ofNode src node).OnLine := by
  obtain ⟨kind, named, role, span, children⟩ := node
  have hbelow : ∀ m ∈ Node.preorderAll children, src.CopiedOnLine m := fun m hm =>
    h m (List.mem_cons_of_mem _ hm)
  have hrole := onLine_ofRole children hbelow
  have hcontent := onLine_ofContent children hbelow
  cases kind with
  | name => exact onLine_name _
  | primitiveType => exact onLine_name _
  | pointer => exact hrole.pointer
  | array =>
    refine hrole.array ?_
    cases hsize : children.find? (·.role = some .size) with
    | none => exact fun _ => isLine_nil
    | some size =>
      have hmem := hbelow size (Node.mem_preorderAll (List.mem_of_find?_eq_some hsize))
      exact hmem.size (by simpa using List.find?_some hsize)
  | function => exact hrole.function (onLine_parametersAmong children hbelow)
  | parenthesized => exact hcontent.parenthesized
  | attributed => exact hcontent
  | _ => exact hrole

/-- The same for the declarator among some nodes. -/
theorem onLine_ofRole (nodes : List Node) (h : ∀ m ∈ Node.preorderAll nodes, src.CopiedOnLine m) :
    (ofRole src nodes).OnLine := by
  cases nodes with
  | nil => exact onLine_absent
  | cons node rest =>
    unfold ofRole
    split_ifs
    · exact onLine_ofNode node fun m hm => h m (List.mem_append_left _ hm)
    · exact onLine_ofRole rest fun m hm => h m (List.mem_append_right _ hm)

/-- The same for what stands in parentheses. -/
theorem onLine_ofContent (nodes : List Node)
    (h : ∀ m ∈ Node.preorderAll nodes, src.CopiedOnLine m) : (ofContent src nodes).OnLine := by
  cases nodes with
  | nil => exact onLine_absent
  | cons node rest =>
    unfold ofContent
    split_ifs
    · exact onLine_ofNode node fun m hm => h m (List.mem_append_left _ hm)
    · exact onLine_ofContent rest fun m hm => h m (List.mem_append_right _ hm)

/-- The spellings of the parameters among some nodes are lines. -/
theorem onLine_parametersAmong (nodes : List Node)
    (h : ∀ m ∈ Node.preorderAll nodes, src.CopiedOnLine m) :
    ∀ p ∈ parametersAmong src nodes, ParameterOnLine p := by
  cases nodes with
  | nil => exact nofun
  | cons node rest =>
    unfold parametersAmong
    split_ifs
    · exact onLine_parametersOf node fun m hm => h m (List.mem_append_left _ hm)
    · exact onLine_parametersAmong rest fun m hm => h m (List.mem_append_right _ hm)

/-- The spellings of the parameters in a node are lines. -/
theorem onLine_parametersOf (node : Node) (h : ∀ m ∈ node.preorder, src.CopiedOnLine m) :
    ∀ p ∈ parametersOf src node, ParameterOnLine p := by
  obtain ⟨kind, named, role, span, children⟩ := node
  exact onLine_parameterList children fun m hm => h m (List.mem_cons_of_mem _ hm)

/-- The same for a list of nodes that are parameters. -/
theorem onLine_parameterList (nodes : List Node)
    (h : ∀ m ∈ Node.preorderAll nodes, src.CopiedOnLine m) :
    ∀ p ∈ parameterList src nodes, ParameterOnLine p := by
  cases nodes with
  | nil => exact nofun
  | cons node rest =>
    intro p hp
    rcases List.mem_append.1 hp with hp | hp
    · exact onLine_parameter? node (fun m hm => h m (List.mem_append_left _ hm)) p
        (Option.mem_toList.1 hp)
    · exact onLine_parameterList rest (fun m hm => h m (List.mem_append_right _ hm)) p hp

/-- The spelling of the parameter that a node is, is a line. -/
theorem onLine_parameter? (node : Node) (h : ∀ m ∈ node.preorder, src.CopiedOnLine m) :
    ∀ p ∈ parameter? src node, ParameterOnLine p := by
  obtain ⟨kind, named, role, span, children⟩ := node
  have hbelow : ∀ m ∈ Node.preorderAll children, src.CopiedOnLine m := fun m hm =>
    h m (List.mem_cons_of_mem _ hm)
  have hrole := onLine_ofRole children hbelow
  intro p hp
  cases kind with
  | parameter =>
    obtain rfl := Option.some.inj hp
    refine hrole.declared ?_
    cases htype : children.find? (·.role = some .type) with
    | none => exact isLine_nil
    | some type =>
      exact Source.isLine_baseAmong (fun m hm => hbelow m (Node.mem_preorderAll hm))
        (List.mem_of_find?_eq_some htype)
  | variadic =>
    obtain rfl := Option.some.inj hp
    exact parameterOnLine_variadic
  | _ => cases hp

end

end Declarator

/-! ## Registries -/

namespace Registry

theorem mem_values_put {key value v : Text} {table : List (Text × Text)}
    (h : v ∈ (put key value table).map Prod.snd) : v = value ∨ v ∈ table.map Prod.snd := by
  induction table with
  | nil => exact .inl (List.mem_singleton.1 h)
  | cons entry rest ih =>
    unfold put at h
    split_ifs at h
    · exact (List.mem_cons.1 h).imp_right (List.mem_cons_of_mem _)
    · rcases List.mem_cons.1 h with rfl | h
      · exact .inr (by simp)
      · exact (ih h).imp_right (List.mem_cons_of_mem _)

theorem mem_meanings_addTypedef {reg : Registry} {name underlying : Text} {base : Option Text}
    (h : t ∈ (reg.addTypedef name underlying base).meanings) :
    t = underlying ∨ base = some t ∨ t ∈ reg.meanings := by
  simp only [meanings, List.map_append, List.mem_append] at h ⊢
  unfold addTypedef at h
  split at h
  · next c rest =>
    rcases h with h | h
    · exact (mem_values_put h).imp_right fun h => .inr (.inl h)
    · rcases mem_values_put h with rfl | h
      · exact .inr (.inl rfl)
      · exact .inr (.inr (.inr h))
  · rcases h with h | h
    · exact (mem_values_put h).imp_right fun h => .inr (.inl h)
    · exact .inr (.inr (.inr h))

/-- Typedefs stand for lines, if the spellings and the aggregates that they were made of are. -/
theorem isLine_of_mem_meanings {findings : List (Option Finding)}
    (h : ∀ d base, some (.typedef d base) ∈ findings →
      IsLine d.spelling ∧ ∀ t, base = some t → IsLine t) :
    ∀ t ∈ (learnFrom {} findings).meanings, IsLine t := by
  refine learnFrom_induction (P := fun reg => ∀ t ∈ reg.meanings, IsLine t) nofun ?_
  intro reg finding hfinding ih t ht
  cases finding with
  | typedef d base =>
    obtain ⟨hspelling, hbase⟩ := h d base hfinding
    rcases mem_meanings_addTypedef ht with rfl | hsome | ht
    · exact hspelling
    · exact hbase t hsome
    · exact ih t ht
  | _ => exact ih t ht

/-- A resolution writes lines. -/
theorem isLine_resolve {reg : Registry} (hreg : ∀ t ∈ reg.meanings, IsLine t) {config : Config}
    (hplaceholder : IsLine config.placeholder) (hs : IsLine s) :
    IsLine (reg.resolve config s).descriptor ∧
      ∀ message, (reg.resolve config s).message? = some message → IsLine message := by
  have hline : (reg.descend config config.maxDepth.toNat [] s).OnLine IsLine :=
    onLine_descend hreg config _ nofun hs
  obtain ⟨hok, herror⟩ := Trace.onLine_iff.1 hline
  unfold resolve trace
  cases hresult : (reg.descend config config.maxDepth.toNat [] s).result with
  | ok d => exact ⟨hok d hresult, nofun⟩
  | error f =>
    refine ⟨hplaceholder, fun message hmessage => ?_⟩
    obtain rfl := Option.some.inj hmessage
    exact herror f hresult

end Registry

/-! ## Dumps -/

namespace Described

theorem spelling_subset_text (d : Described) : d.spelling ⊆ d.text := by
  have hline : d.spelling ⊆ declarationText d.kind d.name d.spelling ++ " -> ".toList ++
      d.descriptor := fun c hc => by
    simp [declarationText, hc]
  unfold text
  dsimp only
  split
  · exact fun c hc => List.mem_append_left _ (List.mem_append_left _ (hline hc))
  · exact hline

theorem isLine_text {d : Described} (hname : IsLine d.name) (hspelling : IsLine d.spelling)
    (hdescriptor : IsLine d.descriptor)
    (hfailure : ∀ message, d.failure = some message → IsLine message) : IsLine d.text := by
  have hkind : IsLine d.kind.name := by cases d.kind <;> decide
  have hfront : IsLine (declarationText d.kind d.name d.spelling) :=
    isLine_append.2 ⟨isLine_append.2 ⟨isLine_append.2 ⟨isLine_append.2 ⟨hkind, by decide⟩, hname⟩,
      by decide⟩, hspelling⟩
  have hline := isLine_between hfront (by decide : IsLine " -> ".toList) hdescriptor
  unfold text
  dsimp only
  split
  · next c message hsome => exact isLine_between hline (by decide) (hfailure _ hsome)
  · exact hline

end Described

namespace Source

variable {src : Source} {root node : Node} {config : Config} {ds : List Described}

/-- The names in a tree are lines. -/
structure NamesOnLines (src : Source) (root : Node) : Prop where
  /-- Identifiers and primitive types, which may be declared. -/
  identifiers : ∀ node ∈ root.preorder, node.kind = .name ∨ node.kind = .primitiveType →
    IsLine (src.textOf node)
  /-- The tags of aggregates. -/
  tags : ∀ node ∈ root.preorder, (∃ a, node.kind = .aggregate a) →
    ∀ name, node.child? .name = some name → IsLine (src.textOf name)

/-- What else is copied from a tree as it stands is made of lines. -/
structure CopiesOnLines (src : Source) (root : Node) : Prop where
  /-- Qualifiers. -/
  qualifiers : ∀ node ∈ root.preorder, node.kind = .qualifier → IsLine (src.textOf node)
  /-- Sizes that are no integer constants. -/
  sizes : ∀ node ∈ root.preorder, node.role = some .size →
    sizeLiteral? (src.textOf node) = none → IsLine (src.textOf node)

theorem copiedOnLine (hnames : src.NamesOnLines root) (hcopies : src.CopiesOnLines root) :
    ∀ node ∈ root.preorder, src.CopiedOnLine node := fun node hnode =>
  ⟨hnames.tags node hnode, hcopies.qualifiers node hnode, hcopies.sizes node hnode⟩

/-- The aggregate that a typedef names is the type that its definition begins with. -/
theorem exists_type_of_base {d : Declaration} {whole : Text}
    (h : some (.typedef d (some whole)) ∈ src.nodeFindings node) :
    ∃ type ∈ node.children, whole = src.typeSpelling type := by
  have hobject {declarator : Declarator} {g : Text → Declaration}
      (h : some (.typedef d (some whole)) = declarator.suffix?.map fun suffix =>
        Finding.declared (g suffix)) : False := by
    obtain ⟨suffix, -, heq⟩ := Option.map_eq_some_iff.1 h.symm
    cases heq
  unfold nodeFindings at h
  split at h
  · obtain ⟨type, htype, m, -, h⟩ := mem_declaratorFindings_iff.1 h
    obtain ⟨suffix, -, heq | heq | heq⟩ := of_mem_typedefFindings h
    · cases heq
    · cases heq
    · cases heq
      exact ⟨type, List.mem_of_find?_eq_some htype, rfl⟩
  · obtain ⟨type, -, m, -, h⟩ := mem_declaratorFindings_iff.1 h
    exact (hobject (List.mem_singleton.1 h)).elim
  · obtain ⟨type, -, m, -, h⟩ := mem_declaratorFindings_iff.1 h
    exact (hobject (List.mem_singleton.1 h)).elim
  · exact (hobject (List.mem_singleton.1 h)).elim
  · split_ifs at h
    · simp at h
    · cases h
  · cases h

/-- What is recorded was found in a node. -/
theorem exists_finding {decls : List Declaration} (hscan : src.scan root = some decls)
    {d : Declaration} : d ∈ decls ↔ ∃ node ∈ root.preorder, ∃ finding,
      some finding ∈ src.nodeFindings node ∧ finding.declaration? = some d := by
  obtain ⟨findings, hfindings, rfl⟩ := scan_eq_some_iff.1 hscan
  have hmem (finding : Finding) : finding ∈ findings ↔ some finding ∈ src.findings root := by
    simp [hfindings]
  simp only [List.mem_filterMap, hmem, Source.findings, List.mem_flatMap]
  tauto

/-- The name of a declaration is the text of an identifier. -/
theorem isLine_name (hnames : src.NamesOnLines root) (hnode : node ∈ root.preorder)
    {finding : Finding} {d : Declaration} (h : some finding ∈ src.nodeFindings node)
    (hd : finding.declaration? = some d) : IsLine d.name := by
  obtain ⟨base, kind, m, declarator, suffix, rfl, -, hdeclarator, -⟩ := exists_declare h hd
  have hname : Declarator.IsTextOfIdentifier src node.preorder declarator.declaredName := by
    rw [Node.preorder_eq]
    rcases hdeclarator with rfl | ⟨child, hchild, rfl⟩
    · exact (Declarator.isTextOfIdentifier_ofRole src node.children).mono
        (List.subset_cons_self _ _)
    · refine (Declarator.isTextOfIdentifier_ofNode src child).mono ?_
      rw [← Node.preorder_eq]
      exact Node.preorder_subset node (Node.mem_preorder_of_mem_children
        (Node.mem_preorder_self node) hchild)
  show IsLine declarator.declaredName
  rcases hname with hname | ⟨m, hm, hkind, hname⟩
  · rw [hname]
    exact isLine_nil
  · rw [hname]
    exact hnames.identifiers m (Node.preorder_subset root hnode hm) hkind

/-- The spelling of a declaration is a line, if what it copies from the source is. -/
theorem isLine_spelling (hcopied : ∀ m ∈ root.preorder, src.CopiedOnLine m)
    (hnode : node ∈ root.preorder) {finding : Finding} {d : Declaration}
    (h : some finding ∈ src.nodeFindings node) (hd : finding.declaration? = some d) :
    IsLine d.spelling := by
  obtain ⟨base, kind, m, declarator, suffix, rfl, hsuffix, hdeclarator, hbase⟩ :=
    exists_declare h hd
  have hbelow : ∀ m ∈ Node.preorderAll node.children, src.CopiedOnLine m := fun m hm =>
    hcopied m (Node.preorder_subset root hnode (by
      rw [Node.preorder_eq]
      exact List.mem_cons_of_mem _ hm))
  refine isLine_withSuffix ?_ ?_
  · rcases hbase with rfl | ⟨type, htype, rfl⟩
    · exact isLine_nil
    · exact isLine_baseAmong (fun m hm => hbelow m (Node.mem_preorderAll hm)) htype
  · rcases hdeclarator with rfl | ⟨child, hchild, rfl⟩
    · exact Declarator.onLine_ofRole _ hbelow suffix hsuffix
    · refine Declarator.onLine_ofNode child (fun m hm => ?_) suffix hsuffix
      exact hcopied m (Node.preorder_subset root
        (Node.mem_preorder_of_mem_children hnode hchild) hm)

/-- The typedefs of a tree stand for lines, if all recorded spellings are lines. -/
theorem isLine_meanings (hnames : src.NamesOnLines root) {decls : List Declaration}
    (hscan : src.scan root = some decls) (hspellings : ∀ d ∈ decls, IsLine d.spelling) :
    ∀ t ∈ (src.registry root).meanings, IsLine t := by
  refine Registry.isLine_of_mem_meanings fun d base h => ?_
  obtain ⟨node, hnode, hfinding⟩ := List.mem_flatMap.1 h
  refine ⟨hspellings d ((exists_finding hscan).2 ⟨node, hnode, _, hfinding, rfl⟩), ?_⟩
  rintro whole rfl
  obtain ⟨type, htype, rfl⟩ := exists_type_of_base hfinding
  exact isLine_typeSpelling (hnames.tags type (Node.mem_preorder_of_mem_children hnode htype))

/-- **A dump is made of one line for each declaration exactly if no spelling has a line break**, and
none has if the qualifiers and the sizes that are copied from the source have none. -/
theorem splitOn_dump (hdescribe : src.describe config root = some ds) (hne : ds ≠ [])
    (hplaceholder : IsLine config.placeholder) (hnames : src.NamesOnLines root) :
    ((dump ds).splitOn '\n' = ds.map (fun d => ' ' :: ' ' :: d.text) ↔
        ∀ d ∈ ds, IsLine d.spelling) ∧
      (src.CopiesOnLines root → ∀ d ∈ ds, IsLine d.spelling) := by
  obtain ⟨decls, hscan, rfl⟩ := Option.map_eq_some_iff.1 hdescribe
  have hspelling : (∀ d ∈ (src.registry root).describeAll config decls, IsLine d.spelling) ↔
      ∀ d ∈ decls, IsLine d.spelling := by
    rw [Registry.describeAll_eq, List.forall_mem_map]
    rfl
  rw [hspelling, dump, splitOn_intercalate_iff (by simpa using hne), List.forall_mem_map]
  refine ⟨⟨fun hlines => hspelling.1 fun d hd => ?_, fun hspellings => ?_⟩, fun hcopies d hd => ?_⟩
  · have hline := (isLine_cons.1 (isLine_cons.1 (hlines d hd)).2).2
    exact hline.subset d.spelling_subset_text
  · have hmeanings := isLine_meanings hnames hscan hspellings
    rw [Registry.describeAll_eq, List.forall_mem_map]
    intro d hd
    obtain ⟨node, hnode, finding, hfinding, hdeclared⟩ := (exists_finding hscan).1 hd
    obtain ⟨hdescriptor, hmessage⟩ :=
      Registry.isLine_resolve hmeanings hplaceholder (hspellings d hd)
    have htext := Described.isLine_text (d := d.described _)
      (isLine_name hnames hnode hfinding hdeclared) (hspellings d hd) hdescriptor hmessage
    exact isLine_cons.2 ⟨by decide, isLine_cons.2 ⟨by decide, htext⟩⟩
  · obtain ⟨node, hnode, finding, hfinding, hdeclared⟩ := (exists_finding hscan).1 hd
    exact isLine_spelling (copiedOnLine hnames hcopies) hnode hfinding hdeclared

/-- An array with a sum for its size, with the character `gap` inside. -/
def sumSource (gap : Char) : Source :=
  ⟨"input.c".toList, "int a[N +".toList ++ gap :: "1];".toList⟩

/-- The tree of `sumSource`. -/
def sumNode : Node :=
  .onLine .declaration none 0 13 [
    .onLine .primitiveType (some .type) 0 3 [],
    .onLine .array (some .declarator) 4 12 [
      .onLine .name (some .declarator) 4 5 [], .onLine .other (some .size) 6 11 []]]

/-- The array of `sumSource`, whose type has no descriptor. -/
def sumDescribed (spelling normal : Text) : Described :=
  ⟨"a".toList, .variable, spelling, anyType, some ("Cannot resolve type '".toList ++ spelling ++
    "' : I couldn't find an appropriate Go type for the C type '".toList ++ normal ++
      "'.".toList)⟩

theorem namesOnLines_sum (gap : Char) (hgap : gap = ' ' ∨ gap = '\n') :
    (sumSource gap).NamesOnLines sumNode := by
  constructor
  · rcases hgap with rfl | rfl <;> decide +kernel
  · rintro node hnode ⟨a, hkind⟩
    have hnone : ∀ node ∈ sumNode.preorder, ∀ a ∈ [Aggregate.struct, .union, .enum],
        node.kind ≠ .aggregate a := by decide
    exact absurd hkind (hnone node hnode a (by cases a <;> decide))

/-- The size is copied: with a space in it the dump is one line, with a line break it is not. -/
theorem splitOn_dump_sum :
    let whole := [sumDescribed "int [N + 1]".toList "int [N + 1]".toList]
    let broken := [sumDescribed "int [N +\n1]".toList "int [N +1]".toList]
    (sumSource ' ').describe {} sumNode = some whole ∧
      (dump whole).splitOn '\n' = whole.map (fun d => ' ' :: ' ' :: d.text) ∧
      (sumSource '\n').describe {} sumNode = some broken ∧
      (dump broken).splitOn '\n' ≠ broken.map (fun d => ' ' :: ' ' :: d.text) := by
  have hwhole : (sumSource ' ').describe {} sumNode =
      some [sumDescribed "int [N + 1]".toList "int [N + 1]".toList] := by decide +kernel
  have hbroken : (sumSource '\n').describe {} sumNode =
      some [sumDescribed "int [N +\n1]".toList "int [N +1]".toList] := by decide +kernel
  have hplaceholder : IsLine (Config.placeholder {}) := by decide +kernel
  have hone := splitOn_dump hwhole (by simp) hplaceholder (namesOnLines_sum _ (.inl rfl))
  have htwo := splitOn_dump hbroken (by simp) hplaceholder (namesOnLines_sum _ (.inr rfl))
  refine ⟨hwhole, hone.1.2 (hone.2 ?_), hbroken, fun h => ?_⟩
  · constructor <;> decide +kernel
  · exact absurd (htwo.1.1 h) (by decide +kernel)

end Source

end CSpelling

import CSpelling.Proofs.Objects

/-!
# The order of declarations

A registry learns from findings in order, but what it knows in the end does not depend on the
order, as long as no typedef is registered in two ways (`Registry.knowledge_learn_perm`).
Declarations are resolved against what is known in the end, so the declarations at the top of a tree
are described one by one: if they change places, so do their descriptions (`Source.describe_perm`).
-/

namespace CSpelling

/-! ## Registrations -/

/-- A typedef as a registry keeps it. -/
structure Registration where
  /-- The name. -/
  name : Text
  /-- The spelling that it stands for. -/
  underlying : Text
  /-- The structure or union that it names. -/
  base : Option Text
  deriving DecidableEq, Repr

/-- The typedef that a finding registers. -/
def Finding.registration? : Finding → Option Registration
  | .typedef d base => some ⟨d.name, d.spelling, base⟩
  | _ => none

/-- A name is registered by both findings in the same way, if it is. -/
def Finding.Agree (f g : Finding) : Prop :=
  ∀ r ∈ f.registration?, ∀ r' ∈ g.registration?, r.name = r'.name → r = r'

instance (f g : Finding) : Decidable (f.Agree g) :=
  inferInstanceAs (Decidable (∀ r ∈ f.registration?, ∀ r' ∈ g.registration?, _ → _))

/-! ## Growing knowledge -/

namespace Knowledge

/-- What is known after a finding. -/
def learn (k : Knowledge) : Finding → Knowledge
  | .declared _ => k
  | .typedef d base =>
    { k with
      underlying? := Function.update k.underlying? d.name (some d.spelling)
      base? := Function.update k.base? d.name ((base.filter (!·.isEmpty)).or (k.base? d.name)) }
  | .enumTypedef d => { k with isEnum := Function.update k.isEnum d.name true }
  | .aggregate tag => { k with isDeclared := Function.update k.isDeclared tag true }

theorem update_true_apply (p : Text → Bool) (name k : Text) :
    Function.update p name true k = (k = name || p k) := by
  rw [Function.update_apply]
  split_ifs with h <;> simp [h]

/-- Two updates with one value may change places. -/
theorem update_comm_of_eq {α β : Type} [DecidableEq α] (f : α → β) (a b : α) (v : β) :
    Function.update (Function.update f a v) b v = Function.update (Function.update f b v) a v := by
  by_cases h : a = b
  · rw [h]
  · exact Function.update_comm h v v f

/-- **Findings that agree may change places.** -/
theorem learn_comm {f g : Finding} (h : f.Agree g) (k : Knowledge) :
    (k.learn f).learn g = (k.learn g).learn f := by
  cases f with
  | declared d => rfl
  | typedef d base =>
    cases g with
    | typedef d' base' =>
      by_cases hname : d.name = d'.name
      · -- Both register the same.
        obtain ⟨-, hspelling, hbase⟩ := Registration.mk.inj (h _ rfl _ rfl hname)
        simp only [learn, hname, hspelling, hbase]
      · simp only [learn, Function.update_of_ne (Ne.symm hname), Function.update_of_ne hname]
        rw [Function.update_comm hname, Function.update_comm hname]
    | _ => rfl
  | enumTypedef d =>
    cases g with
    | enumTypedef d' => exact congrArg (fun p => { k with isEnum := p }) (update_comm_of_eq ..)
    | _ => rfl
  | aggregate tag =>
    cases g with
    | aggregate tag' => exact congrArg (fun p => { k with isDeclared := p }) (update_comm_of_eq ..)
    | _ => rfl

end Knowledge

namespace Registry

variable (reg : Registry)

theorem addTypedef_rest (name underlying : Text) (base : Option Text) :
    (reg.addTypedef name underlying base).isEnum = reg.isEnum ∧
      (reg.addTypedef name underlying base).isDeclared = reg.isDeclared := by
  unfold addTypedef
  split <;> exact ⟨rfl, rfl⟩

theorem base?_addTypedef (name underlying : Text) (base : Option Text) (k : Text) :
    (reg.addTypedef name underlying base).base? k =
      if k = name then (base.filter (!·.isEmpty)).or (reg.base? name) else reg.base? k := by
  match base with
  | none =>
    show reg.base? k = if k = name then reg.base? name else reg.base? k
    split_ifs with h
    · rw [h]
    · rfl
  | some [] =>
    show reg.base? k = if k = name then reg.base? name else reg.base? k
    split_ifs with h
    · rw [h]
    · rfl
  | some (c :: rest) => exact lookup_put name (c :: rest) k reg.bases

/-- **What is known after a finding is told by what was known before.** -/
theorem knowledge_learn (f : Finding) : (reg.learn f).knowledge = reg.knowledge.learn f := by
  cases f with
  | declared d => rfl
  | typedef d base =>
    obtain ⟨henum, hdeclared⟩ := reg.addTypedef_rest d.name d.spelling base
    refine Knowledge.ext (funext fun k => ?_) (funext fun k => ?_) henum hdeclared
    · exact (reg.underlying?_addTypedef ..).trans (Function.update_apply ..).symm
    · exact (reg.base?_addTypedef ..).trans (Function.update_apply ..).symm
  | enumTypedef d =>
    refine Knowledge.ext rfl rfl (funext fun k => ?_) rfl
    exact (reg.isEnum_addEnum d.name k).trans (Knowledge.update_true_apply ..).symm
  | aggregate tag =>
    refine Knowledge.ext rfl rfl rfl (funext fun k => ?_)
    exact (reg.isDeclared_declare tag k).trans (Knowledge.update_true_apply ..).symm

/-- Findings name no package and do not change how names are split. -/
theorem learn_rest (f : Finding) :
    (reg.learn f).qualifying = reg.qualifying ∧ (reg.learn f).imports = reg.imports := by
  cases f with
  | typedef d base =>
    rw [learn]
    unfold addTypedef
    split <;> exact ⟨rfl, rfl⟩
  | _ => exact ⟨rfl, rfl⟩

/-- What each of the findings leaves alone is left alone by all. -/
theorem foldl_learn_congr {α : Type} (view : Registry → α) {fs : List Finding}
    (h : ∀ f ∈ fs, ∀ reg : Registry, view (reg.learn f) = view reg) :
    view (fs.foldl learn reg) = view reg := by
  induction fs generalizing reg with
  | nil => rfl
  | cons f rest ih =>
    rw [List.foldl_cons, ih _ fun g hg => h g (List.mem_cons_of_mem _ hg), h f (by simp)]

/-- **What is known in the end does not depend on the order of findings**, if they agree. -/
theorem knowledge_learn_perm {fs fs' : List Finding} (hperm : fs.Perm fs')
    (hagree : ∀ f ∈ fs, ∀ g ∈ fs, f.Agree g) :
    (fs.foldl learn reg).knowledge = (fs'.foldl learn reg).knowledge := by
  have hfold (fs : List Finding) :
      (fs.foldl learn reg).knowledge = fs.foldl Knowledge.learn reg.knowledge :=
    (List.foldl_hom knowledge fun reg f => (reg.knowledge_learn f).symm).symm
  rw [hfold, hfold]
  exact hperm.foldl_eq' (fun f hf g hg k => Knowledge.learn_comm (hagree f hf g hg) k) _

theorem qualifying_foldl_learn (fs : List Finding) :
    (fs.foldl learn reg).qualifying = reg.qualifying :=
  reg.foldl_learn_congr (·.qualifying) fun f _ reg => (reg.learn_rest f).1

theorem describeAll_of_knowledge {reg reg' : Registry} (h : reg.knowledge = reg'.knowledge)
    (hq : reg.qualifying = reg'.qualifying) (config : Config) (ds : List Declaration) :
    reg.describeAll config ds = reg'.describeAll config ds := by
  rw [describeAll_eq, describeAll_eq]
  refine List.map_congr_left fun d _ => ?_
  rw [resolve_of_knowledge h hq]

end Registry

/-! ## Scans -/

/-- A scan looks for findings at nodes of this kind. -/
def NodeKind.isScanned : NodeKind → Bool
  | .typedef => true
  | .declaration => true
  | .functionDefinition => true
  | .fieldDeclaration => true
  | .aggregate _ => true
  | _ => false

theorem Node.preorderAll_eq_flatMap (nodes : List Node) :
    preorderAll nodes = nodes.flatMap preorder := by
  induction nodes with
  | nil => rfl
  | cons node rest ih => rw [preorderAll, ih, List.flatMap_cons]

theorem made_flatMap {α : Type} {g : α → List (Option Finding)} {l : List α}
    (h : ∀ f ∈ l.flatMap g, f.isSome = true) :
    made (l.flatMap g) = l.flatMap fun a => made (g a) := by
  have hmade {fs : List (Option Finding)} (h : ∀ f ∈ fs, f.isSome = true) :
      made fs = fs.filterMap id := by
    obtain ⟨fs, rfl⟩ := exists_eq_map_some h
    rw [made_map_some, List.filterMap_map]
    exact List.filterMap_some.symm
  rw [hmade h, List.filterMap_flatMap]
  exact List.flatMap_congr fun a ha => (hmade fun f hf => h f (List.mem_flatMap.2 ⟨a, ha, hf⟩)).symm

namespace Source

variable (src : Source) {config : Config} {root : Node}

theorem nodeFindings_of_not_isScanned (h : root.kind.isScanned = false) :
    src.nodeFindings root = [] := by
  unfold nodeFindings
  split <;> simp_all [NodeKind.isScanned]

/-- A node is scanned before its children, and these one after another. -/
theorem findings_eq (root : Node) :
    src.findings root = src.nodeFindings root ++ root.children.flatMap src.findings := by
  rw [findings, Node.preorder_eq, Node.preorderAll_eq_flatMap, List.flatMap_cons,
    List.flatMap_assoc]
  rfl

theorem findings_of_not_isScanned (h : root.kind.isScanned = false) :
    src.findings root = root.children.flatMap src.findings := by
  rw [findings_eq, nodeFindings_of_not_isScanned src h, List.nil_append]

theorem made_findings (hkind : root.kind.isScanned = false)
    (hfindings : ∀ f ∈ src.findings root, f.isSome = true) :
    made (src.findings root) = root.children.flatMap fun child => made (src.findings child) := by
  rw [src.findings_of_not_isScanned hkind] at hfindings ⊢
  exact made_flatMap hfindings

/-- The declarations that are found in a part of a tree, described by what the whole tree says. -/
def describeWithin (config : Config) (root node : Node) : List Described :=
  (src.registry root).describeAll config ((made (src.findings node)).filterMap Finding.declaration?)

theorem describe_eq_flatMap (hkind : root.kind.isScanned = false)
    (hfindings : ∀ f ∈ src.findings root, f.isSome = true) :
    src.describe config root = some (root.children.flatMap (src.describeWithin config root)) := by
  have hscan : src.scan root =
      some ((made (src.findings root)).filterMap Finding.declaration?) :=
    if_pos (List.all_eq_true.2 hfindings)
  rw [describe, hscan, src.made_findings hkind hfindings, Option.map_some, Registry.describeAll_eq,
    List.filterMap_flatMap, List.map_flatMap]
  refine congrArg some (List.flatMap_congr fun child _ => ?_)
  rw [describeWithin, Registry.describeAll_eq]

/-- **Declarations are described in any order.** If the children of a tree change places, so do the
descriptions of the declarations in them, and nothing else changes. -/
theorem describe_perm (config : Config) (root : Node) (children : List Node)
    (hkind : root.kind.isScanned = false) (hscan : (src.scan root).isSome = true)
    (hagree : ∀ f ∈ made (src.findings root), ∀ g ∈ made (src.findings root), f.Agree g)
    (hperm : root.children.Perm children) :
    src.describe config root = some (root.children.flatMap (src.describeWithin config root)) ∧
      src.describe config { root with children := children } =
        some (children.flatMap (src.describeWithin config root)) := by
  generalize hmoved : { root with children := children } = moved
  obtain ⟨hkind', rfl⟩ : moved.kind.isScanned = false ∧ moved.children = children := by
    rw [← hmoved]
    exact ⟨hkind, rfl⟩
  have hfindings : ∀ f ∈ src.findings root, f.isSome = true := by simpa [scan] using hscan
  have hfindings' : ∀ f ∈ src.findings moved, f.isSome = true := by
    intro f hf
    rw [src.findings_of_not_isScanned hkind'] at hf
    refine hfindings f ?_
    rw [src.findings_of_not_isScanned hkind]
    exact (hperm.flatMap_right _).mem_iff.2 hf
  have hmade : (made (src.findings root)).Perm (made (src.findings moved)) := by
    rw [src.made_findings hkind hfindings, src.made_findings hkind' hfindings']
    exact hperm.flatMap_right _
  have hknown : (src.registry moved).knowledge = (src.registry root).knowledge :=
    (Registry.knowledge_learn_perm {} hmade hagree).symm
  have hqualifying : (src.registry moved).qualifying = (src.registry root).qualifying :=
    (Registry.qualifying_foldl_learn {} _).trans (Registry.qualifying_foldl_learn {} _).symm
  refine ⟨src.describe_eq_flatMap hkind hfindings, ?_⟩
  rw [src.describe_eq_flatMap hkind' hfindings']
  refine congrArg some (List.flatMap_congr fun child _ => ?_)
  exact Registry.describeAll_of_knowledge hknown hqualifying config _

/-- A typedef that is used before it is defined, and defined twice. -/
def idSource : Source := ⟨"id.c".toList, "id a; typedef int id; typedef int id;".toList⟩

/-- The declaration in `idSource`. -/
def idUse : Node :=
  .onLine .declaration none 0 5 [
    .onLine .name (some .type) 0 2 [], .onLine .name (some .declarator) 3 4 []]

/-- The definition in `idSource` that begins at a byte. -/
def idDefinition (start : Nat) : Node :=
  .onLine .typedef none start (start + 15) [
    .onLine .primitiveType (some .type) (start + 8) (start + 11) [],
    .onLine .name (some .declarator) (start + 12) (start + 14) []]

/-- The tree of `idSource` with the given declarations. -/
def idTree (children : List Node) : Node := .onLine .other none 0 37 children

/-- The typedef may be used behind its definitions, or between them. -/
theorem describe_perm_ids :
    let tree := idTree [idUse, idDefinition 6, idDefinition 22]
    let moved := [idDefinition 22, idUse, idDefinition 6]
    tree.kind.isScanned = false ∧ (idSource.scan tree).isSome = true ∧
      (∀ f ∈ made (idSource.findings tree), ∀ g ∈ made (idSource.findings tree), f.Agree g) ∧
      tree.children.Perm moved ∧
      (idSource.describe {} tree =
          some (tree.children.flatMap (idSource.describeWithin {} tree)) ∧
        idSource.describe {} { tree with children := moved } =
          some (moved.flatMap (idSource.describeWithin {} tree))) ∧
      idSource.describeWithin {} tree idUse =
        [⟨"a".toList, .variable, "id".toList, "id".toList, none⟩] := by
  intro tree moved
  have hscan : (idSource.scan tree).isSome = true := by decide +kernel
  have hagree : ∀ f ∈ made (idSource.findings tree), ∀ g ∈ made (idSource.findings tree),
      f.Agree g := by
    decide +kernel
  have hperm : tree.children.Perm moved :=
    (List.perm_append_comm : ([idUse, idDefinition 6] ++ [idDefinition 22]).Perm _)
  exact ⟨rfl, hscan, hagree, hperm, describe_perm idSource {} tree moved rfl hscan hagree hperm,
    by decide +kernel⟩

end Source

end CSpelling

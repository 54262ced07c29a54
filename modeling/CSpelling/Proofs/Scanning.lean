import CSpelling.Scan
import Mathlib.Data.List.Basic

/-!
# What a scan records

A scan that does not give up has made all its findings, and records the declarations among them in
order (`scan_eq_some_iff`). So every declarator of a declaration in the tree is recorded, with the
spelling that it was rendered to (`exists_recorded`).
-/

namespace CSpelling

open Text

/-- A node that stands on the first line of a source, up to a byte before `stop`. -/
def Node.onLine (kind : NodeKind) (role : Option Role) (start stop : Nat)
    (children : List Node) : Node :=
  ⟨kind, true, role, ⟨start, stop, ⟨0, start⟩, ⟨0, stop⟩⟩, children⟩

theorem made_map_some (findings : List Finding) : made (findings.map some) = findings := by
  induction findings with
  | nil => rfl
  | cons finding rest ih => rw [List.map_cons, made, ih]

theorem some_mem_of_mem_made {findings : List (Option Finding)} {finding : Finding}
    (h : finding ∈ made findings) : some finding ∈ findings := by
  induction findings with
  | nil => cases h
  | cons f rest ih =>
    cases f with
    | none => cases h
    | some f =>
      rcases List.mem_cons.1 h with rfl | h
      · exact List.mem_cons_self ..
      · exact List.mem_cons_of_mem _ (ih h)

/-- A list of findings that were all made. -/
theorem exists_eq_map_some {findings : List (Option Finding)}
    (h : ∀ f ∈ findings, f.isSome = true) : ∃ made : List Finding, findings = made.map some := by
  induction findings with
  | nil => exact ⟨[], rfl⟩
  | cons f rest ih =>
    obtain ⟨finding, rfl⟩ := Option.isSome_iff_exists.1 (h f (by simp))
    obtain ⟨made, rfl⟩ := ih fun g hg => h g (List.mem_cons_of_mem _ hg)
    exact ⟨finding :: made, rfl⟩

namespace Source

variable {src : Source} {root node type d : Node} {decls : List Declaration}

/-- A scan that does not give up records the declarations among its findings. -/
theorem scan_eq_some_iff : src.scan root = some decls ↔
    ∃ findings : List Finding, src.findings root = findings.map some ∧
      findings.filterMap Finding.declaration? = decls := by
  simp only [scan]
  constructor
  · intro h
    split at h
    · next hall =>
      obtain ⟨findings, hfindings⟩ := exists_eq_map_some (List.all_eq_true.1 hall)
      refine ⟨findings, hfindings, ?_⟩
      rw [hfindings, made_map_some] at h
      exact Option.some.inj h
    · cases h
  · rintro ⟨findings, hfindings, rfl⟩
    rw [hfindings, made_map_some, if_pos (by simp)]

theorem mem_findings (hnode : node ∈ root.preorder) {finding : Option Finding}
    (h : finding ∈ src.nodeFindings node) : finding ∈ src.findings root :=
  List.mem_flatMap.2 ⟨node, hnode, h⟩

/-- The node declares objects of a type, one for each declarator. -/
def DeclaresObjects (node : Node) : Prop :=
  node.kind = .declaration ∨ node.kind = .fieldDeclaration

/-- **Every declarator of an object is recorded.** -/
theorem exists_recorded (hscan : src.scan root = some decls) (hnode : node ∈ root.preorder)
    (hkind : DeclaresObjects node) (htype : node.child? .type = some type)
    (hd : d ∈ node.childrenWith .declarator) :
    ∃ suffix kind, (Declarator.ofNode src d).suffix? = some suffix ∧
      declare (src.baseAmong node.children type) kind d (Declarator.ofNode src d) suffix ∈ decls := by
  obtain ⟨findings, hfindings, rfl⟩ := scan_eq_some_iff.1 hscan
  have hrecord (kind : DeclarationKind)
      (h : ((Declarator.ofNode src d).suffix?.map fun suffix => Finding.declared (declare
        (src.baseAmong node.children type) kind d (Declarator.ofNode src d) suffix)) ∈
          src.nodeFindings node) :
      ∃ suffix, (Declarator.ofNode src d).suffix? = some suffix ∧
        declare (src.baseAmong node.children type) kind d (Declarator.ofNode src d) suffix ∈
          findings.filterMap Finding.declaration? := by
    have hmem := mem_findings hnode h
    rw [hfindings] at hmem
    obtain ⟨finding, hfinding, heq⟩ := List.mem_map.1 hmem
    obtain ⟨suffix, hsuffix, rfl⟩ := Option.map_eq_some_iff.1 heq.symm
    exact ⟨suffix, hsuffix, List.mem_filterMap.2 ⟨_, hfinding, rfl⟩⟩
  rcases hkind with hkind | hkind
  · obtain ⟨suffix, h⟩ := hrecord
      (if (Declarator.ofNode src d).declaresFunction then .function else .variable) (by
        simp only [nodeFindings, hkind, declaratorFindings, htype]
        exact List.mem_flatMap.2 ⟨d, hd, List.mem_singleton.2 rfl⟩)
    exact ⟨suffix, _, h⟩
  · obtain ⟨suffix, h⟩ := hrecord .field (by
      simp only [nodeFindings, hkind, declaratorFindings, htype]
      exact List.mem_flatMap.2 ⟨d, hd, List.mem_singleton.2 rfl⟩)
    exact ⟨suffix, _, h⟩

/-! ## What a node is found to say -/

variable {finding : Finding}

theorem mem_declaratorFindings_iff {find : Text → Node → Node → List (Option Finding)}
    {f : Option Finding} : f ∈ src.declaratorFindings node find ↔
      ∃ type, node.child? .type = some type ∧
        ∃ d ∈ node.childrenWith .declarator, f ∈ find (src.baseAmong node.children type) type d := by
  unfold declaratorFindings
  split
  · next hnone => simp [hnone]
  · next type hsome => simp [hsome]

/-- A typedef is found for a declarator, with the aggregate that it names. -/
theorem of_mem_typedefFindings {base : Text} (h : some finding ∈ src.typedefFindings base type d) :
    ∃ suffix, (Declarator.ofNode src d).suffix? = some suffix ∧
      let found := declare base .typedef d (Declarator.ofNode src d) suffix
      (finding = .enumTypedef found ∨ finding = .typedef found none ∨
        finding = .typedef found (some (src.typeSpelling type))) := by
  unfold typedefFindings at h
  dsimp only at h
  split at h
  · simp at h
  · next suffix hsuffix =>
    refine ⟨suffix, hsuffix, ?_⟩
    split_ifs at h
    · cases h
    all_goals
      obtain rfl := Option.some.inj (List.mem_singleton.1 h)
      simp

/-- Whatever is declared in a node is declared by a declarator in it, with a type in it. -/
theorem exists_declare {found : Declaration} (h : some finding ∈ src.nodeFindings node)
    (hfound : finding.declaration? = some found) :
    ∃ base kind m declarator suffix, found = declare base kind m declarator suffix ∧
      declarator.suffix? = some suffix ∧
      (declarator = .ofRole src node.children ∨
        ∃ child ∈ node.children, declarator = .ofNode src child) ∧
      (base = [] ∨ ∃ type ∈ node.children, base = src.baseAmong node.children type) := by
  have hobject {base : Text} {kind : DeclarationKind} {m : Node} {declarator : Declarator}
      (h : some finding = declarator.suffix?.map fun suffix =>
        .declared (declare base kind m declarator suffix)) :
      ∃ suffix, found = declare base kind m declarator suffix ∧
        declarator.suffix? = some suffix := by
    obtain ⟨suffix, hsuffix, rfl⟩ := Option.map_eq_some_iff.1 h.symm
    exact ⟨suffix, (Option.some.inj hfound).symm, hsuffix⟩
  have hchildren {type d : Node} (htype : node.child? .type = some type)
      (hd : d ∈ node.childrenWith .declarator) : type ∈ node.children ∧ d ∈ node.children :=
    ⟨List.mem_of_find?_eq_some htype, (List.mem_filter.1 hd).1⟩
  unfold nodeFindings at h
  split at h
  · obtain ⟨type, htype, d, hd, h⟩ := mem_declaratorFindings_iff.1 h
    obtain ⟨suffix, hsuffix, hcases⟩ := of_mem_typedefFindings h
    refine ⟨_, .typedef, d, _, suffix, ?_, hsuffix, .inr ⟨d, (hchildren htype hd).2, rfl⟩,
      .inr ⟨type, (hchildren htype hd).1, rfl⟩⟩
    rcases hcases with rfl | rfl | rfl <;> exact (Option.some.inj hfound).symm
  · obtain ⟨type, htype, d, hd, h⟩ := mem_declaratorFindings_iff.1 h
    obtain ⟨suffix, heq, hsuffix⟩ := hobject (List.mem_singleton.1 h)
    exact ⟨_, _, d, _, suffix, heq, hsuffix, .inr ⟨d, (hchildren htype hd).2, rfl⟩,
      .inr ⟨type, (hchildren htype hd).1, rfl⟩⟩
  · obtain ⟨type, htype, d, hd, h⟩ := mem_declaratorFindings_iff.1 h
    obtain ⟨suffix, heq, hsuffix⟩ := hobject (List.mem_singleton.1 h)
    exact ⟨_, _, d, _, suffix, heq, hsuffix, .inr ⟨d, (hchildren htype hd).2, rfl⟩,
      .inr ⟨type, (hchildren htype hd).1, rfl⟩⟩
  · obtain ⟨suffix, heq, hsuffix⟩ := hobject (List.mem_singleton.1 h)
    refine ⟨_, _, node, _, suffix, heq, hsuffix, .inl rfl, ?_⟩
    unfold baseSpelling?
    cases htype : node.child? .type with
    | none => exact .inl rfl
    | some type => exact .inr ⟨type, List.mem_of_find?_eq_some htype, rfl⟩
  · split_ifs at h
    · obtain rfl := Option.some.inj (List.mem_singleton.1 h)
      cases hfound
    · cases h
  · cases h

end Source

end CSpelling

import CSpelling.Description
import CSpelling.Proofs.Annotations
import CSpelling.Proofs.Rendering

/-!
# Names that a scan stores

An aggregate without a tag gets a word for a name, if the path of its file holds nothing that
cannot be made part of one (`anonymousName_eq`). All other names that a registry learns in a scan
are texts of nodes, so all names are words if these texts are (`isWordChar_of_mem_names`).
-/

namespace CSpelling

open Text CSpelling.Normal

/-! ## Names of places -/

/-- The character may stand in the path of a file. -/
def isPathChar (c : Char) : Bool :=
  isWordChar c || ['/', '\\', '-', '.', ':', ' '].contains c

theorem isWordChar_of_mem_natText {n : Nat} {c : Char} (h : c ∈ natText n) :
    isWordChar c = true ∧ isIllegal c = false ∧ c ≠ ')' :=
  Decorations.of_isDigit (P := fun c => isWordChar c = true ∧ isIllegal c = false ∧ c ≠ ')')
    (by decide) (Nat.isDigit_of_mem_toDigits (by decide) (by decide) h)

/-- What stands in a path is part of a word after illegal characters are replaced. -/
theorem isWordChar_of_isPathChar {c : Char} (h : isPathChar c = true) :
    isWordChar (legal c) = true ∧ c ≠ ')' := by
  have hclose : isPathChar ')' = false := by decide +kernel
  have hunder : isWordChar '_' = true := by decide
  have hall : ∀ d ∈ ['/', '\\', '-', '.', ':', ' '], isIllegal d = true := by decide
  refine ⟨?_, fun heq => by simp [heq, hclose] at h⟩
  unfold legal
  split_ifs with hillegal
  · exact hunder
  · rcases Bool.or_eq_true_iff.1 h with h | h
    · exact h
    · exact absurd (hall c (List.contains_iff_mem.1 h)) hillegal

/-- The word that names a place. -/
theorem isWord_place (a : Aggregate) {s : Text} (h : ∀ c ∈ s, isWordChar c = true) :
    IsWord ('_' :: '_' :: (a.keyword ++ ("_at_".toList ++ (s ++ ['_'])))) := by
  have hkeyword : ∀ c ∈ a.keyword ++ "_at_".toList, isWordChar c = true := by
    cases a <;> decide +kernel
  have hunder : isWordChar '_' = true := by decide
  refine ⟨by simp, fun c hc => ?_⟩
  simp only [List.mem_cons, List.mem_append, List.not_mem_nil, or_false] at hc hkeyword
  rcases hc with rfl | rfl | hc | hc | hc | rfl
  · exact hunder
  · exact hunder
  · exact hkeyword c (.inl hc)
  · exact hkeyword c (.inr hc)
  · exact h c hc
  · exact hunder

theorem place_not_mem_qualifiers (a : Aggregate) (s : Text) :
    '_' :: '_' :: (a.keyword ++ ("_at_".toList ++ s)) ∉ qualifiers := by
  intro h
  have hpre : '_' :: '_' :: (a.keyword ++ "_at_".toList) <+:
      '_' :: '_' :: (a.keyword ++ ("_at_".toList ++ s)) := ⟨s, by simp⟩
  have hall : ∀ q ∈ qualifiers, ¬ '_' :: '_' :: (a.keyword ++ "_at_".toList) <+: q := by
    cases a <;> decide
  exact hall _ h hpre

/-- The description of a place, legalised, is the end of its name. -/
theorem legalise_place (a : Aggregate) {place : Text} (hclose : ')' ∉ place) :
    legalise ('(' :: ((' ' :: (a.keyword ++ (" at ".toList ++ place))) ++ [')'])) =
      '_' :: '_' :: (a.keyword ++ ("_at_".toList ++ (place.map legal ++ ['_']))) := by
  have hfront : ')' ∉ ' ' :: (a.keyword ++ " at ".toList) ∧
      (' ' :: (a.keyword ++ " at ".toList)).map legal = '_' :: (a.keyword ++ "_at_".toList) := by
    cases a <;> decide
  have hsplit : ' ' :: (a.keyword ++ (" at ".toList ++ place)) =
      (' ' :: (a.keyword ++ " at ".toList)) ++ place := by
    simp only [List.append_assoc, List.cons_append]
  rw [hsplit, legalise_parenthesized fun h => (List.mem_append.1 h).elim hfront.1 hclose,
    List.map_append, hfront.2]
  simp only [List.append_assoc, List.cons_append]

/-- The name of an aggregate without a tag comes out of the description of its place. -/
theorem sanitize_place (a : Aggregate) {place : Text} (hclose : ')' ∉ place)
    (hword : ∀ c ∈ place.map legal, isWordChar c = true) :
    sanitize (a.keyword ++ (" (anonymous ".toList ++ (a.keyword ++ (" at ".toList ++
      (place ++ [')']))))) =
      '_' :: '_' :: (a.keyword ++ ("_at_".toList ++ (place.map legal ++ ['_']))) := by
  have hname : a.keyword ++ (" (anonymous ".toList ++ (a.keyword ++ (" at ".toList ++
      (place ++ [')'])))) = kindText (some a) ++ '(' :: (anonymousWord ++
        (' ' :: (a.keyword ++ (" at ".toList ++ place)) ++ [')'])) := by
    have hanonymous : " (anonymous ".toList = ' ' :: '(' :: (anonymousWord ++ [' ']) := by decide
    rw [hanonymous, kindText]
    simp only [Option.elim_some, List.append_assoc, List.cons_append, List.nil_append]
  have hfront : '(' ∉ kindText (some a) ∧ ¬anonymousWord <:+: kindText (some a) ∧
      ':' ∉ kindText (some a) := by
    cases a <;> decide
  have hplace := isWord_place a hword
  rw [hname, sanitize_of_not_infix hfront.1 hfront.2.1, legalise_place a hclose]
  refine settleName_word (some a) hplace (place_not_mem_qualifiers a _) ?_
  exact lettered_of_not_mem (List.not_mem_append hfront.2.2 (hplace.not_mem (by decide +kernel)))

/-- A place in a file: the path, the line and the column. -/
def placeText (file : Text) (line column : Nat) : Text :=
  file ++ ':' :: (natText line ++ ':' :: natText column)

theorem isWordChar_of_mem_placeText {file : Text} (hfile : ∀ c ∈ file, isPathChar c = true)
    {line column : Nat} {c : Char} (hc : c ∈ placeText file line column) :
    isWordChar (legal c) = true ∧ c ≠ ')' := by
  have hnumeral {n : Nat} (h : c ∈ natText n) : isWordChar (legal c) = true ∧ c ≠ ')' := by
    obtain ⟨hword, hillegal, hclose⟩ := isWordChar_of_mem_natText h
    exact ⟨by rw [legal, if_neg (by simp [hillegal]), hword], hclose⟩
  simp only [placeText, List.mem_append, List.mem_cons] at hc
  rcases hc with hc | rfl | hc | rfl | hc
  · exact isWordChar_of_isPathChar (hfile c hc)
  · decide
  · exact hnumeral hc
  · decide
  · exact hnumeral hc

/-- **The name of an aggregate without a tag** is that of its place. -/
theorem anonymousName_eq (a : Aggregate) {file : Text} (hfile : ∀ c ∈ file, isPathChar c = true)
    (line column : Nat) : anonymousName a.keyword file line column =
      '_' :: '_' :: (a.keyword ++ ("_at_".toList ++
        ((placeText file line column).map legal ++ ['_']))) := by
  rw [← sanitize_place a (fun h => (isWordChar_of_mem_placeText hfile h).2 rfl) fun c hc => ?_]
  · simp [anonymousName, placeText]
  · obtain ⟨d, hd, rfl⟩ := List.mem_map.1 hc
    exact (isWordChar_of_mem_placeText hfile hd).1

/-! ## Nodes below a node -/

namespace Node

mutual

/-- What stands below a node of a tree stands in the tree. -/
theorem preorder_subset (root : Node) {node : Node} (h : node ∈ root.preorder) :
    node.preorder ⊆ root.preorder := by
  obtain ⟨kind, named, role, span, children⟩ := root
  rcases List.mem_cons.1 h with rfl | h
  · exact List.Subset.refl _
  · exact List.subset_cons_of_subset _ (preorderAll_subset children h)

/-- What stands below a node of some trees stands in one of them. -/
theorem preorderAll_subset (roots : List Node) {node : Node} (h : node ∈ preorderAll roots) :
    node.preorder ⊆ preorderAll roots := by
  cases roots with
  | nil => cases h
  | cons root rest =>
    rcases List.mem_append.1 h with h | h
    · exact List.subset_append_of_subset_left _ (preorder_subset root h)
    · exact List.subset_append_of_subset_right _ (preorderAll_subset rest h)

end

theorem preorder_eq (node : Node) : node.preorder = node :: preorderAll node.children := by
  cases node
  rfl

theorem mem_preorder_self (node : Node) : node ∈ node.preorder := by
  rw [preorder_eq]
  exact List.mem_cons_self ..

theorem mem_preorderAll {nodes : List Node} {node : Node} (h : node ∈ nodes) :
    node ∈ preorderAll nodes := by
  induction nodes with
  | nil => cases h
  | cons first rest ih =>
    rcases List.mem_cons.1 h with rfl | h
    · exact List.mem_append_left _ (mem_preorder_self _)
    · exact List.mem_append_right _ (ih h)

theorem mem_preorder_of_mem_children {root node child : Node} (hnode : node ∈ root.preorder)
    (hchild : child ∈ node.children) : child ∈ root.preorder :=
  preorder_subset root hnode (by
    rw [preorder_eq]
    exact List.mem_cons_of_mem _ (preorderAll_subset _ (mem_preorderAll hchild)
      (mem_preorder_self child)))

/-- The node is a name: an identifier, a primitive type that may be declared, or a tag. -/
def IsName (node : Node) : Prop :=
  node.kind = .name ∨ node.kind = .primitiveType ∨ node.role = some .name

instance (node : Node) : Decidable node.IsName := inferInstanceAs (Decidable (_ ∨ _ ∨ _))

end Node

/-! ## Declared names -/

namespace Declarator

/-- The text is empty, or it is that of a name among the nodes. -/
def IsTextOfName (src : Source) (nodes : List Node) (s : Text) : Prop :=
  s = [] ∨ ∃ node ∈ nodes, node.IsName ∧ s = src.textOf node

/-- The text is empty, or it is that of an identifier, or of a primitive type, among the nodes. -/
def IsTextOfIdentifier (src : Source) (nodes : List Node) (s : Text) : Prop :=
  s = [] ∨ ∃ node ∈ nodes, (node.kind = .name ∨ node.kind = .primitiveType) ∧ s = src.textOf node

theorem IsTextOfIdentifier.mono {src : Source} {nodes nodes' : List Node} {s : Text}
    (h : IsTextOfIdentifier src nodes s) (hsub : nodes ⊆ nodes') :
    IsTextOfIdentifier src nodes' s :=
  h.imp_right fun ⟨node, hnode, hs⟩ => ⟨node, hsub hnode, hs⟩

mutual

/-- The name that a declarator declares is the text of an identifier in it. -/
theorem isTextOfIdentifier_ofNode (src : Source) (node : Node) :
    IsTextOfIdentifier src node.preorder (ofNode src node).declaredName := by
  obtain ⟨kind, named, role, span, children⟩ := node
  have hrole := (isTextOfIdentifier_ofRole src children).mono
    (List.subset_cons_self ⟨kind, named, role, span, children⟩ _)
  have hcontent := (isTextOfIdentifier_ofContent src children).mono
    (List.subset_cons_self ⟨kind, named, role, span, children⟩ _)
  cases kind with
  | name => exact .inr ⟨_, Node.mem_preorder_self _, .inl rfl, rfl⟩
  | primitiveType => exact .inr ⟨_, Node.mem_preorder_self _, .inr rfl, rfl⟩
  | parenthesized => exact hcontent
  | attributed => exact hcontent
  | _ => exact hrole

/-- The name that the declarator among some nodes declares is the text of an identifier below
them. -/
theorem isTextOfIdentifier_ofRole (src : Source) (nodes : List Node) :
    IsTextOfIdentifier src (Node.preorderAll nodes) (ofRole src nodes).declaredName := by
  cases nodes with
  | nil => exact .inl rfl
  | cons node rest =>
    unfold ofRole
    split_ifs
    · exact (isTextOfIdentifier_ofNode src node).mono (List.subset_append_left ..)
    · exact (isTextOfIdentifier_ofRole src rest).mono (List.subset_append_right ..)

/-- The same for what stands in parentheses. -/
theorem isTextOfIdentifier_ofContent (src : Source) (nodes : List Node) :
    IsTextOfIdentifier src (Node.preorderAll nodes) (ofContent src nodes).declaredName := by
  cases nodes with
  | nil => exact .inl rfl
  | cons node rest =>
    unfold ofContent
    split_ifs
    · exact (isTextOfIdentifier_ofNode src node).mono (List.subset_append_left ..)
    · exact (isTextOfIdentifier_ofContent src rest).mono (List.subset_append_right ..)

end

/-- The name that a declarator declares is the text of a name in it. -/
theorem isTextOfName_ofNode (src : Source) (node : Node) :
    IsTextOfName src node.preorder (ofNode src node).declaredName :=
  (isTextOfIdentifier_ofNode src node).imp_right fun ⟨m, hm, hkind, hs⟩ =>
    ⟨m, hm, hkind.imp_right .inl, hs⟩

end Declarator

/-! ## Learned names -/

/-- The name that a registry learns from a finding. -/
def Finding.learned? : Finding → Option Text
  | .declared _ => none
  | .typedef d _ => some d.name
  | .enumTypedef d => some d.name
  | .aggregate tag => some tag

namespace Registry

theorem mem_keys_put {key value k : Text} {table : List (Text × Text)}
    (h : k ∈ (put key value table).map Prod.fst) : k = key ∨ k ∈ table.map Prod.fst := by
  induction table with
  | nil => exact .inl (List.mem_singleton.1 h)
  | cons entry rest ih =>
    unfold put at h
    split_ifs at h with heq
    · rcases List.mem_cons.1 h with rfl | h
      · exact .inl rfl
      · exact .inr (List.mem_cons_of_mem _ h)
    · rcases List.mem_cons.1 h with rfl | h
      · exact .inr (by simp)
      · exact (ih h).imp_right (List.mem_cons_of_mem _)

theorem mem_names_addTypedef {reg : Registry} {key value name : Text} {base : Option Text}
    (h : name ∈ (reg.addTypedef key value base).names) : name = key ∨ name ∈ reg.names := by
  have hput {value : Text} {table : List (Text × Text)}
      (h : name ∈ (put key value table).map Prod.fst) : name = key ∨ name ∈ table.map Prod.fst :=
    mem_keys_put h
  simp only [addTypedef] at h
  split at h <;> simp only [names, List.mem_append] at h ⊢
  · rcases h with ((h | h) | h) | h
    · exact (hput h).imp_right fun h => .inl (.inl (.inl h))
    · exact (hput h).imp_right fun h => .inl (.inl (.inr h))
    · exact .inr (.inl (.inr h))
    · exact .inr (.inr h)
  · rcases h with ((h | h) | h) | h
    · exact (hput h).imp_right fun h => .inl (.inl (.inl h))
    · exact .inr (.inl (.inl (.inr h)))
    · exact .inr (.inl (.inr h))
    · exact .inr (.inr h)

/-- A finding adds at most the name that is learned from it. -/
theorem mem_names_learn {reg : Registry} {finding : Finding} {name : Text}
    (h : name ∈ (reg.learn finding).names) : finding.learned? = some name ∨ name ∈ reg.names := by
  cases finding with
  | declared d => exact .inr h
  | typedef d base =>
    refine (mem_names_addTypedef h).imp_left fun h => ?_
    rw [h]
    rfl
  | enumTypedef d =>
    simp only [learn, addEnum, names, List.mem_append, List.mem_insert_iff] at h ⊢
    rcases h with (h | rfl | h) | h
    · exact .inr (.inl (.inl h))
    · exact .inl rfl
    · exact .inr (.inl (.inr h))
    · exact .inr (.inr h)
  | aggregate tag =>
    simp only [learn, declare, names, List.mem_append, List.mem_insert_iff] at h ⊢
    rcases h with h | rfl | h
    · exact .inr (.inl h)
    · exact .inl rfl
    · exact .inr (.inr h)

/-- What holds of a registry that knows nothing, and after each finding, holds of what is
learned. -/
theorem learnFrom_induction {P : Registry → Prop} {findings : List (Option Finding)}
    (hempty : P {}) (hlearn : ∀ reg finding, some finding ∈ findings → P reg →
      P (reg.learn finding)) : P (learnFrom {} findings) := by
  have hfold (fs : List Finding) (reg : Registry) (hreg : P reg)
      (hfs : ∀ finding ∈ fs, some finding ∈ findings) : P (fs.foldl learn reg) := by
    induction fs generalizing reg with
    | nil => exact hreg
    | cons finding rest ih =>
      obtain ⟨hfinding, hrest⟩ := List.forall_mem_cons.1 hfs
      exact ih (reg.learn finding) (hlearn reg finding hfinding hreg) hrest
  exact hfold (made findings) {} hempty fun _ => some_mem_of_mem_made

/-- A registry that knew nothing has only learned names. -/
theorem exists_learned {findings : List (Option Finding)} {name : Text}
    (h : name ∈ (learnFrom {} findings).names) :
    ∃ finding, some finding ∈ findings ∧ finding.learned? = some name := by
  refine learnFrom_induction (P := fun reg => ∀ name ∈ reg.names, ∃ finding,
    some finding ∈ findings ∧ finding.learned? = some name) nofun ?_ name h
  intro reg finding hfinding ih name hname
  rcases mem_names_learn hname with hlearned | hname
  · exact ⟨finding, hfinding, hlearned⟩
  · exact ih name hname

end Registry

namespace Source

variable {src : Source} {root : Node}

/-- The names in a tree are words. -/
structure NamesWords (src : Source) (root : Node) : Prop where
  /-- The path of the file can be made part of a word. -/
  file : ∀ c ∈ src.file, isPathChar c = true
  /-- Names are words. -/
  names : ∀ node ∈ root.preorder, node.IsName → IsWord (src.textOf node)

/-- The tag of an aggregate is a word, whether it stands in the source or not. -/
theorem isWord_tag (h : NamesWords src root) (a : Aggregate) {node : Node}
    (hnode : node ∈ root.preorder) : IsWord (src.tag a node) := by
  unfold tag
  cases hname : node.child? .name with
  | some name =>
    have hrole : name.role = some .name := by simpa using List.find?_some hname
    exact h.names name (Node.mem_preorder_of_mem_children hnode (List.mem_of_find?_eq_some hname))
      (.inr (.inr hrole))
  | none =>
    simp only [anonymousName_eq a h.file]
    refine isWord_place a fun c hc => ?_
    obtain ⟨d, hd, rfl⟩ := List.mem_map.1 hc
    exact (isWordChar_of_mem_placeText h.file hd).1

/-- A typedef is learned under the name that it declares. -/
theorem learned?_of_mem_typedefFindings {base : Text} {type d : Node} {finding : Finding}
    {name : Text} (h : some finding ∈ src.typedefFindings base type d)
    (hname : finding.learned? = some name) : name = (Declarator.ofNode src d).declaredName := by
  obtain ⟨suffix, -, rfl | rfl | rfl⟩ := of_mem_typedefFindings h <;>
    exact (Option.some.inj hname).symm

/-- **All names that a scan stores are in word characters.** -/
theorem isWordChar_of_mem_names (h : NamesWords src root) {name : Text}
    (hname : name ∈ (src.registry root).names) {c : Char} (hc : c ∈ name) :
    isWordChar c = true := by
  obtain ⟨finding, hfinding, hlearned⟩ := Registry.exists_learned hname
  obtain ⟨node, hnode, hfinding⟩ := List.mem_flatMap.1 hfinding
  have hdeclared {o : Option Text} {g : Text → Declaration}
      (h : some finding = o.map fun s => .declared (g s)) : False := by
    obtain ⟨suffix, -, rfl⟩ := Option.map_eq_some_iff.1 h.symm
    cases hlearned
  unfold nodeFindings at hfinding
  split at hfinding
  · obtain ⟨type, -, d, hd, hfinding⟩ := mem_declaratorFindings_iff.1 hfinding
    have hd : d ∈ root.preorder :=
      Node.mem_preorder_of_mem_children hnode (List.mem_filter.1 hd).1
    rw [learned?_of_mem_typedefFindings hfinding hlearned] at hc
    rcases Declarator.isTextOfName_ofNode src d with hnil | ⟨m, hm, hisName, htext⟩
    · rw [hnil] at hc
      cases hc
    · rw [htext] at hc
      exact (h.names m (Node.preorder_subset root hd hm) hisName).chars c hc
  · obtain ⟨type, -, d, -, hfinding⟩ := mem_declaratorFindings_iff.1 hfinding
    exact (hdeclared (List.mem_singleton.1 hfinding)).elim
  · obtain ⟨type, -, d, -, hfinding⟩ := mem_declaratorFindings_iff.1 hfinding
    exact (hdeclared (List.mem_singleton.1 hfinding)).elim
  · exact (hdeclared (List.mem_singleton.1 hfinding)).elim
  · next a _ =>
    split_ifs at hfinding
    · obtain rfl := Option.some.inj (List.mem_singleton.1 hfinding)
      obtain rfl := Option.some.inj hlearned
      exact (isWord_tag h a hnode).chars c hc
    · cases hfinding
  · cases hfinding

end Source

end CSpelling

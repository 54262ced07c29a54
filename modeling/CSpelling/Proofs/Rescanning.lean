import CSpelling.Proofs.Order

/-!
# Scanning again

A scanner walks through a tree once. It lists declarations and registers names on the way, and stops
at the first size that cannot be written. What it lists is told by the tree alone, and what it
registers by the findings in order (`Scanner.walk_eq`, `Registry.scan_eq`).

The last spelling of a typedef and its last base win, and the other entries only grow. So a second
walk over the same tree passes through other registries than the first, but ends in the one that it
began with (`Registry.scan_again`), and the entries that the tree does not make are never touched.
-/

namespace CSpelling

open Text

/-! ## Tables filled one entry after the other -/

/-- The table after all entries are stored, one after the other. -/
def putAll (entries table : List (Text × Text)) : List (Text × Text) :=
  entries.foldl (fun table entry => put entry.1 entry.2 table) table

/-- The list after all names are inserted, one after the other. -/
def insertAll (names known : List Text) : List Text :=
  names.foldl (fun known name => known.insert name) known

section Tables

variable {k k' v w : Text} {entry : Text × Text} {entries table : List (Text × Text)}
  {name : Text} {names known : List Text}

theorem put_put (k v w : Text) (table : List (Text × Text)) :
    put k v (put k w table) = put k v table := by
  induction table with
  | nil => simp [put]
  | cons first rest ih =>
    obtain ⟨key, value⟩ := first
    by_cases h : key = k
    · simp [put, h]
    · simp [put, h, ih]

/-- A key that the table has keeps its place, whatever is stored before or after. -/
theorem put_comm (hne : k ≠ k') (hmem : k' ∈ table.map Prod.fst) :
    put k v (put k' w table) = put k' w (put k v table) := by
  induction table with
  | nil => cases hmem
  | cons first rest ih =>
    obtain ⟨key, value⟩ := first
    by_cases hk' : key = k'
    · subst hk'
      simp [put, hne.symm]
    · have hrest : k' ∈ rest.map Prod.fst :=
        (List.mem_cons.1 hmem).resolve_left fun heq => hk' heq.symm
      by_cases hk : key = k
      · subst hk
        simp [put, hne]
      · simp [put, hk, hk', ih hrest]

theorem mem_keys_put_iff :
    k' ∈ (put k v table).map Prod.fst ↔ k' = k ∨ k' ∈ table.map Prod.fst := by
  refine ⟨Registry.mem_keys_put, ?_⟩
  induction table with
  | nil => simp [put]
  | cons first rest ih =>
    obtain ⟨key, value⟩ := first
    by_cases h : key = k
    · simp [put, h]
    · simp only [put, h, if_false, List.map_cons, List.mem_cons]
      rintro (hk | hk | hk)
      · exact .inr (ih (.inl hk))
      · exact .inl hk
      · exact .inr (ih (.inr hk))

theorem mem_keys_putAll (h : k ∈ table.map Prod.fst ∨ k ∈ entries.map Prod.fst) :
    k ∈ (putAll entries table).map Prod.fst := by
  induction entries generalizing table with
  | nil => simpa [putAll] using h
  | cons entry rest ih =>
    refine ih ?_
    rw [mem_keys_put_iff]
    rw [List.map_cons, List.mem_cons] at h
    tauto

/-- What is stored at last wins over what was stored at first, if the keys between are there. -/
theorem put_putAll_put (hkeys : ∀ entry ∈ entries, entry.1 ∈ table.map Prod.fst) :
    put k v (putAll entries (put k w table)) = put k v (putAll entries table) := by
  induction entries generalizing table with
  | nil => exact put_put k v w table
  | cons entry rest ih =>
    show put k v (putAll rest (put entry.1 entry.2 (put k w table))) =
      put k v (putAll rest (put entry.1 entry.2 table))
    by_cases h : entry.1 = k
    · rw [h, put_put]
    · rw [← put_comm (Ne.symm h) (hkeys entry (by simp)), ih]
      intro other hother
      exact mem_keys_put_iff.2 (.inr (hkeys other (List.mem_cons_of_mem _ hother)))

/-- **Storing the same entries again changes nothing**, however often a key is among them. -/
theorem putAll_putAll (entries table : List (Text × Text)) :
    putAll entries (putAll entries table) = putAll entries table := by
  induction entries using List.reverseRecOn with
  | nil => rfl
  | append_singleton entries entry ih =>
    have hsnoc (table : List (Text × Text)) :
        putAll (entries ++ [entry]) table = put entry.1 entry.2 (putAll entries table) :=
      List.foldl_concat ..
    rw [hsnoc, hsnoc, put_putAll_put, ih]
    exact fun other hother => mem_keys_putAll (.inr (List.mem_map_of_mem hother))

theorem insertAll_of_subset (h : ∀ name ∈ names, name ∈ known) : insertAll names known = known := by
  induction names with
  | nil => rfl
  | cons name rest ih =>
    show insertAll rest (known.insert name) = known
    rw [List.insert_of_mem (h name (by simp))]
    exact ih fun other hother => h other (List.mem_cons_of_mem _ hother)

theorem mem_insertAll (h : name ∈ known ∨ name ∈ names) : name ∈ insertAll names known := by
  induction names generalizing known with
  | nil => simpa [insertAll] using h
  | cons first rest ih =>
    refine ih ?_
    rw [List.mem_insert_iff]
    rw [List.mem_cons] at h
    tauto

/-- **Inserting the same names again changes nothing.** -/
theorem insertAll_insertAll (names known : List Text) :
    insertAll names (insertAll names known) = insertAll names known :=
  insertAll_of_subset fun _ hname => mem_insertAll (.inr hname)

end Tables

/-! ## What findings enter -/

namespace Finding

/-- The spelling that a finding stores for a typedef. -/
def spellings : Finding → List (Text × Text)
  | .typedef d _ => [(d.name, d.spelling)]
  | _ => []

/-- The base that a finding stores for a typedef. An empty one is not stored. -/
def bases : Finding → List (Text × Text)
  | .typedef d (some (c :: base)) => [(d.name, c :: base)]
  | _ => []

/-- The typedef of an enumeration that a finding registers. -/
def enums : Finding → List Text
  | .enumTypedef d => [d.name]
  | _ => []

/-- The aggregate that a finding declares. -/
def tags : Finding → List Text
  | .aggregate tag => [tag]
  | _ => []

end Finding

namespace Registry

/-- The registry with the entries of some findings stored, table by table. -/
def enter (reg : Registry) (fs : List Finding) : Registry :=
  { reg with
    typedefs := putAll (fs.flatMap Finding.spellings) reg.typedefs
    bases := putAll (fs.flatMap Finding.bases) reg.bases
    enums := insertAll (fs.flatMap Finding.enums) reg.enums
    declared := insertAll (fs.flatMap Finding.tags) reg.declared }

theorem learn_eq_enter (reg : Registry) (f : Finding) : reg.learn f = reg.enter [f] := by
  cases f with
  | typedef d base =>
    match base with
    | none => rfl
    | some [] => rfl
    | some (c :: rest) => rfl
  | _ => rfl

theorem enter_append (reg : Registry) (fs gs : List Finding) :
    reg.enter (fs ++ gs) = (reg.enter fs).enter gs := by
  simp [enter, putAll, insertAll]

/-- The tables do not depend on each other. -/
theorem foldl_learn_eq_enter (reg : Registry) (fs : List Finding) :
    fs.foldl learn reg = reg.enter fs := by
  induction fs generalizing reg with
  | nil => rfl
  | cons f rest ih =>
    have hcons : reg.enter (f :: rest) = (reg.enter [f]).enter rest := reg.enter_append [f] rest
    rw [List.foldl_cons, ih, hcons, learn_eq_enter]

/-- **Findings that were learnt teach nothing new.** -/
theorem enter_enter (reg : Registry) (fs : List Finding) :
    (reg.enter fs).enter fs = reg.enter fs := by
  simp only [enter, putAll_putAll, insertAll_insertAll]

theorem learnFrom_learnFrom (reg : Registry) (findings : List (Option Finding)) :
    (reg.learnFrom findings).learnFrom findings = reg.learnFrom findings := by
  simp only [learnFrom, foldl_learn_eq_enter, enter_enter]

end Registry

/-! ## What findings leave alone -/

/-- An entry of a registry. -/
inductive Entry
  /-- The spelling and the base of a typedef. -/
  | typedef (name : Text)
  /-- A typedef of an enumeration. -/
  | enum (name : Text)
  /-- A declared aggregate. -/
  | aggregate (name : Text)
  deriving DecidableEq, Repr

/-- The entry that a finding writes. -/
def Finding.entry? : Finding → Option Entry
  | .declared _ => none
  | .typedef d _ => some (.typedef d.name)
  | .enumTypedef d => some (.enum d.name)
  | .aggregate tag => some (.aggregate tag)

/-- The entries that a tree writes. -/
def Source.entries (src : Source) (root : Node) : List Entry :=
  (made (src.findings root)).filterMap Finding.entry?

/-- What a registry tells under an entry. -/
inductive Entry.Value
  | typedef (underlying base : Option Text)
  | enum (known : Bool)
  | aggregate (declared : Bool)
  deriving DecidableEq, Repr

/-- What stands under an entry. -/
def Registry.read (reg : Registry) : Entry → Entry.Value
  | .typedef name => .typedef (reg.underlying? name) (reg.base? name)
  | .enum name => .enum (reg.isEnum name)
  | .aggregate name => .aggregate (reg.isDeclared name)

namespace Registry

variable (reg : Registry)

/-- A finding writes its own entry and no other. -/
theorem read_learn {f : Finding} {e : Entry} (h : f.entry? ≠ some e) :
    (reg.learn f).read e = reg.read e := by
  cases f with
  | declared d => rfl
  | typedef d base =>
    obtain ⟨henum, hdeclared⟩ := reg.addTypedef_rest d.name d.spelling base
    cases e with
    | typedef name =>
      have hname : name ≠ d.name := fun heq => h (by rw [heq, Finding.entry?])
      simp only [read, learn, underlying?_addTypedef, base?_addTypedef, hname, if_false]
    | enum name => exact congrArg (fun p => Entry.Value.enum (p name)) henum
    | aggregate name => exact congrArg (fun p => Entry.Value.aggregate (p name)) hdeclared
  | enumTypedef d =>
    cases e with
    | enum name =>
      have hname : name ≠ d.name := fun heq => h (by rw [heq, Finding.entry?])
      simp [read, learn, hname]
    | _ => rfl
  | aggregate tag =>
    cases e with
    | aggregate name =>
      have hname : name ≠ tag := fun heq => h (by rw [heq, Finding.entry?])
      simp [read, learn, hname]
    | _ => rfl

theorem read_learnFrom {src : Source} {root : Node} {e : Entry} (h : e ∉ src.entries root) :
    (reg.learnFrom (src.findings root)).read e = reg.read e := by
  refine reg.foldl_learn_congr (·.read e) fun f hf reg => reg.read_learn fun hentry => h ?_
  exact List.mem_filterMap.2 ⟨f, hf, hentry⟩

theorem imports_learnFrom (findings : List (Option Finding)) :
    (reg.learnFrom findings).imports = reg.imports :=
  reg.foldl_learn_congr (·.imports) fun f _ reg => (reg.learn_rest f).2

end Registry

/-! ## The walk of a scanner -/

/-- A scanner on its way through a tree. -/
structure Scanner where
  /-- What is known so far. -/
  registry : Registry
  /-- What was declared so far. -/
  declarations : List Declaration := []
  /-- A size was met that cannot be written. -/
  stopped : Bool := false

namespace Scanner

/-- The scanner after a finding. One that stopped meets nothing more. -/
def meet (s : Scanner) : Option Finding → Scanner
  | none => { s with stopped := true }
  | some f =>
    if s.stopped then s
    else { s with
      registry := s.registry.learn f
      declarations := s.declarations ++ f.declaration?.toList }

section Walk

variable (src : Source)

mutual

/-- The walk through a tree: what the node says, then its children one after another. -/
def walk (s : Scanner) : Node → Scanner
  | ⟨kind, named, role, span, children⟩ =>
    walkAll ((src.nodeFindings ⟨kind, named, role, span, children⟩).foldl meet s) children

/-- The walk through some trees. -/
def walkAll (s : Scanner) : List Node → Scanner
  | [] => s
  | node :: rest => walkAll (walk s node) rest

end

mutual

/-- **A scanner meets the findings in a tree in order.** -/
theorem walk_eq (s : Scanner) (node : Node) :
    walk src s node = (src.findings node).foldl meet s := by
  cases node with
  | mk kind named role span children =>
    rw [walk, walkAll_eq, src.findings_eq, List.foldl_append]

/-- The same for some trees. -/
theorem walkAll_eq (s : Scanner) (nodes : List Node) :
    walkAll src s nodes = (nodes.flatMap src.findings).foldl meet s := by
  cases nodes with
  | nil => rfl
  | cons node rest => rw [walkAll, walk_eq, walkAll_eq, List.flatMap_cons, List.foldl_append]

end

end Walk

variable (s : Scanner)

theorem foldl_meet_of_stopped (h : s.stopped = true) (findings : List (Option Finding)) :
    findings.foldl meet s = s := by
  induction findings with
  | nil => rfl
  | cons f rest ih =>
    have hmeet : s.meet f = s := by
      cases f with
      | none => rw [meet, ← h]
      | some f => rw [meet, if_pos h]
    rw [List.foldl_cons, hmeet, ih]

/-- What a scanner has gathered when it stops or comes to the end. -/
theorem foldl_meet (h : s.stopped = false) (findings : List (Option Finding)) :
    findings.foldl meet s =
      ⟨s.registry.learnFrom findings,
        s.declarations ++ (made findings).filterMap Finding.declaration?,
        !findings.all Option.isSome⟩ := by
  induction findings generalizing s with
  | nil => simp [Registry.learnFrom, made, ← h]
  | cons f rest ih =>
    cases f with
    | none =>
      rw [List.foldl_cons, foldl_meet_of_stopped _ rfl]
      simp [meet, Registry.learnFrom, made]
    | some f =>
      have hmeet : s.meet (some f) =
          ⟨s.registry.learn f, s.declarations ++ f.declaration?.toList, false⟩ := by
        rw [meet, if_neg (by simp [h]), h]
      have hdeclared : (made (some f :: rest)).filterMap Finding.declaration? =
          f.declaration?.toList ++ (made rest).filterMap Finding.declaration? := by
        rw [made, List.filterMap_cons]
        cases f.declaration? <;> rfl
      rw [List.foldl_cons, hmeet, ih _ rfl, hdeclared, List.append_assoc]
      simp [Registry.learnFrom, made]

end Scanner

/-! ## Scans into a registry -/

namespace Registry

/-- A scan into a registry: the declarations, unless one of them has a size that cannot be written,
and the registry that is left. -/
def scan (reg : Registry) (src : Source) (root : Node) : Option (List Declaration) × Registry :=
  let s := Scanner.walk src { registry := reg } root
  (if s.stopped then none else some s.declarations, s.registry)

/-- **A scan lists what the tree tells and learns what the tree tells.** -/
theorem scan_eq (reg : Registry) (src : Source) (root : Node) :
    reg.scan src root = (src.scan root, reg.learnFrom (src.findings root)) := by
  rw [scan, Scanner.walk_eq, Scanner.foldl_meet _ rfl, Source.scan]
  cases (src.findings root).all Option.isSome <;> rfl

/-- **Scanning again changes nothing.** A scan that does not give up lists the same declarations
whatever is registered, leaves alone the entries that the tree does not write and the packages, and
repeated on the registry that it leaves, lists and leaves the same. -/
theorem scan_again (reg : Registry) (src : Source) (root : Node) (decls : List Declaration)
    (hscan : (reg.scan src root).1 = some decls) :
    let after := (reg.scan src root).2
    (∀ other : Registry, (other.scan src root).1 = some decls) ∧
      (∀ e ∉ src.entries root, after.read e = reg.read e) ∧
      after.imports = reg.imports ∧
      after.scan src root = (some decls, after) := by
  simp only [scan_eq] at hscan ⊢
  refine ⟨fun _ => hscan, fun e he => reg.read_learnFrom he, reg.imports_learnFrom _, ?_⟩
  rw [hscan, learnFrom_learnFrom]

/-- A name that is defined twice, at first with a tag and then without. -/
def twiceSource : Source := ⟨"twice.c".toList, "typedef struct S id; typedef int id;".toList⟩

/-- The tree of `twiceSource`. -/
def twiceTree : Node :=
  .onLine .other none 0 36 [
    .onLine .typedef none 0 20 [
      .onLine (.aggregate .struct) (some .type) 8 16 [.onLine .name (some .name) 15 16 []],
      .onLine .name (some .declarator) 17 19 []],
    Source.idDefinition 21]

/-- The spelling that comes last and the base that came before are both what a second scan finds. -/
theorem scan_again_twice :
    let id := "id".toList
    let kept := "kept".toList
    let reg : Registry :=
      { typedefs := [(id, "char".toList), (kept, "long".toList)], imports := ["a/b".toList] }
    let decls : List Declaration :=
      [⟨id, .typedef, "struct S".toList, ⟨1, 17, 1, 19⟩⟩,
        ⟨id, .typedef, "int".toList, ⟨1, 33, 1, 35⟩⟩]
    let after := (reg.scan twiceSource twiceTree).2
    (reg.scan twiceSource twiceTree).1 = some decls ∧
      ((∀ other : Registry, (other.scan twiceSource twiceTree).1 = some decls) ∧
        (∀ e ∉ twiceSource.entries twiceTree, after.read e = reg.read e) ∧
        after.imports = reg.imports ∧
        after.scan twiceSource twiceTree = (some decls, after)) ∧
      twiceSource.entries twiceTree = List.replicate 2 ( .typedef id) ∧
      after.underlying? id = some "int".toList ∧ after.base? id = some "struct S".toList ∧
      after.underlying? kept = some "long".toList := by
  intro id kept reg decls after
  have hscan : (reg.scan twiceSource twiceTree).1 = some decls := by decide +kernel
  exact ⟨hscan, scan_again reg twiceSource twiceTree decls hscan, by decide +kernel,
    by decide +kernel, by decide +kernel, by decide +kernel⟩

end Registry

end CSpelling

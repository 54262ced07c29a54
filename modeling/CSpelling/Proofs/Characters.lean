import CSpelling.Proofs.Cuts
import CSpelling.Proofs.Weights

/-!
# The characters that a spelling is read as

Reading a spelling brings in no characters but a few. The parts of a function type hold nothing but
characters of the function type and spaces (`Parts.subset_of_ofSpelling`). If a property holds of
the characters of a spelling, of what typedefs stand for, and of the characters that reading adds,
it holds of all characters in the reading, but in a name of the tables
(`Reading.madeOf_ofSpelling`).
-/

namespace CSpelling

open Text

variable {s t : Text}

/-! ## Parts of a spelling -/

theorem flattenBlock_subset (block : Text) : flattenBlock block ⊆ ' ' :: block := by
  intro c hc
  obtain ⟨d, hd, rfl⟩ := List.mem_map.1 ((removeFirst_sublist _ _).subset hc)
  split_ifs
  · exact List.mem_cons_self
  · exact List.mem_cons_of_mem _ hd

theorem cutAtOpen_subset {before after : Text} (h : cutAtOpen s = some (before, after)) :
    before ⊆ s ∧ after ⊆ s := by
  obtain ⟨⟨front, back⟩, hcut, heq⟩ := Option.map_eq_some_iff.1 h
  obtain ⟨rfl, rfl⟩ := Prod.mk.inj heq
  rw [eq_of_cut hcut, List.append_assoc]
  exact ⟨List.subset_append_left _ _, List.subset_append_right _ _⟩

/-- A block brings nothing in but spaces. -/
theorem unwrapBlock_subset {block base indirection returns : Text}
    (h : unwrapBlock block base = .ok (indirection, returns)) :
    indirection ⊆ ' ' :: block ∧ returns ⊆ base ++ block := by
  have hinterior : interior block ⊆ block := (interior_sublist block).subset
  have hunmarked : interior (removeFirst marker block) ⊆ block :=
    ((interior_sublist _).trans (removeFirst_sublist marker block)).subset
  have hbase {after : Text} (hafter : after ⊆ block) : base ++ after ⊆ base ++ block :=
    List.append_subset.2 ⟨List.subset_append_left _ _, List.subset_append_of_subset_right _ hafter⟩
  unfold unwrapBlock at h
  split at h
  · cases h
    exact ⟨List.nil_subset _, List.subset_append_left _ _⟩
  · cases h
    exact ⟨flattenBlock_subset block, List.subset_append_left _ _⟩
  · cases h
    exact ⟨flattenBlock_subset block, List.subset_append_left _ _⟩
  · split at h
    · cases h
    · next hcut =>
      obtain ⟨hstars, hafter⟩ := cutAtOpen_subset hcut
      split_ifs at h
      cases h
      have hblock : removeFirst ['*'] _ ⊆ block :=
        List.Subset.trans (List.Subset.trans (removeFirst_sublist _ _).subset hstars) hinterior
      exact ⟨List.subset_cons_of_subset _ hblock, hbase (List.Subset.trans hafter hinterior)⟩
  · split at h
    · cases h
    · next hcut =>
      obtain ⟨hstars, hafter⟩ := cutAtOpen_subset hcut
      cases h
      have hblock := List.Subset.trans hstars hunmarked
      exact ⟨List.subset_cons_of_subset _ hblock, hbase (List.Subset.trans hafter hunmarked)⟩

theorem strip_subset (h : s ⊆ t) : strip s ⊆ t := fun _ hc => h (mem_of_mem_strip hc)

/-- The parts of a function type bring nothing in but spaces. -/
theorem Parts.subset_of_ofSpelling {parts : Parts} (h : ofSpelling s = .ok parts) :
    parts.indirection ⊆ ' ' :: s ∧ ∀ f ∈ parts.spellings, f ⊆ s := by
  obtain ⟨-, before, inner, hsplit, -, -, h⟩ := ofSpelling_eq_ok_iff.1 h
  have hs : before ++ '(' :: (inner ++ [')']) ⊆ s := hsplit ▸ strip_subset fun _ hc => hc
  obtain ⟨hbefore, harguments⟩ := List.append_subset.1 hs
  have hinner : inner ⊆ s := fun c hc => harguments (by simp [hc])
  have hfields : ∀ f ∈ topFields inner, f ⊆ s := by
    intro f hf
    obtain ⟨g, hg, rfl⟩ := List.mem_map.1 hf
    exact strip_subset (List.Subset.trans (sublist_of_mem_fieldsWithin hg).subset hinner)
  have hparts {indirection returns : Text} (hreturns : returns ⊆ s) :
      ∀ f ∈ (⟨indirection, topFields inner, returns⟩ : Parts).spellings, f ⊆ s := by
    intro f hf
    rcases List.mem_append.1 hf with hf | hf
    · exact hfields f (List.mem_of_mem_filter hf)
    · rwa [List.mem_singleton.1 hf]
  rcases ofReturns_eq_ok_iff.1 h with
    ⟨-, rfl⟩ | ⟨base, block, indirection, extended, hreturns, -, hunwrap, rfl⟩
  · exact ⟨List.nil_subset _, hparts (strip_subset hbefore)⟩
  · obtain ⟨hindirection, hextended⟩ := unwrapBlock_subset hunwrap
    have hwhole : base ++ '(' :: (block ++ [')']) ⊆ s := hreturns ▸ strip_subset hbefore
    have hblock : '(' :: (block ++ [')']) ⊆ s := (List.append_subset.1 hwhole).2
    have hspaced : indirection ⊆ ' ' :: s :=
      List.Subset.trans hindirection (List.cons_subset_cons _ hblock)
    exact ⟨strip_subset hspaced, hparts (strip_subset (List.Subset.trans hextended hwhole))⟩

/-! ## Readings -/

namespace Registry

/-- What typedefs stand for and what they name. -/
def meanings (reg : Registry) : List Text := (reg.typedefs ++ reg.bases).map Prod.snd

theorem mem_meanings_of_underlying? {reg : Registry} (h : reg.underlying? s = some t) :
    t ∈ reg.meanings :=
  List.mem_map_of_mem (List.mem_append_left _ (mem_of_lookup h))

theorem mem_meanings_of_base? {reg : Registry} (h : reg.base? s = some t) : t ∈ reg.meanings :=
  List.mem_map_of_mem (List.mem_append_right _ (mem_of_lookup h))

end Registry

namespace Reading

/-- The characters that reading adds: those of an `int`, of a space and of a slice. -/
def addedChars : Text := "int []".toList

/-- The property holds of all characters in what the reading is made of, but in a name of the
tables. -/
def MadeOf (P : Char → Prop) : Reading → Prop
  | .descriptor d => ∀ c ∈ d, P c
  | .named name => name ∈ (primitives ++ standardStructs).map Prod.snd ∨ ∀ c ∈ name, P c
  | .function s => ∀ c ∈ s, P c
  | .enumeration => True
  | .alias _ underlying => ∀ c ∈ underlying, P c
  | .pointer pointee => ∀ c ∈ pointee, P c
  | .array dimensions element => (∀ c ∈ dimensions, P c) ∧ ∀ c ∈ element, P c
  | .rejected _ _ => True

variable {P : Char → Prop}

theorem forall_mem_afterKeyword? {keywords : List Text} {tag : Text} (hs : ∀ c ∈ s, P c)
    (h : afterKeyword? keywords s = some tag) : ∀ c ∈ tag, P c := by
  obtain ⟨keyword, -, hdrop⟩ := List.exists_of_findSome?_eq_some h
  obtain rfl := dropStart?_eq_some_iff.1 hdrop
  exact fun c hc => hs c (List.mem_append_right _ hc)

theorem madeOf_ofName? {reg : Registry} (hreg : ∀ t ∈ reg.meanings, ∀ c ∈ t, P c) {unwind : Bool}
    {r : Reading} (hs : ∀ c ∈ s, P c) (h : ofName? reg unwind s = some r) : r.MadeOf P := by
  have htable {table : List (Text × Text)} {d : Text} (h : table.lookup s = some d)
      (hsub : table ⊆ primitives ++ standardStructs) : (Reading.named d).MadeOf P :=
    .inl (List.mem_map_of_mem (hsub (mem_of_lookup h)))
  unfold ofName? at h
  split at h
  · next hd =>
    cases h
    exact htable hd (List.subset_append_left _ _)
  split at h
  · next htag =>
    cases h
    obtain ⟨base, hbase, hdrop⟩ := Option.bind_eq_some_iff.1 htag
    obtain rfl := dropStart?_eq_some_iff.1 hdrop
    exact fun c hc => hreg _ (Registry.mem_meanings_of_base? hbase) c (List.mem_append_right _ hc)
  split at h
  · next hname =>
    cases h
    rw [Registry.functionPointee?, Option.filter_eq_some_iff] at hname
    obtain rfl := dropEnd?_eq_some_iff.1 hname.1
    exact fun c hc => hs c (List.mem_append_left _ hc)
  split at h
  · next hd =>
    cases h
    exact htable hd (List.subset_append_right _ _)
  split_ifs at h
  · cases h
    exact hs
  · cases h
    exact hs
  rcases Option.or_eq_some_iff.1 h with h | ⟨-, h⟩
  · unfold ofAlias? at h
    split_ifs at h
    · cases h
      trivial
    · obtain ⟨underlying, hunderlying, rfl⟩ := Option.map_eq_some_iff.1 h
      split_ifs
      · exact hs
      · exact hreg underlying (Registry.mem_meanings_of_underlying? hunderlying)
  · simp only [ofDeclared?, Option.ite_none_right_eq_some, Option.some.injEq] at h
    rw [← h.2]
    refine .inr ?_
    cases hafter : afterKeyword? [structKeyword, unionKeyword, classKeyword] s with
    | none => exact hs
    | some tag => exact forall_mem_afterKeyword? hs hafter

theorem madeOf_ofForm (hadded : ∀ c ∈ addedChars, P c) (hs : ∀ c ∈ s, P c) :
    (ofForm s).MadeOf P := by
  unfold ofForm
  split
  · exact fun c hc => hs c (List.dropLast_subset s (mem_of_mem_strip hc))
  split
  · next hsized =>
    have hparens : withoutParens s ⊆ s := List.filter_sublist.subset
    obtain ⟨a, b, hsplit, -, rfl, rfl, -⟩ := exists_of_sizedArray? hsized
    have hb : b ⊆ s := fun c hc => hparens (hsplit ▸ List.mem_append_right a hc)
    have hgroups : dimensions (sizeGroups (b.dropWhile isElementChar)) ⊆ s := fun c hc =>
      hb ((List.dropWhile_sublist _).subset
        ((sizeGroupsAfter_sublist 0 _).subset (List.mem_of_mem_filter hc)))
    have helement := List.Subset.trans (List.takeWhile_sublist isElementChar).subset hb
    exact ⟨fun c hc => hs c (hgroups hc), fun c hc => hs c (helement hc)⟩
  split
  · next htag => exact forall_mem_afterKeyword? hs htag
  split_ifs
  · trivial
  · trivial
  · trivial
  split
  · next helement =>
    obtain rfl := dropEnd?_eq_some_iff.1 helement
    have hbrackets : ['[', ']'] ⊆ addedChars := by decide
    exact ⟨fun c hc => hadded c (hbrackets hc), fun c hc => hs c (List.mem_append_left _ hc)⟩
  · trivial

/-- **A spelling is read as what it is made of**: its own characters, those of what typedefs stand
for, and few more. -/
theorem madeOf_ofSpelling {reg : Registry} (hreg : ∀ t ∈ reg.meanings, ∀ c ∈ t, P c)
    (hadded : ∀ c ∈ addedChars, P c) (unwind : Bool) (hs : ∀ c ∈ s, P c) :
    (ofSpelling reg unwind s).MadeOf P := by
  have hint : "int".toList ⊆ addedChars := by decide
  have hnormal : ∀ c ∈ normalize s, P c := fun c hc =>
    (mem_of_mem_normalize hc).elim (hs c) (by rintro rfl; exact hadded _ (by decide))
  have hknown : ∀ c ∈ substitute (normalize s), P c := fun c hc =>
    (mem_of_mem_substitute hc).elim (hnormal c) fun hc => hadded c (hint hc)
  unfold ofSpelling
  dsimp only
  -- The cases are told apart without unfolding the normal spelling.
  generalize normalize s = n at hknown ⊢
  split_ifs
  · trivial
  · trivial
  · exact fun c hc => hadded c (hint hc)
  generalize substitute n = known at hknown ⊢
  cases hname : ofName? reg unwind known with
  | some r => exact madeOf_ofName? hreg hknown hname
  | none => exact madeOf_ofForm hadded hknown

end Reading

end CSpelling

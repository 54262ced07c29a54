import CSpelling.Proofs.Cuts
import CSpelling.Proofs.Origins
import Mathlib.Logic.Relation

/-!
# Typedefs that mention each other

A typedef mentions another if this is a word of what it stands for; because arrays are looked for
in the spelling without its parentheses, the words that are left then count too
(`Registry.Mentions`). While typedefs are unwound, the chain of the ones that were met is a path of
mentions, and all words that are read are mentioned by the last of them (`Registry.Covers`). So a
typedef is met again only if it mentions itself, directly or through others
(`Registry.cause_ne_typedefCycle`).

Function types break no path: a typedef of a function type is not unwound, and the parts of a
function type are only read before the first typedef is.
-/

namespace CSpelling

open Text CSpelling.Normal Trace

/-! ## The words that are read -/

/-- The word belongs to the spelling, or to the spelling without its parentheses. -/
def ReadsWord (s w : Text) : Prop :=
  IsWord w ∧ (w ∈ chunks s ∨ w ∈ chunks (Reading.withoutParens s))

section ReadsWord

variable {a b s w : Text}

theorem withoutParens_of_not_mem (hopen : '(' ∉ s) (hclose : ')' ∉ s) :
    Reading.withoutParens s = s := by
  refine List.filter_eq_self.2 fun c hc => ?_
  have hne : c ≠ '(' ∧ c ≠ ')' := ⟨fun h => hopen (h ▸ hc), fun h => hclose (h ▸ hc)⟩
  simp [hne]

theorem withoutParens_append (s t : Text) :
    Reading.withoutParens (s ++ t) = Reading.withoutParens s ++ Reading.withoutParens t :=
  List.filter_append ..

theorem not_mem_gap (h : IsGap s) : '(' ∉ s ∧ ')' ∉ s :=
  ⟨fun hc => absurd (h _ hc) (by decide), fun hc => absurd (h _ hc) (by decide)⟩

theorem ReadsWord.of_strip (hword : startsWord b = false) (hopen : '(' ∉ b) (hclose : ')' ∉ b)
    (h : ReadsWord (strip a) w) : ReadsWord (a ++ b) w := by
  obtain ⟨front, back, ha, hfront, hback⟩ := exists_gaps a
  have hend : startsWord (back ++ b) = false := startsWord_gap_append hback hword
  have hsplit : a ++ b = front ++ strip a ++ (back ++ b) := by
    rw [← List.append_assoc, ← ha]
  rw [hsplit]
  refine ⟨h.1, h.2.imp (mem_chunks_append (endsWord_of_isGap hfront) hend) fun hw => ?_⟩
  obtain ⟨hfrontOpen, hfrontClose⟩ := not_mem_gap hfront
  obtain ⟨hbackOpen, hbackClose⟩ := not_mem_gap hback
  rw [withoutParens_append, withoutParens_append, withoutParens_of_not_mem hfrontOpen hfrontClose,
    withoutParens_of_not_mem (s := back ++ b) (by simp [hbackOpen, hopen])
      (by simp [hbackClose, hclose])]
  exact mem_chunks_append (endsWord_of_isGap hfront) hend hw

/-- The words of the element of an array with sizes are words of the array. -/
theorem ReadsWord.of_element {element groups : Text}
    (h : Reading.sizedArray? (Reading.withoutParens s) = some (element, groups))
    (hw : ReadsWord (normalize element) w) : ReadsWord s w := by
  obtain ⟨a, b, hsplit, ha, hb, hchars⟩ := exists_append_of_sizedArray? h
  have hcontrols : ∀ c ∈ element, isControl c = false := by
    intro c hc
    have hcases : (isWordChar c = true ∨ c = '*') ∨ c = ' ' := by
      simpa [Reading.isElementChar] using hchars c hc
    rcases hcases with (hword | rfl) | rfl
    · exact isControl_of_isWordChar hword
    · decide
    · decide
  have hparens {d : Char} (hd : Reading.isElementChar d = false) (hne : d ≠ ' ') :
      d ∉ normalize element := fun hmem => by
    rcases mem_of_mem_normalize hmem with hmem | rfl
    · rw [hchars d hmem] at hd
      cases hd
    · exact hne rfl
  have hsame : Reading.withoutParens (normalize element) = normalize element :=
    withoutParens_of_not_mem (hparens (by decide) (by decide))
      (hparens (by decide) (by decide))
  obtain ⟨hword, hmem⟩ := hw
  rw [hsame, or_self] at hmem
  refine ⟨hword, .inr ?_⟩
  rw [hsplit]
  exact mem_chunks_append ha hb (mem_chunks_of_normalize hcontrols hword hmem)

end ReadsWord

/-! ## The parts of a spelling -/

namespace Reading

/-- What is left of a pointer or an array. -/
inductive Left (s : Text) : Text → Prop
  /-- The pointee. -/
  | pointee (h : s.getLast? = some '*') : Left s (strip s.dropLast)
  /-- The element of an array with sizes. -/
  | element {element groups : Text}
      (h : sizedArray? (withoutParens s) = some (element, groups)) : Left s element
  /-- The element of an array without size. -/
  | unsized {element : Text} (h : s = element ++ unsizedEnd) : Left s element

theorem left_of_ofForm {chain : List Text} {s : Text} {p : List Text × Text}
    (h : p ∈ (ofForm s).parts chain) : p.1 = chain ∧ Left s p.2 := by
  unfold ofForm at h
  split at h
  · next hstar =>
    rw [List.mem_singleton.1 h]
    exact ⟨rfl, .pointee hstar⟩
  split at h
  · next hsized =>
    rw [List.mem_singleton.1 h]
    exact ⟨rfl, .element hsized⟩
  split at h
  · cases h
  split_ifs at h
  · cases h
  · cases h
  · cases h
  split at h
  · next hend =>
    rw [List.mem_singleton.1 h]
    exact ⟨rfl, .unsized (dropEnd?_eq_some_iff.1 hend)⟩
  · cases h

/-- A part of a spelling is an `int`, a part of a function type, what a typedef stands for, or what
is left of a pointer or an array. -/
theorem parts_of_ofSpelling {reg : Registry} {unwind : Bool} {chain : List Text} {s : Text}
    {p : List Text × Text} (h : p ∈ (ofSpelling reg unwind s).parts chain) :
    p = (chain, "int".toList) ∨
      (p.1 = chain ∧ isFunction (substitute (normalize s)) = true) ∨
      (∃ name u, ofSpelling reg unwind s = .alias name u ∧ p = (chain ++ [name], u)) ∨
      (p.1 = chain ∧ Left (substitute (normalize s)) p.2) := by
  unfold ofSpelling at h ⊢
  dsimp only at h ⊢
  split_ifs at h ⊢
  · cases h
  · cases h
  · cases h
  generalize substitute (normalize s) = known at h ⊢
  cases hname : ofName? reg unwind known with
  | some r =>
    rw [hname, Option.getD_some] at h
    rw [Option.getD_some]
    rcases ofName?_cases hname with
      ⟨d, rfl⟩ | ⟨d, rfl⟩ | ⟨rfl, hfunction⟩ | rfl | ⟨u, -, rfl, -⟩
    · cases h
    · cases h
    · rw [parts] at h
      split at h
      · obtain ⟨f, -, rfl⟩ := List.mem_map.1 h
        exact .inr (.inl ⟨rfl, hfunction⟩)
      · cases h
    · exact .inl (List.mem_singleton.1 h)
    · rw [parts] at h
      split_ifs at h
      · cases h
      · exact .inr (.inr (.inl ⟨known, u, rfl, List.mem_singleton.1 h⟩))
  | none =>
    rw [hname, Option.getD_none] at h
    exact .inr (.inr (.inr (left_of_ofForm h)))

end Reading

/-! ## Mentions -/

namespace Registry

/-- The typedef `m` is a whole word of what the typedef `n` stands for: of the normal spelling or,
if that is no function type, of the normal spelling without its parentheses. -/
def Mentions (reg : Registry) (n m : Text) : Prop :=
  (reg.underlying? m).isSome ∧ ∃ u, reg.underlying? n = some u ∧
    (StandsAlone m (normalize u) ∨
      isFunction u = false ∧ StandsAlone m (Reading.withoutParens (normalize u)))

/-- The typedefs are words, no text of a system header is read in what they stand for, and none
mentions itself, directly or through others. -/
structure Acyclic (reg : Registry) : Prop where
  /-- The typedefs are words. -/
  words : ∀ n, (reg.underlying? n).isSome → IsWord n
  /-- What is unwound is read as it stands. -/
  free : ∀ n u, reg.underlying? n = some u → isFunction u = false →
    FreeOf (normalize u) ∧ FreeOf (Reading.withoutParens (normalize u))
  /-- No typedef mentions itself. -/
  irreflexive : ∀ n, ¬Relation.TransGen reg.Mentions n n

/-- The spelling is no function type, and what is read in it is mentioned by the typedef `n`. -/
structure Covers (reg : Registry) (n s : Text) : Prop where
  /-- The spelling is no function type. -/
  plain : isFunction s = false
  /-- The words are read as they stand. -/
  free : ∀ w, ReadsWord s w → FreeOf w
  /-- The typedefs among the words are mentioned. -/
  mentions : ∀ w, ReadsWord s w → (reg.underlying? w).isSome → reg.Mentions n w

variable {reg : Registry} {n s : Text}

/-- What a typedef stands for is covered by the typedef. -/
theorem Acyclic.covers (h : reg.Acyclic) {u : Text} (hn : reg.underlying? n = some u)
    (hplain : isFunction u = false) : reg.Covers n (normalize u) := by
  obtain ⟨hfree, hwithout⟩ := h.free n u hn hplain
  refine ⟨isFunction_normalize hplain, fun w hw => ?_, fun w hw hsome => ⟨hsome, u, hn, ?_⟩⟩
  · rcases hw.2 with hmem | hmem
    · exact hfree.of_infix (infix_of_mem_chunks hmem)
    · exact hwithout.of_infix (infix_of_mem_chunks hmem)
  · rw [standsAlone_iff hw.1.ne_nil hw.1.chars, standsAlone_iff hw.1.ne_nil hw.1.chars]
    exact hw.2.imp_right fun hmem => ⟨hplain, hmem⟩

namespace Covers

theorem of_words (h : reg.Covers n s) {t : Text} (hplain : isFunction t = false)
    (hwords : ∀ w, ReadsWord t w → ReadsWord s w) : reg.Covers n t :=
  ⟨hplain, fun w hw => h.free w (hwords w hw), fun w hw => h.mentions w (hwords w hw)⟩

/-- A covered spelling is read as it stands. -/
theorem substitute (h : reg.Covers n s) : Reading.substitute s = s :=
  FreeOf.substitute (freeOf_of_chunks fun w hw hword => h.free w ⟨hword, .inl hw⟩)

theorem strip {a b : Text} (h : reg.Covers n (a ++ b)) (hword : startsWord b = false)
    (hopen : '(' ∉ b) (hclose : ')' ∉ b) : reg.Covers n (strip a) := by
  refine h.of_words ?_ fun w hw => hw.of_strip hword hopen hclose
  obtain ⟨front, back, ha, -, hback⟩ := exists_gaps a
  have hplain := h.plain
  rw [ha, List.append_assoc _ back] at hplain
  exact isFunction_of_append hplain (by simp [(not_mem_gap hback).2, hclose])

/-- What is left of a pointer or an array is covered if the whole is. -/
theorem of_left (h : reg.Covers n s) (hs : IsNormal s) {t : Text} (ht : Reading.Left s t) :
    reg.Covers n (normalize t) := by
  have hstar : startsWord ['*'] = false := not_isWordChar_of_mem (c := '*') (by decide)
  have hspace : startsWord Reading.unsizedEnd = false := not_isWordChar_of_isBlank isBlank_space
  cases ht with
  | pointee hend =>
    obtain ⟨before, rfl⟩ := List.getLast?_eq_some_iff.1 hend
    rw [List.dropLast_concat, normalize_strip_of_append hs hstar (by decide)]
    exact h.strip hstar (by decide) (by decide)
  | element helement =>
    refine h.of_words (isFunction_of_not_mem fun hmem => ?_) fun w hw => hw.of_element helement
    obtain ⟨-, -, -, -, -, hchars⟩ := exists_append_of_sizedArray? helement
    rcases mem_of_mem_normalize hmem with hmem | hmem
    · exact absurd (hchars _ hmem) (by decide)
    · exact absurd hmem (by decide)
  | unsized hend =>
    subst hend
    rw [normalize_of_append hs hspace (by decide)]
    exact h.strip hspace (by decide) (by decide)

end Covers

/-! ## Chains of typedefs -/

/-- The spelling is an `int`, or no typedef led to it, or the last typedef that did covers it and is
mentioned, directly or through others, by all before it. -/
def OnPath (reg : Registry) (p : List Text × Text) : Prop :=
  p.2 = "int".toList ∨ p.1 = [] ∨
    ∃ n, (∀ m ∈ p.1, Relation.ReflTransGen reg.Mentions m n) ∧ reg.Covers n (normalize p.2)

/-- A typedef that is read on a path is mentioned by all typedefs of the path. -/
theorem OnPath.transGen {unwind : Bool} (h : reg.Acyclic) {p : List Text × Text}
    (hp : reg.OnPath p) {name u : Text}
    (hreading : Reading.ofSpelling reg unwind p.2 = .alias name u) :
    ∀ m ∈ p.1, Relation.TransGen reg.Mentions m name := by
  obtain ⟨-, hname, hunderlying, -⟩ := Reading.ofSpelling_eq_alias hreading
  intro m hm
  rcases hp with hint | hnil | ⟨n, hpath, hcovers⟩
  · rw [hint, Reading.ofSpelling_int] at hreading
    cases hreading
  · rw [hnil] at hm
    cases hm
  · rw [hcovers.substitute] at hname
    have hsome : (reg.underlying? name).isSome := by rw [hunderlying]; rfl
    have hword : IsWord name := h.words name hsome
    have hreads : ReadsWord (normalize p.2) name := by
      refine ⟨hword, .inl ?_⟩
      rw [← hname, chunks_of_isChunk hword.isChunk]
      exact List.mem_singleton_self name
    exact .tail' (hpath m hm) (hcovers.mentions name hreads hsome)

theorem OnPath.part {unwind : Bool} (h : reg.Acyclic) {p q : List Text × Text}
    (hp : reg.OnPath p) (hq : q ∈ (Reading.ofSpelling reg unwind p.2).parts p.1) :
    reg.OnPath q := by
  rcases Reading.parts_of_ofSpelling hq with
    rfl | ⟨hchain, hfunction⟩ | ⟨name, u, hreading, rfl⟩ | ⟨hchain, hleft⟩
  · exact .inl rfl
  · rcases hp with hint | hnil | ⟨n, -, hcovers⟩
    · rw [hint, Reading.ofSpelling_int] at hq
      cases hq
    · exact .inr (.inl (hchain.trans hnil))
    · rw [hcovers.substitute, hcovers.plain] at hfunction
      cases hfunction
  · obtain ⟨-, -, hunderlying, -, hplain⟩ := Reading.ofSpelling_eq_alias hreading
    refine .inr (.inr ⟨name, fun m hm => ?_, h.covers hunderlying hplain⟩)
    rcases List.mem_append.1 hm with hm | hm
    · exact (hp.transGen h hreading m hm).to_reflTransGen
    · rw [List.mem_singleton.1 hm]
  · rcases hp with hint | hnil | ⟨n, hpath, hcovers⟩
    · rw [hint, Reading.ofSpelling_int] at hq
      cases hq
    · exact .inr (.inl (hchain.trans hnil))
    · rw [hcovers.substitute] at hleft
      exact .inr (.inr ⟨n, hchain ▸ hpath, hcovers.of_left (isNormal_normalize p.2) hleft⟩)

/-- **No typedef is met again where typedefs are not unwound, or where none mentions itself.** -/
theorem cause_ne_typedefCycle (reg : Registry) (config : Config)
    (hreg : config.unwind = true → reg.Acyclic) (s : Text) :
    ∀ f ∈ (reg.resolve config s).failure, ∀ cycle, f.cause ≠ .typedefCycle cycle := by
  have hnot : ¬(reg.trace config s).Cyclic := by
    cases hunwind : config.unwind with
    | true =>
      have hacyclic := hreg hunwind
      exact not_cyclic_of_invariant reg.OnPath (fun p q hp hq => hp.part hacyclic hq)
        (fun p name u hp hreading hmet =>
          hacyclic.irreflexive name (hp.transGen hacyclic hreading name hmet))
        config.maxDepth.toNat (p := ([], s)) (.inr (.inl rfl))
    | false =>
      refine not_cyclic_of_invariant (fun _ => True) (fun _ _ _ _ => trivial)
        (fun p name u _ hreading => ?_) config.maxDepth.toNat (p := ([], s)) trivial
      rw [(Reading.ofSpelling_eq_alias hreading).1] at hunwind
      cases hunwind
  intro f hf cycle hcause
  unfold resolve at hf
  cases hresult : (reg.trace config s).result with
  | ok d =>
    rw [hresult] at hf
    cases hf
  | error g =>
    rw [hresult] at hf
    obtain rfl : g = f := Option.some.inj hf
    exact hnot ⟨g, cycle, hresult, hcause⟩

/-! ## Telling that no typedef mentions itself -/

/-- No typedef mentions itself if those that it mentions rank below it; it is enough to look at the
entries of the table. -/
theorem acyclic_of_rank (rank : Text → Nat) (hwords : ∀ entry ∈ reg.typedefs, IsWord entry.1)
    (hfree : ∀ entry ∈ reg.typedefs, FreeOf (normalize entry.2) ∧
      FreeOf (Reading.withoutParens (normalize entry.2)))
    (hrank : ∀ entry ∈ reg.typedefs, ∀ m ∈ reg.typedefs.map Prod.fst,
      m ∈ chunks (normalize entry.2) ∨ m ∈ chunks (Reading.withoutParens (normalize entry.2)) →
        rank m < rank entry.1) : reg.Acyclic := by
  have hword {n : Text} (h : (reg.underlying? n).isSome) : IsWord n := by
    obtain ⟨u, hu⟩ := Option.isSome_iff_exists.1 h
    exact hwords _ (mem_of_lookup hu)
  have hbelow {n m : Text} (h : reg.Mentions n m) : rank m < rank n := by
    obtain ⟨hsome, u, hu, halone⟩ := h
    have hm := hword hsome
    obtain ⟨v, hv⟩ := Option.isSome_iff_exists.1 hsome
    rw [standsAlone_iff hm.ne_nil hm.chars, standsAlone_iff hm.ne_nil hm.chars] at halone
    exact hrank (n, u) (mem_of_lookup hu) m (List.mem_map_of_mem (mem_of_lookup hv))
      (halone.imp_right And.right)
  refine ⟨fun n => hword, fun n u hu _ => hfree (n, u) (mem_of_lookup hu), fun n hn => ?_⟩
  have hlt {m : Text} (h : Relation.TransGen reg.Mentions n m) : rank m < rank n := by
    induction h with
    | single h => exact hbelow h
    | tail _ h ih => exact (hbelow h).trans ih
  exact lt_irrefl _ (hlt hn)

/-- A typedef that occurs twice in a function type, beside the one that it mentions. -/
theorem cause_ne_typedefCycle_handler :
    let reg : Registry :=
      { typedefs := [("entries".toList, "node *".toList), ("node".toList, "mystery".toList)] }
    let config : Config := { unwind := true }
    let s := "node (*)(entries, entries, node)".toList
    reg.Acyclic ∧ (reg.resolve config s).ok = false ∧
      ∀ f ∈ (reg.resolve config s).failure, ∀ cycle, f.cause ≠ .typedefCycle cycle := by
  intro reg config s
  have hreg : reg.Acyclic :=
    acyclic_of_rank List.length (by decide +kernel) (by decide +kernel) (by decide +kernel)
  exact ⟨hreg, by decide +kernel, cause_ne_typedefCycle reg config (fun _ => hreg) s⟩

/-- The typedef `n` of `u`, the only one, is met again, although it is no word of what it stands for
and no text of a system header occurs in either. -/
def MetApart (n u : Text) : Prop :=
  IsWord n ∧ FreeOf n ∧ FreeOf u ∧ n ∉ chunks (normalize u) ∧
    (resolve { typedefs := [(n, u)] } { unwind := true } n).failure.map Failure.cause =
      some (.typedefCycle [n, n])

instance (n u : Text) : Decidable (MetApart n u) :=
  inferInstanceAs (Decidable (_ ∧ _ ∧ _ ∧ _ ∧ _))

/-- **A typedef may be met again that occurs nowhere as a word**: one whose parts a parenthesis, or
a tab and a text of a system header, keep apart in what it stands for. -/
theorem cause_eq_typedefCycle_of_apart :
    MetApart "foo".toList "fo)o [3]".toList ∧
      MetApart "fooint".toList "foo__locale_\tdata".toList := by
  decide +kernel

end Registry

end CSpelling

import CSpelling.CommandLine
import CSpelling.Proofs.Objects

/-!
# Calling the program with several spellings

Spellings that begin with no dash are operands wherever they stand. Behind options that are accepted
without any spelling they are the one row of operands that the program takes
(`parse_append_operands`): no option there is left waiting for a value, and a row that a divider has
begun is still running. What the options ask for is the same for every such row, and the packages
that a resolution uses play no part in the next, so the program prints for several spellings what it
prints for each of them, one after another (`run_append_operands`).
-/

namespace CSpelling

open Text

/-- What the program prints. -/
def Ending.output : Ending → Text
  | .exit _ output => output
  | _ => []

/-- The exit code, if the program comes to its end. -/
def Ending.code? : Ending → Option Nat
  | .exit code _ => some code
  | _ => none

/-! ## Operands behind options -/

namespace Item

/-- Behind a divider there are only operands. -/
def DividesOnce : List Item → Prop
  | [] => True
  | .divider :: rest => ∀ i ∈ rest, ∃ s, i = .operand s
  | _ :: rest => DividesOnce rest

theorem ofArgument_of_head? {s : Text} (h : s.head? ≠ some '-') : ofArgument s = .operand s := by
  unfold ofArgument
  split
  · exact absurd rfl h
  · exact absurd rfl h
  · rfl

theorem ofFlag_ne_divider (flag : Flag) (value : Option Text) : ofFlag flag value ≠ .divider := by
  unfold ofFlag
  split <;> simp

theorem consSetting_ne_divider {s : Setting} {i : Item} (h : i ≠ .divider) :
    consSetting s i ≠ .divider := by
  cases i <;> simp_all [consSetting]

theorem ofLetter_ne_divider (flag : Flag) (attached : Text) :
    ofLetter flag attached ≠ .divider := by
  induction attached generalizing flag with
  | nil => simp [ofLetter]
  | cons c tail ih =>
    rw [ofLetter]
    split
    · simp
    · split
      · exact consSetting_ne_divider (ih _)
      · simp

theorem ofUnknown_ne_divider (s : Text) : ofUnknown s ≠ .divider := by
  unfold ofUnknown
  split <;> simp

/-- A single argument is no divider. -/
theorem ofArgument_ne_divider (s : Text) : ofArgument s ≠ .divider := by
  unfold ofArgument ofLongName ofFirstLetter
  dsimp only
  split
  · split
    · exact ofFlag_ne_divider _ _
    · split
      · exact ofUnknown_ne_divider _
      · exact ofFlag_ne_divider _ _
      · simp
  · split
    · split
      · exact ofFlag_ne_divider _ _
      · exact ofLetter_ne_divider _ _
      · exact ofLetter_ne_divider _ _
    · exact ofUnknown_ne_divider _
  · simp

theorem dividesOnce_cons {i : Item} {rest : List Item} (hi : i ≠ .divider) :
    DividesOnce (i :: rest) ↔ DividesOnce rest := by
  cases i <;> simp_all [DividesOnce]

theorem dividesOnce_ofArguments (arguments : List Text) : DividesOnce (ofArguments arguments) := by
  induction arguments with
  | nil => trivial
  | cons s rest ih =>
    rw [ofArguments]
    split
    · intro i hi
      obtain ⟨t, -, rfl⟩ := List.mem_map.1 hi
      exact ⟨t, rfl⟩
    · exact (dividesOnce_cons (ofArgument_ne_divider s)).2 ih

theorem ofArguments_of_head? {spellings : List Text} (h : ∀ t ∈ spellings, t.head? ≠ some '-') :
    ofArguments spellings = spellings.map .operand := by
  induction spellings with
  | nil => rfl
  | cons t rest ih =>
    have ht : t.head? ≠ some '-' := h t (by simp)
    have hdashes : t ≠ dashes := by
      rintro rfl
      exact ht rfl
    rw [ofArguments, if_neg hdashes, ofArgument_of_head? ht,
      ih fun u hu => h u (List.mem_cons_of_mem _ hu), List.map_cons]

/-- Spellings that begin with no dash are operands behind any arguments. -/
theorem ofArguments_append {spellings : List Text} (h : ∀ t ∈ spellings, t.head? ≠ some '-')
    (arguments : List Text) :
    ofArguments (arguments ++ spellings) = ofArguments arguments ++ spellings.map .operand := by
  induction arguments with
  | nil => exact ofArguments_of_head? h
  | cons s rest ih =>
    rw [List.cons_append, ofArguments, ofArguments]
    split
    · rw [List.map_append, List.cons_append]
    · rw [ih, List.cons_append]

end Item

namespace Arguments

theorem types_set {given after : Arguments} {flag : Flag} {value : Text}
    (h : given.set flag value = some after) : after.types = given.types := by
  cases flag with
  | maxDepth =>
    rw [set] at h
    split at h
    · rw [← Option.some.inj h]
    · obtain ⟨n, -, rfl⟩ := Option.map_eq_some_iff.1 h
      rfl
  | _ => rw [← Option.some.inj h]

/-- Options leave the spellings alone. -/
theorem types_setAll {value : Option Text} {settings : List Setting} {given updated : Arguments}
    (h : setAll value settings given = .next updated) : updated.types = given.types := by
  induction settings generalizing given with
  | nil =>
    rw [setAll, Step.next.injEq] at h
    rw [h]
  | cons s rest ih =>
    rw [setAll] at h
    split at h
    · cases h
    · split at h
      · cases h
      · next after hset => rw [ih h, types_set hset]

/-- Arguments are accepted only if none was stray so far, and the spellings so far come first. -/
theorem of_gather {row : Row} {stray : Bool} {given given' : Arguments} {items : List Item}
    (h : gather row stray given items = .accepted given') :
    stray = false ∧ given.types <+: given'.types := by
  fun_induction gather row stray given items with
  | case2 row stray given hstray =>
    exact ⟨by simpa using hstray, Outcome.accepted.inj h ▸ List.prefix_refl _⟩
  | case3 stray given s rest ih => cases (ih h).1
  | case4 row stray given s rest hrow ih =>
    exact ⟨(ih h).1, (List.prefix_append ..).trans (ih h).2⟩
  | case5 stray given rest ih => cases (ih h).1
  | case6 row stray given rest hrow ih => exact ih h
  | case7 row stray given rest ih => cases (ih h).1
  | case10 row stray given settings hneeds value after updated hset ih =>
    exact types_setAll hset ▸ ih h
  | case14 row stray given settings rest hneeds updated hset ih => exact types_setAll hset ▸ ih h
  | _ => cases h

/-- A row of operands that is not ended takes all operands that follow. -/
theorem gather_operands {row : Row} (hrow : row ≠ .ended) (given : Arguments)
    (spellings : List Text) :
    gather row false given (spellings.map .operand) =
      .accepted { given with types := given.types ++ spellings } := by
  induction spellings generalizing row given with
  | nil => simp [gather]
  | cons t rest ih =>
    rw [List.map_cons, gather, if_neg hrow, ih (by simp)]
    simp

/-- Without operands nothing follows a divider. -/
theorem eq_nil_of_gather {row : Row} {stray : Bool} {given given' : Arguments} {items : List Item}
    (h : gather row stray given items = .accepted given') (htypes : given'.types = [])
    (hrow : row ≠ .ended) (hoperands : ∀ i ∈ items, ∃ s, i = .operand s) : items = [] := by
  cases items with
  | nil => rfl
  | cons i rest =>
    obtain ⟨s, rfl⟩ := hoperands i (by simp)
    rw [gather, if_neg hrow] at h
    have hprefix : given.types ++ [s] <+: given'.types := (of_gather h).2
    simp [htypes] at hprefix

theorem gather_settings {row : Row} {stray : Bool} {given updated : Arguments}
    {settings : List Setting} {rest : List Item} (hneeds : ¬needsValue settings = true)
    (hset : setAll none settings given = .next updated) :
    gather row stray given (.settings settings :: rest) =
      gather row.afterOption stray updated rest := by
  conv_lhs => unfold gather
  simp [hneeds, hset]

/-- Operands are taken in behind items that were accepted without any. -/
theorem gather_append_operands {row : Row} {stray : Bool} {given given' : Arguments}
    {items : List Item} (h : gather row stray given items = .accepted given')
    (htypes : given'.types = []) (hdivides : Item.DividesOnce items)
    (hrow : row = .ahead ∨ row = .running ∧ items = []) (spellings : List Text) :
    gather row stray given (items ++ spellings.map .operand) =
      .accepted { given' with types := spellings } := by
  fun_induction gather row stray given items with
  | case2 row stray given hstray =>
    obtain rfl : given = given' := Outcome.accepted.inj h
    obtain rfl : stray = false := by simpa using hstray
    have hended : row ≠ .ended := by
      rintro rfl
      simp at hrow
    rw [List.nil_append, gather_operands hended, htypes, List.nil_append]
  | case3 stray given s rest ih => cases (of_gather h).1
  | case4 row stray given s rest hended ih =>
    have hprefix : given.types ++ [s] <+: given'.types := (of_gather h).2
    simp [htypes] at hprefix
  | case5 stray given rest ih => cases (of_gather h).1
  | case6 row stray given rest hended ih =>
    obtain rfl : rest = [] := eq_nil_of_gather h htypes (by simp) hdivides
    rw [List.cons_append, gather, if_neg hended]
    exact ih h (by trivial) (.inr ⟨rfl, rfl⟩)
  | case7 row stray given rest ih => cases (of_gather h).1
  | case10 row stray given settings hneeds value after updated hset ih =>
    obtain rfl : row = .ahead := by simpa using hrow
    rw [List.cons_append, List.cons_append, gather, if_pos hneeds, hset]
    exact ih h hdivides (.inl rfl)
  | case14 row stray given settings rest hneeds updated hset ih =>
    obtain rfl : row = .ahead := by simpa using hrow
    rw [List.cons_append, gather_settings hneeds hset]
    exact ih h hdivides (.inl rfl)
  | _ => cases h

variable {options spellings : List Text} {given : Arguments}

/-- **Spellings behind options are what the options are given.** -/
theorem parse_append_operands (h : parse options = .accepted given) (htypes : given.types = [])
    (hspellings : ∀ t ∈ spellings, t.head? ≠ some '-') :
    parse (options ++ spellings) = .accepted { given with types := spellings } := by
  have hdivides := Item.dividesOnce_ofArguments options
  unfold parse at h ⊢
  rw [Item.ofArguments_append hspellings]
  generalize Item.ofArguments options = items at h hdivides ⊢
  dsimp only at h ⊢
  split at h
  · cases h
  · next hnone =>
    rw [if_neg (by simpa using hnone)]
    exact gather_append_operands h htypes hdivides (.inl rfl) spellings

end Arguments

/-! ## Runs with spellings -/

/-- The options are accepted without any spelling, and they leave a limit to the levels. -/
structure ValidOptions (options : List Text) (given : Arguments) (config : Config) : Prop where
  /-- The options are understood. -/
  accepted : Arguments.parse options = .accepted given
  /-- There is no spelling among them. -/
  types : given.types = []
  /-- How spellings are resolved. -/
  config : given.config? = some config

namespace Arguments

/-- The registry that spellings are resolved on: it knows what the source says, if one is given.
There is none if the source cannot be read or its scan gives up. -/
def learned? (given : Arguments) (read : Text → Option Text) (parse : Text → Node) :
    Option Registry :=
  if given.source.isEmpty then some {}
  else
    (read given.source).bind fun content =>
      let src : Source := ⟨given.source, foldLineEnds content⟩
      (src.scan (parse src.text)).map fun _ => src.registry (parse src.text)

variable {given : Arguments} {config : Config} {reg : Registry} {read : Text → Option Text}
  {parse : Text → Node}

/-- Spellings are resolved on what was learned. -/
theorem run_of_learned? (hlearned : given.learned? read parse = some reg)
    (htypes : given.types ≠ []) : given.run read parse = given.resolveTypes reg := by
  have hempty : given.types.isEmpty = false := by simpa using htypes
  unfold learned? at hlearned
  unfold run runSource
  split at hlearned
  · next hsource =>
    rw [if_pos hsource, hempty, ← Option.some.inj hlearned]
    rfl
  · next hsource =>
    obtain ⟨content, hread, hlearned⟩ := Option.bind_eq_some_iff.1 hlearned
    obtain ⟨decls, hscan, rfl⟩ := Option.map_eq_some_iff.1 hlearned
    rw [if_neg hsource, hread]
    simp only [hempty, Bool.false_eq_true, if_false]
    rw [hscan]

/-- The spellings are resolved each by itself, and one failure makes the exit code 1. -/
theorem resolveTypes_eq (hconfig : given.config? = some config) (reg : Registry) :
    given.resolveTypes reg = Ending.ofLines (given.types.any fun t => !(reg.resolve config t).ok)
      (given.types.map fun t => typeLine t (reg.resolve config t)) := by
  rw [resolveTypes, hconfig]
  simp only [Registry.resolveAll_eq, List.map_map, List.any_map, List.zipWith_map_right,
    List.zipWith_self]
  rfl

end Arguments

section Runs

variable {options spellings : List Text} {given : Arguments} {config : Config} {reg : Registry}
  {read : Text → Option Text} {parse : Text → Node}

/-- The program resolves the spellings behind the options on what the source says. -/
theorem run_append_eq (hvalid : ValidOptions options given config)
    (hlearned : given.learned? read parse = some reg) (hne : spellings ≠ [])
    (hspellings : ∀ t ∈ spellings, t.head? ≠ some '-') :
    run (options ++ spellings) read parse =
      Ending.ofLines (spellings.any fun t => !(reg.resolve config t).ok)
        (spellings.map fun t => Arguments.typeLine t (reg.resolve config t)) := by
  rw [run, Arguments.parse_append_operands hvalid.accepted hvalid.types hspellings]
  have hconfig : ({ given with types := spellings } : Arguments).config? = some config :=
    hvalid.config
  have hrun : ({ given with types := spellings } : Arguments).run read parse =
      ({ given with types := spellings } : Arguments).resolveTypes reg :=
    Arguments.run_of_learned? hlearned hne
  exact hrun.trans (Arguments.resolveTypes_eq hconfig reg)

/-- A single spelling gets a line with its resolution. -/
theorem run_append_singleton (hvalid : ValidOptions options given config)
    (hlearned : given.learned? read parse = some reg) {t : Text} (ht : t.head? ≠ some '-') :
    run (options ++ [t]) read parse = .exit (if (reg.resolve config t).ok then 0 else 1)
      (t ++ " -> ".toList ++ (reg.resolve config t).text ++ ['\n']) := by
  rw [run_append_eq hvalid hlearned (by simp) (by simpa using ht)]
  cases hok : (reg.resolve config t).ok <;>
    simp [hok, Ending.ofLines, unlines, Arguments.typeLine]

/-- **Several spellings are resolved as each by itself.** Behind valid options, and with a source
that can be read and scanned if one is given, the program writes a line with the resolution for a
single spelling. For any row of spellings it writes what it writes for each of them, in order, and
its exit code is 1 just if it is 1 for one of them. -/
theorem run_append_operands (hvalid : ValidOptions options given config)
    (hlearned : given.learned? read parse = some reg) (hne : spellings ≠ [])
    (hspellings : ∀ t ∈ spellings, t.head? ≠ some '-') :
    (∀ t ∈ spellings, run (options ++ [t]) read parse =
      .exit (if (reg.resolve config t).ok then 0 else 1)
        (t ++ " -> ".toList ++ (reg.resolve config t).text ++ ['\n'])) ∧
    run (options ++ spellings) read parse =
      .exit (if ∃ t ∈ spellings, (run (options ++ [t]) read parse).code? = some 1 then 1 else 0)
        (spellings.flatMap fun t => (run (options ++ [t]) read parse).output) := by
  have hsingle (t : Text) (ht : t ∈ spellings) :=
    run_append_singleton hvalid hlearned (hspellings t ht)
  refine ⟨hsingle, ?_⟩
  have houtput : (spellings.flatMap fun t => (run (options ++ [t]) read parse).output) =
      unlines (spellings.map fun t => Arguments.typeLine t (reg.resolve config t)) := by
    rw [unlines, List.flatMap_map]
    refine List.flatMap_congr fun t ht => ?_
    rw [hsingle t ht]
    rfl
  have hcode : (∃ t ∈ spellings, (run (options ++ [t]) read parse).code? = some 1) ↔
      (spellings.any fun t => !(reg.resolve config t).ok) = true := by
    rw [List.any_eq_true]
    refine exists_congr fun t => and_congr_right fun ht => ?_
    rw [hsingle t ht]
    cases hok : (reg.resolve config t).ok <;> simp [Ending.code?]
  rw [run_append_eq hvalid hlearned hne hspellings, houtput, Ending.ofLines]
  simp only [hcode]

end Runs

/-- A typedef of a pointer. -/
def pointerTypedefSource : Source := ⟨"id.c".toList, "typedef int *id;".toList⟩

/-- The tree of `pointerTypedefSource`. -/
def pointerTypedefTree : Node :=
  .onLine .typedef none 0 16 [
    .onLine .primitiveType (some .type) 8 11 [],
    .onLine .pointer (some .declarator) 12 15 [.onLine .name (some .declarator) 13 15 []]]

/-- Arrays of pointers are resolved beside a name that nothing is known of. -/
theorem run_append_operands_pointers :
    (∀ t ∈ ["id [4]".toList, "nope".toList],
      run (["--unwind".toList, "-sid.c".toList] ++ [t]) (fun _ => some pointerTypedefSource.text)
          (fun _ => pointerTypedefTree) =
        .exit (if ((pointerTypedefSource.registry pointerTypedefTree).resolve
            { unwind := true } t).ok then 0 else 1)
          (t ++ " -> ".toList ++ ((pointerTypedefSource.registry pointerTypedefTree).resolve
            { unwind := true } t).text ++ ['\n'])) ∧
    run (["--unwind".toList, "-sid.c".toList] ++ ["id [4]".toList, "nope".toList])
        (fun _ => some pointerTypedefSource.text) (fun _ => pointerTypedefTree) =
      .exit (if ∃ t ∈ ["id [4]".toList, "nope".toList],
          (run (["--unwind".toList, "-sid.c".toList] ++ [t])
            (fun _ => some pointerTypedefSource.text) (fun _ => pointerTypedefTree)).code? = some 1
          then 1 else 0)
        (["id [4]".toList, "nope".toList].flatMap fun t =>
          (run (["--unwind".toList, "-sid.c".toList] ++ [t])
            (fun _ => some pointerTypedefSource.text) (fun _ => pointerTypedefTree)).output) := by
  have hvalid : ValidOptions ["--unwind".toList, "-sid.c".toList]
      { source := "id.c".toList, unwind := true } { unwind := true } :=
    ⟨by decide +kernel, rfl, rfl⟩
  exact run_append_operands hvalid (by rfl) (by decide +kernel) (by decide +kernel)

example :
    run ["--unwind".toList, "-sid.c".toList, "id [4]".toList, "nope".toList]
        (fun _ => some pointerTypedefSource.text) (fun _ => pointerTypedefTree) =
      .exit 1 (unlines [
        "id [4] -> [][]int".toList,
        ("nope -> interface\x7b\x7d  # Cannot resolve type 'nope' : " ++
          "I couldn't find an appropriate Go type for the C type 'nope'.").toList]) := by
  decide +kernel

end CSpelling

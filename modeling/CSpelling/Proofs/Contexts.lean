import CSpelling.Proofs.Origins

/-!
# The contexts of a failure

A resolution runs stages inside stages: a spelling is read as a type, a function type is taken apart
and its parts are resolved one after another. Each stage names itself in the failures that pass it.

`Stage.Raises` says what a stage finds at fault by itself, and `Stage.Enters` which stage is run
right inside another, after everything before it went well. A failure comes out of a stage if it is
raised there or comes out of a stage inside (`Stage.fails_iff`). So there is a run of stages behind
each failure, `Stage.FailsThrough`: the last one raises it, and its contexts are those of the run,
one for each stage from the outside in. The run is told by the spelling alone
(`Registry.exists_reports`).
-/

namespace CSpelling

open Text

open Trace

/-! ## Messages -/

/-- The contexts and the cause are written in a row, with colons between them. -/
theorem Failure.message_eq_intercalate (f : Failure) :
    f.message = " : ".toList.intercalate
      (f.contexts.map Context.text ++ [f.cause.message f.spelling]) := by
  obtain ⟨cause, s, contexts⟩ := f
  induction contexts with
  | nil => simp [message]
  | cons context rest ih =>
    have hmessage : message ⟨cause, s, context :: rest⟩ =
        context.text ++ " : ".toList ++ message ⟨cause, s, rest⟩ := rfl
    have hne : rest.map Context.text ++ [cause.message s] ≠ [] := by simp
    rw [hmessage, ih, List.map_cons, List.cons_append, List.intercalate_cons_of_ne_nil hne]

/-! ## Splitting -/

namespace Parts

theorem ofSpelling_error_iff {s : Text} {f : Failure} :
    ofSpelling s = .error f ↔
      ∃ cause t, ofStripped (strip s) = .error ⟨cause, t, []⟩ ∧ f = ⟨cause, t, [.split s]⟩ := by
  unfold ofSpelling
  cases h : ofStripped (strip s) with
  | ok parts => simp [Except.mapError]
  | error g =>
    obtain ⟨cause, t, contexts⟩ := g
    obtain rfl : contexts = [] := (ofGrammar_of_ofStripped h).contexts
    simp [Except.mapError, Failure.within, eq_comm]

end Parts

/-! ## Stages -/

/-- A stage of a resolution, with the levels that are left below it and the typedefs that led to
it. -/
inductive Stage
  /-- Reading a spelling as a type. -/
  | type (levels : Nat) (chain : List Text) (s : Text)
  /-- Reading a spelling as a function type with its parts. -/
  | function (levels : Nat) (chain : List Text) (s : Text)
  /-- Reading one parameter. -/
  | field (levels : Nat) (chain : List Text) (s : Text)
  /-- Reading the returned type. -/
  | returned (levels : Nat) (chain : List Text) (s : Text)
  /-- Splitting the spelling of a function type. -/
  | split (s : Text)
  deriving DecidableEq, Repr

/-- What a reading is resolved from if it is no function type: the typedefs so far and a
spelling. -/
def Reading.asked? (chain : List Text) : Reading → Option (List Text × Text)
  | .enumeration => some (chain, "int".toList)
  | .alias name underlying => if name ∈ chain then none else some (chain ++ [name], underlying)
  | .pointer pointee => some (chain, pointee)
  | .array _ element => some (chain, element)
  | _ => none

namespace Stage

/-- The context that the stage puts around failures. -/
def context : Stage → Context
  | type _ _ s => .type s
  | function _ _ s => .function s
  | field _ _ s => .field s
  | returned _ _ s => .returned s
  | split s => .split s

/-- A bound on the stages that can be run inside this one. -/
def height : Stage → Nat
  | type levels _ _ => 3 * levels + 2
  | function levels _ _ => 3 * levels + 1
  | field levels _ _ => 3 * levels
  | returned levels _ _ => 3 * levels
  | split _ => 0

variable (reg : Registry) (config : Config)

/-- The failure comes out of the stage. -/
def Fails (f : Failure) : Stage → Prop
  | type levels chain s => (reg.descend config (levels + 1) chain s).result = .error f
  | function levels chain s =>
    (describeFunction (reg.descend config levels chain) s).result = .error f
  | field levels chain s =>
    ((reg.descend config levels chain s).within (.field s)).result = .error f
  | returned levels chain s =>
    ((reg.descend config levels chain s).within (.returned s)).result = .error f
  | split s => Parts.ofSpelling s = .error f

/-- The spelling that the stage has resolved, with the levels left for it and the typedefs so
far. -/
def asked? : Stage → Option (Nat × List Text × Text)
  | type levels chain s =>
    ((Reading.ofSpelling reg config.unwind s).asked? chain).map fun q => (levels, q)
  | field levels chain s => some (levels, chain, s)
  | returned levels chain s => some (levels, chain, s)
  | _ => none

/-- The spellings all have descriptors. -/
def AllResolve (levels : Nat) (chain : List Text) (l : List Text) : Prop :=
  ∀ s ∈ l, ∃ d, (reg.descend config levels chain s).result = .ok d

/-- The stage finds something at fault by itself. -/
inductive Raises : Stage → Cause → Text → Prop
  /-- No level is left for what it asks for. -/
  | tooDeep {stage : Stage} {chain : List Text} {s : Text}
    (h : stage.asked? reg config = some (0, chain, s)) : Raises stage (.tooDeep config.maxDepth) s
  /-- The spelling has no reading. -/
  | rejected {levels : Nat} {chain : List Text} {s t : Text} {cause : Cause}
    (h : Reading.ofSpelling reg config.unwind s = .rejected cause t) :
    Raises (type levels chain s) cause t
  /-- The spelling is a typedef that was met before. -/
  | cycle {levels : Nat} {chain : List Text} {s name underlying : Text}
    (h : Reading.ofSpelling reg config.unwind s = .alias name underlying) (hmet : name ∈ chain) :
    Raises (type levels chain s) (.typedefCycle (chain ++ [name])) name
  /-- The grammar of function types does not fit. -/
  | grammar {s t : Text} {cause : Cause}
    (h : Parts.ofStripped (strip s) = .error ⟨cause, t, []⟩) : Raises (split s) cause t

/-- The first stage runs the second right inside it, after everything before went well. -/
inductive Enters : Stage → Stage → Prop
  /-- What the stage asks for is read as a type. -/
  | asked {stage : Stage} {levels : Nat} {chain : List Text} {s : Text}
    (h : stage.asked? reg config = some (levels + 1, chain, s)) :
    Enters stage (type levels chain s)
  /-- A type that is a function type. -/
  | function {levels : Nat} {chain : List Text} {s t : Text}
    (h : Reading.ofSpelling reg config.unwind s = .function t) :
    Enters (type levels chain s) (function levels chain t)
  /-- A function type is split at first. -/
  | split (levels : Nat) (chain : List Text) (s : Text) :
    Enters (function levels chain s) (split s)
  /-- A parameter, after those in front of it. -/
  | field {levels : Nat} {chain : List Text} {s t : Text} {parts : Parts}
    {before after : List Text} (h : Parts.ofSpelling s = .ok parts)
    (hfields : parts.fields.filter (!·.isEmpty) = before ++ t :: after)
    (hbefore : AllResolve reg config levels chain before) :
    Enters (function levels chain s) (field levels chain t)
  /-- The returned type, after the parameters. -/
  | returned {levels : Nat} {chain : List Text} {s : Text} {parts : Parts}
    (h : Parts.ofSpelling s = .ok parts)
    (hfields : AllResolve reg config levels chain (parts.fields.filter (!·.isEmpty))) :
    Enters (function levels chain s) (returned levels chain parts.returns)

/-- The stages of the path are run inside each other, the first the outermost, and the last finds
the cause in the spelling. -/
inductive FailsThrough : Stage → List Stage → Cause → Text → Prop
  | here {stage : Stage} {cause : Cause} {s : Text} (h : Raises reg config stage cause s) :
    FailsThrough stage [stage] cause s
  | inside {stage next : Stage} {path : List Stage} {cause : Cause} {s : Text}
    (h : Enters reg config stage next) (hnext : FailsThrough next path cause s) :
    FailsThrough stage (stage :: path) cause s

end Stage

/-! ## Failures of one stage -/

section Describe

variable {reg : Registry} {config : Config} {f g : Failure} {s : Text}

/-- What a reading asks for fails as the reading does. -/
theorem Reading.describe_error_iff_of_asked {part : List Text → Text → Trace Text}
    {chain : List Text} {r : Reading} {q : List Text × Text} (h : r.asked? chain = some q) :
    (r.describe reg part chain).result = .error g ↔ (part q.1 q.2).result = .error g := by
  cases r with
  | enumeration =>
    cases h
    rfl
  | «alias» name underlying =>
    rw [asked?] at h
    split_ifs at h with hmet
    cases h
    rw [describe, if_neg (by simpa using hmet)]
  | pointer pointee =>
    cases h
    exact map_error_iff
  | array dimensions element =>
    cases h
    exact map_error_iff
  | _ => cases h

/-- The ways in which a reading fails. -/
theorem Reading.cases_of_describe_error {part : List Text → Text → Trace Text} {chain : List Text}
    {r : Reading} (h : (r.describe reg part chain).result = .error g) :
    (∃ q, r.asked? chain = some q) ∨
      (∃ t, r = .function t ∧ (describeFunction (part chain) t).result = .error g) ∨
      (∃ name underlying, r = .alias name underlying ∧ name ∈ chain ∧
        g = ⟨.typedefCycle (chain ++ [name]), name, []⟩) ∨
      ∃ cause t, r = .rejected cause t ∧ g = ⟨cause, t, []⟩ := by
  cases r with
  | descriptor d => cases h
  | named name => cases h
  | function t => exact .inr (.inl ⟨t, rfl, map_error_iff.1 h⟩)
  | enumeration => exact .inl ⟨_, rfl⟩
  | «alias» name underlying =>
    by_cases hmet : name ∈ chain
    · rw [describe, if_pos (by simpa using hmet)] at h
      cases h
      exact .inr (.inr (.inl ⟨name, underlying, rfl, hmet, rfl⟩))
    · exact .inl ⟨_, if_neg hmet⟩
  | pointer pointee => exact .inl ⟨_, rfl⟩
  | array dimensions element => exact .inl ⟨_, rfl⟩
  | rejected cause t =>
    cases h
    exact .inr (.inr (.inr ⟨cause, t, rfl, rfl⟩))

/-- A function type fails when it is split, at the first parameter that fails, or at the returned
type. -/
theorem describeFunction_error_iff {part : Text → Trace Text} :
    (describeFunction part s).result = .error f ↔ ∃ g, f = g.within (.function s) ∧
      (Parts.ofSpelling s = .error g ∨ ∃ parts, Parts.ofSpelling s = .ok parts ∧
        ((∃ before t after, parts.fields.filter (!·.isEmpty) = before ++ t :: after ∧
            (∀ b ∈ before, ∃ d, (part b).result = .ok d) ∧
            ((part t).within (.field t)).result = .error g) ∨
          ((∀ t ∈ parts.fields.filter (!·.isEmpty), ∃ d, (part t).result = .ok d) ∧
            ((part parts.returns).within (.returned parts.returns)).result = .error g))) := by
  rw [describeFunction, within_error_iff]
  refine exists_congr fun g => and_comm.trans (and_congr_right fun _ => ?_)
  rw [andThen_error_iff]
  refine or_congr Iff.rfl (exists_congr fun parts => and_congr_right fun _ => ?_)
  simp only [describeParts, andThen_error_iff, traverse_error_iff, map_error_iff, within_ok_iff]
  refine or_congr Iff.rfl ?_
  rw [exists_and_right, traverse_ok_iff]
  simp only [within_ok_iff]

end Describe

namespace Stage

variable {reg : Registry} {config : Config} {stage next : Stage} {f g : Failure} {cause : Cause}
  {s : Text} {path : List Stage}

/-- A failure of what a stage asks for is the want of levels or comes out of a stage inside. -/
theorem cases_of_asked {levels : Nat} {chain : List Text}
    (hasked : stage.asked? reg config = some (levels, chain, s))
    (h : (reg.descend config levels chain s).result = .error g) :
    (∃ cause t, Raises reg config stage cause t ∧ g = ⟨cause, t, []⟩) ∨
      ∃ next, Enters reg config stage next ∧ next.Fails reg config g := by
  cases levels with
  | zero =>
    cases h
    exact .inl ⟨_, _, .tooDeep hasked, rfl⟩
  | succ levels => exact .inr ⟨_, .asked hasked, h⟩

/-- The ways in which a failure comes out of a stage. -/
theorem cases_of_fails (h : stage.Fails reg config f) :
    ∃ g, f = g.within stage.context ∧
      ((∃ cause t, Raises reg config stage cause t ∧ g = ⟨cause, t, []⟩) ∨
        ∃ next, Enters reg config stage next ∧ next.Fails reg config g) := by
  cases stage with
  | type levels chain s =>
    rw [Fails, Registry.descend, within_error_iff] at h
    obtain ⟨g, hg, rfl⟩ := h
    refine ⟨g, rfl, ?_⟩
    rcases Reading.cases_of_describe_error hg with
      ⟨q, hq⟩ | ⟨t, ht, hfails⟩ | ⟨name, underlying, ht, hmet, rfl⟩ | ⟨cause, t, ht, rfl⟩
    · have hasked : (type levels chain s).asked? reg config = some (levels, q.1, q.2) := by
        rw [asked?, hq]
        rfl
      exact cases_of_asked hasked ((Reading.describe_error_iff_of_asked hq).1 hg)
    · exact .inr ⟨_, .function ht, hfails⟩
    · exact .inl ⟨_, _, .cycle ht hmet, rfl⟩
    · exact .inl ⟨_, _, .rejected ht, rfl⟩
  | function levels chain s =>
    obtain ⟨g, rfl, hcases⟩ := describeFunction_error_iff.1 h
    refine ⟨g, rfl, .inr ?_⟩
    rcases hcases with
      hsplit | ⟨parts, hparts, ⟨before, t, after, hfields, hbefore, hg⟩ | ⟨hfields, hg⟩⟩
    · exact ⟨_, .split levels chain s, hsplit⟩
    · exact ⟨_, .field hparts hfields hbefore, hg⟩
    · exact ⟨_, .returned hparts hfields, hg⟩
  | field levels chain s =>
    obtain ⟨g, hg, rfl⟩ := within_error_iff.1 h
    exact ⟨g, rfl, cases_of_asked rfl hg⟩
  | returned levels chain s =>
    obtain ⟨g, hg, rfl⟩ := within_error_iff.1 h
    exact ⟨g, rfl, cases_of_asked rfl hg⟩
  | split s =>
    obtain ⟨cause, t, hsplit, rfl⟩ := Parts.ofSpelling_error_iff.1 h
    exact ⟨⟨cause, t, []⟩, rfl, .inl ⟨cause, t, .grammar hsplit, rfl⟩⟩

/-- What a stage asks for fails within the context of the stage. -/
theorem fails_of_asked {levels : Nat} {chain : List Text}
    (hasked : stage.asked? reg config = some (levels, chain, s))
    (h : (reg.descend config levels chain s).result = .error g) :
    stage.Fails reg config (g.within stage.context) := by
  cases stage with
  | type levels' chain' s' =>
    obtain ⟨q, hq, heq⟩ := Option.map_eq_some_iff.1 hasked
    cases heq
    rw [Fails, Registry.descend, within_error_iff]
    exact ⟨g, (Reading.describe_error_iff_of_asked hq).2 h, rfl⟩
  | field levels' chain' s' =>
    cases hasked
    exact within_error_iff.2 ⟨g, h, rfl⟩
  | returned levels' chain' s' =>
    cases hasked
    exact within_error_iff.2 ⟨g, h, rfl⟩
  | _ => cases hasked

/-- **What a stage raises comes out of it** with its context. -/
theorem Raises.fails (h : Raises reg config stage cause s) :
    stage.Fails reg config ⟨cause, s, [stage.context]⟩ := by
  cases h with
  | tooDeep hasked => exact fails_of_asked hasked rfl
  | rejected hread =>
    rw [Fails, Registry.descend, hread]
    rfl
  | cycle hread hmet =>
    rw [Fails, Registry.descend, hread, Reading.describe, if_pos (by simpa using hmet)]
    rfl
  | grammar hsplit => exact Parts.ofSpelling_error_iff.2 ⟨_, _, hsplit, rfl⟩

/-- **What comes out of a stage comes out of the stage around it** with one more context. -/
theorem Enters.fails (h : Enters reg config stage next) (hnext : next.Fails reg config g) :
    stage.Fails reg config (g.within stage.context) := by
  cases h with
  | asked hasked => exact fails_of_asked hasked hnext
  | function hread =>
    rw [Fails, Registry.descend, hread, within_error_iff]
    exact ⟨g, map_error_iff.2 hnext, rfl⟩
  | split levels chain s => exact describeFunction_error_iff.2 ⟨g, rfl, .inl hnext⟩
  | field hparts hfields hbefore =>
    exact describeFunction_error_iff.2
      ⟨g, rfl, .inr ⟨_, hparts, .inl ⟨_, _, _, hfields, hbefore, hnext⟩⟩⟩
  | returned hparts hfields =>
    exact describeFunction_error_iff.2 ⟨g, rfl, .inr ⟨_, hparts, .inr ⟨hfields, hnext⟩⟩⟩

/-- **A failure is raised in a stage or comes out of one inside**, and the context of the stage is
put around it once. -/
theorem fails_iff : stage.Fails reg config f ↔
    ∃ g, f = g.within stage.context ∧
      ((∃ cause t, Raises reg config stage cause t ∧ g = ⟨cause, t, []⟩) ∨
        ∃ next, Enters reg config stage next ∧ next.Fails reg config g) := by
  refine ⟨cases_of_fails, ?_⟩
  rintro ⟨g, rfl, ⟨cause, t, hraises, rfl⟩ | ⟨next, henters, hnext⟩⟩
  · exact hraises.fails
  · exact henters.fails hnext

/-! ## Runs of stages -/

theorem Enters.height_lt (h : Enters reg config stage next) : next.height < stage.height := by
  cases h with
  | asked hasked =>
    cases stage with
    | type levels chain s =>
      obtain ⟨q, -, heq⟩ := Option.map_eq_some_iff.1 hasked
      cases heq
      simp only [height]
      omega
    | field levels chain s =>
      cases hasked
      simp only [height]
      omega
    | returned levels chain s =>
      cases hasked
      simp only [height]
      omega
    | _ => cases hasked
  | _ => simp only [height]; omega

/-- **Behind every failure there is a run of stages** with its contexts. -/
theorem exists_run (h : stage.Fails reg config f) :
    ∃ path, FailsThrough reg config stage path f.cause f.spelling ∧
      f.contexts = path.map context := by
  induction hheight : stage.height using Nat.strong_induction_on generalizing stage f with
  | _ height ih =>
    subst hheight
    obtain ⟨g, rfl, ⟨cause, t, hraises, rfl⟩ | ⟨next, henters, hnext⟩⟩ := fails_iff.1 h
    · exact ⟨[stage], .here hraises, rfl⟩
    · obtain ⟨path, hpath, hcontexts⟩ := ih _ henters.height_lt hnext rfl
      refine ⟨stage :: path, .inside henters hpath, ?_⟩
      rw [List.map_cons, ← hcontexts]
      rfl

namespace FailsThrough

/-- **What is raised at the end of a run comes out of its first stage**, with all contexts. -/
theorem fails (h : FailsThrough reg config stage path cause s) :
    stage.Fails reg config ⟨cause, s, path.map context⟩ := by
  induction h with
  | here hraises => exact hraises.fails
  | inside henters _ ih => exact henters.fails ih

theorem height_le (h : FailsThrough reg config stage path cause s) :
    ∀ other ∈ path, other.height ≤ stage.height := by
  induction h with
  | here _ => simp
  | inside henters _ ih =>
    refine List.forall_mem_cons.2 ⟨le_rfl, fun other hother => ?_⟩
    exact (ih other hother).trans henters.height_lt.le

/-- No stage is run inside itself. -/
theorem nodup (h : FailsThrough reg config stage path cause s) : path.Nodup := by
  induction h with
  | here _ => simp
  | inside henters hnext ih =>
    refine List.nodup_cons.2 ⟨fun hmem => ?_, ih⟩
    exact absurd (hnext.height_le _ hmem) (by simpa using henters.height_lt)

theorem exists_eq_cons (h : FailsThrough reg config stage path cause s) :
    ∃ rest, path = stage :: rest := by
  cases h with
  | here _ => exact ⟨[], rfl⟩
  | inside _ _ => exact ⟨_, rfl⟩

end FailsThrough

theorem Fails.unique (h : stage.Fails reg config f) (h' : stage.Fails reg config g) : f = g := by
  cases stage <;> exact Except.error.inj (h.symm.trans h')

/-- A stage inside is told by its context. -/
theorem Enters.eq_of_context {other : Stage} (h : Enters reg config stage next)
    (h' : Enters reg config stage other) (heq : next.context = other.context) : next = other := by
  cases h with
  | asked hasked =>
    cases h' with
    | asked hasked' =>
      cases hasked.symm.trans hasked'
      rfl
    | _ => cases heq
  | function hread =>
    cases h' with
    | function hread' =>
      cases heq
      rfl
    | _ => cases heq
  | split levels chain s =>
    cases h' with
    | split => rfl
    | _ => cases heq
  | field =>
    cases h' with
    | field =>
      cases heq
      rfl
    | _ => cases heq
  | returned hparts =>
    cases h' with
    | returned hparts' =>
      cases hparts.symm.trans hparts'
      rfl
    | _ => cases heq

/-- A run is told by the contexts of its stages. -/
theorem FailsThrough.eq_of_contexts {path' : List Stage} {cause' : Cause} {s' : Text}
    (h : FailsThrough reg config stage path cause s)
    (h' : FailsThrough reg config stage path' cause' s')
    (heq : path.map context = path'.map context) : path = path' := by
  induction h generalizing path' with
  | here _ =>
    obtain ⟨rest, rfl⟩ := h'.exists_eq_cons
    have hrest : rest = [] := by simpa [eq_comm] using heq
    rw [hrest]
  | inside henters hnext ih =>
    obtain ⟨rest, rfl⟩ := hnext.exists_eq_cons
    cases h' with
    | here _ => simp at heq
    | inside henters' hnext' =>
      obtain ⟨rest', rfl⟩ := hnext'.exists_eq_cons
      rw [List.map_cons, List.map_cons (l := _ :: rest')] at heq
      have htail := (List.cons.inj heq).2
      obtain rfl := henters.eq_of_context henters' (List.cons.inj htail).1
      rw [ih hnext' htail]

/-- **There is one run behind a failure.** -/
theorem FailsThrough.unique {path' : List Stage} {cause' : Cause} {s' : Text}
    (h : FailsThrough reg config stage path cause s)
    (h' : FailsThrough reg config stage path' cause' s') :
    path' = path ∧ cause' = cause ∧ s' = s := by
  obtain ⟨hcause, hspelling, hcontexts⟩ := Failure.mk.inj (h'.fails.unique h.fails)
  exact ⟨h'.eq_of_contexts h hcontexts, hcause, hspelling⟩

end Stage

namespace Registry

open Stage

/-- The resolution of the spelling reports the failure of a run of stages. -/
structure Reports (reg : Registry) (config : Config) (s : Text) (path : List Stage) (cause : Cause)
    (t : Text) : Prop where
  /-- The first stage reads the spelling as a type. -/
  first : path.head? = some (.type (config.maxDepth.toNat - 1) [] s)
  /-- The last stage finds the cause in the spelling `t`. -/
  run : FailsThrough reg config (.type (config.maxDepth.toNat - 1) [] s) path cause t
  /-- There is no other run. -/
  unique : ∀ path' cause' t',
    FailsThrough reg config (.type (config.maxDepth.toNat - 1) [] s) path' cause' t' →
      path' = path ∧ cause' = cause ∧ t' = t
  /-- No stage is run twice. -/
  nodup : path.Nodup
  /-- The placeholder stands for the descriptor, and the failure is the one that was raised. -/
  resolution : reg.resolve config s = ⟨config.placeholder, some ⟨cause, t, path.map context⟩⟩
  /-- The family is that of the cause. -/
  category : (reg.resolve config s).failure.map Failure.category = some cause.category
  /-- The kind is that of the cause. -/
  kind : (reg.resolve config s).failure.map Failure.kind = some cause.category.kind
  /-- The contexts of the stages stand in front of the wording of the cause. -/
  message : (reg.resolve config s).message? = some (" : ".toList.intercalate
    (path.map (fun stage => stage.context.text) ++ [cause.message t]))

/-- **A failure keeps its identity and gains all contexts.** A spelling that is not resolved fails
through one run of stages, which begins with reading the spelling as a type. What is reported is the
cause that the last stage raised, with the contexts of all stages from the outside in. -/
theorem exists_reports (reg : Registry) (config : Config) (s : Text) (hdepth : 1 ≤ config.maxDepth)
    (hfails : (reg.resolve config s).ok = false) :
    ∃ path cause t, reg.Reports config s path cause t := by
  have hlevels : config.maxDepth.toNat = config.maxDepth.toNat - 1 + 1 := by omega
  obtain ⟨f, hf⟩ : ∃ f, (reg.trace config s).result = .error f := by
    cases h : (reg.trace config s).result with
    | error f => exact ⟨f, rfl⟩
    | ok d => simp [resolve, h, Resolution.ofResult, Resolution.ok] at hfails
  have houtermost : (Stage.type (config.maxDepth.toNat - 1) [] s).Fails reg config f := by
    rwa [trace, hlevels] at hf
  obtain ⟨path, hpath, hcontexts⟩ := exists_run houtermost
  obtain ⟨rest, hrest⟩ := hpath.exists_eq_cons
  have hresolve : reg.resolve config s =
      ⟨config.placeholder, some ⟨f.cause, f.spelling, path.map context⟩⟩ := by
    rw [resolve, hf, ← hcontexts]
    rfl
  refine ⟨path, f.cause, f.spelling, ?_, hpath, fun _ _ _ h => hpath.unique h, hpath.nodup,
    hresolve, ?_, ?_, ?_⟩
  · rw [hrest, List.head?_cons]
  · rw [hresolve]
    rfl
  · rw [hresolve]
    rfl
  · rw [hresolve, Resolution.message?, Option.map_some, Failure.message_eq_intercalate,
      List.map_map]
    rfl

/-- Two typedefs that lead back to the first, through a parameter, a pointer and an array. -/
theorem exists_reports_cycle :
    let reg : Registry :=
      { typedefs := [("a".toList, "b *".toList), ("b".toList, "a [2]".toList)] }
    let config : Config := { unwind := true }
    let s := "void (a)".toList
    1 ≤ config.maxDepth ∧ (reg.resolve config s).ok = false ∧
      (∃ path cause t, reg.Reports config s path cause t) ∧
      (reg.resolve config s).message? = some ("Cannot resolve type 'void (a)' : ".toList ++
        "Cannot separate function 'void (a)' : Error in field 'a' : ".toList ++
        "Cannot resolve type 'a' : Cannot resolve type 'b *' : ".toList ++
        "Cannot resolve type 'b' : Cannot resolve type 'a [2]' : ".toList ++
        "Cannot resolve type 'a ' : typedef cycle : a -> b -> a".toList) := by
  intro reg config s
  have hfails : (reg.resolve config s).ok = false := by decide +kernel
  exact ⟨by decide, hfails, exists_reports reg config s (by decide) hfails, by decide +kernel⟩

end Registry

end CSpelling

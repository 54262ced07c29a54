import CSpelling.Reading
import CSpelling.Signature

/-!
# Resolving spellings

A spelling is resolved by describing its reading; the parts of a reading are resolved in turn, one
level deeper. `descend` bounds the levels, and a typedef that leads back to itself is refused.

* `Trace` is the outcome of a resolution with the packages that were used on the way, which count
  even if a later part fails.
* `Reading.describe` says what each reading is worth, given how its parts are resolved.
* `Registry.trace` resolves a spelling, `Registry.traceFunction` the parts of a function type.
* `Registry.resolve` puts a placeholder where there is no descriptor, and `Registry.resolveAll`
  resolves spellings one after another, while the registry records the packages in use.

`Config.maxDepth` is the only limit on the levels. Of the limits that a runtime has of its own, the
one on the digits of a numeral is modelled (`maxDigits`). The one on nested calls is not: it is taken
not to be reached, also where `maxDepth` is greater.
-/

namespace CSpelling

open Text

/-! ## Outcomes -/

/-- An outcome and the paths of the packages that were used, in order. -/
structure Trace (α : Type) where
  /-- The paths of the packages. -/
  imports : List Text
  /-- The outcome. -/
  result : Except Failure α

namespace Trace

/-- The trace that uses no package. -/
def ofResult {α : Type} (r : Except Failure α) : Trace α := ⟨[], r⟩

/-- The trace of a value. -/
def value {α : Type} (a : α) : Trace α := ofResult (.ok a)

/-- The trace of a failure. -/
def fail {α : Type} (cause : Cause) (s : Text) : Trace α := ofResult (.error ⟨cause, s, []⟩)

/-- One trace after another; a failure ends both. -/
def andThen {α β : Type} (t : Trace α) (next : α → Trace β) : Trace β :=
  match t.result with
  | .ok a =>
    let u := next a
    ⟨t.imports ++ u.imports, u.result⟩
  | .error f => ⟨t.imports, .error f⟩

/-- The trace with a function applied to its value. -/
def map {α β : Type} (g : α → β) (t : Trace α) : Trace β := ⟨t.imports, t.result.map g⟩

/-- The trace with a context around its failure. -/
def within {α : Type} (context : Context) (t : Trace α) : Trace α :=
  ⟨t.imports, t.result.mapError (Failure.within context)⟩

/-- The values of `g` along a list; the first failure ends the list. -/
def traverse {α β : Type} (g : α → Trace β) : List α → Trace (List β)
  | [] => value []
  | a :: rest => (g a).andThen fun b => (traverse g rest).map (b :: ·)

end Trace

/-! ## Readings and their parts -/

/-- The name as the registry qualifies it, and the package that this uses. -/
def Registry.describeName (reg : Registry) (name : Text) : Trace Text :=
  let q := reg.qualify name
  ⟨if q.path.isEmpty then [] else [q.path], .ok q.short⟩

/-- The descriptors of the parts of a function type. Empty parameters are left out. -/
def describeParts (part : Text → Trace Text) (parts : Parts) : Trace Signature :=
  let field (s : Text) : Trace Text := (part s).within (.field s)
  (Trace.traverse field (parts.fields.filter (!·.isEmpty))).andThen fun params =>
    ((part parts.returns).within (.returned parts.returns)).map fun returns =>
      ⟨parts.indirection, params, returns⟩

/-- A function type with its parts resolved by `part`. -/
def describeFunction (part : Text → Trace Text) (s : Text) : Trace Signature :=
  ((Trace.ofResult (Parts.ofSpelling s)).andThen (describeParts part)).within (.function s)

/-- The descriptor of a pointer. -/
def pointerTo (pointee : Text) : Text :=
  match Pointee.ofDescriptor pointee with
  | .opaqueHandle => '*' :: pointee
  | .value => '[' :: ']' :: pointee

/-- The descriptor of a reading, whose parts are resolved by `part`; `chain` holds the typedefs
that led here, the latest last. -/
def Reading.describe (reg : Registry) (part : List Text → Text → Trace Text) (chain : List Text) :
    Reading → Trace Text
  | .descriptor d => .value d
  | .named name => reg.describeName name
  | .function s => (describeFunction (part chain) s).map Signature.descriptor
  | .enumeration => part chain "int".toList
  | .alias name underlying =>
    if chain.contains name then .fail (.typedefCycle (chain ++ [name])) name
    else part (chain ++ [name]) underlying
  | .pointer pointee => (part chain pointee).map pointerTo
  | .array dimensions element => (part chain element).map (dimensions ++ ·)
  | .rejected cause s => .fail cause s

/-! ## Resolution -/

/-- How spellings are resolved. -/
structure Config where
  /-- What stands for a type without descriptor. -/
  placeholder : Text := anyType
  /-- The number of levels that parts may be nested. -/
  maxDepth : Int := 64
  /-- Typedefs are read as what they stand for. -/
  unwind : Bool := false
  deriving DecidableEq, Repr

namespace Registry

/-- The descriptor of a spelling with `levels` left to descend, after the typedefs of `chain`. -/
def descend (reg : Registry) (config : Config) : Nat → List Text → Text → Trace Text
  | 0, _, s => .fail (.tooDeep config.maxDepth) s
  | levels + 1, chain, s =>
    ((Reading.ofSpelling reg config.unwind s).describe reg (descend reg config levels)
      chain).within (.type s)

/-- The descriptor of a spelling, and the packages used. -/
def trace (reg : Registry) (config : Config) (s : Text) : Trace Text :=
  reg.descend config config.maxDepth.toNat [] s

/-- The parts of a function type as descriptors, and the packages used. -/
def traceFunction (reg : Registry) (config : Config) (s : Text) : Trace Signature :=
  describeFunction (reg.descend config config.maxDepth.toNat []) s

end Registry

/-- A descriptor, and the failure that put the placeholder in its stead. -/
structure Resolution where
  /-- The descriptor. -/
  descriptor : Text
  /-- The failure, if there was one. -/
  failure : Option Failure
  deriving DecidableEq, Repr

namespace Resolution

/-- The resolution that a result amounts to. -/
def ofResult (placeholder : Text) : Except Failure Text → Resolution
  | .ok d => ⟨d, none⟩
  | .error f => ⟨placeholder, some f⟩

/-- There was no failure. -/
def ok (r : Resolution) : Bool := r.failure.isNone

/-- The wording of the failure. -/
def message? (r : Resolution) : Option Text := r.failure.map Failure.message

/-- The descriptor, with the failure behind it. -/
def text (r : Resolution) : Text :=
  match r.message? with
  | none => r.descriptor
  | some message => r.descriptor ++ "  # ".toList ++ message

end Resolution

namespace Registry

/-- The result of a trace, and the registry after the packages in use are recorded. -/
def recordTrace {α : Type} (reg : Registry) (t : Trace α) : Except Failure α × Registry :=
  (t.result, reg.record t.imports)

/-- The resolution of a spelling. -/
def resolve (reg : Registry) (config : Config) (s : Text) : Resolution :=
  .ofResult config.placeholder (reg.trace config s).result

/-- The resolutions of spellings, each on the registry that the ones before it left, and the
registry after the last. -/
def resolveAll (reg : Registry) : List (Text × Config) → List Resolution × Registry
  | [] => ([], reg)
  | (s, config) :: rest =>
    let (result, next) := reg.recordTrace (reg.trace config s)
    let (resolutions, last) := next.resolveAll rest
    (.ofResult config.placeholder result :: resolutions, last)

end Registry

end CSpelling

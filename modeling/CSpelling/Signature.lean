import CSpelling.Failure
import CSpelling.Shape
import CSpelling.Text.Blank

/-!
# Function types

The spelling of a function type is a returned type followed by its arguments in parentheses. If
the returned part ends in a parenthesis, its last parenthesised *block* says how a pointer or an
array wraps the result: in `void ( *(*)(int *, char *))(void)` the block stands between `void`
and the arguments `(void)`.

* `openIndex` finds the parenthesis that opens a closing one.
* `topFields` splits arguments at the commas outside of inner parentheses.
* `BlockShape.ofBlock` tells the ways in which a block wraps a result.
* `Parts.ofSpelling` splits a function type into its indirection, parameters and returned type,
  and `Signature.descriptor` writes a function type whose parts have descriptors.
-/

namespace CSpelling

open Text

/-! ## Parentheses -/

/-- The index of the parenthesis that opens a closing one, in a text given backwards; `depth`
closing parentheses are open already. -/
def openBefore : Nat → Text → Option Nat
  | _, [] => none
  | depth, c :: before =>
    if c = ')' then openBefore (depth + 1) before
    else if c = '(' then
      if depth ≤ 1 then some before.length else openBefore (depth - 1) before
    else openBefore depth before

/-- The index of the parenthesis that opens the closing one at the index `close`. -/
def openIndex (s : Text) (close : Nat) : Option Nat :=
  openBefore 0 (s.take (close + 1)).reverse

/-- The index of the parenthesis that opens the last character of the text. -/
def lastOpenIndex (s : Text) : Option Nat := openIndex s (s.length - 1)

/-- The fields of a text with one more character at the beginning of the first. -/
def consField (c : Char) : List Text → List Text
  | [] => [[c]]
  | field :: rest => (c :: field) :: rest

/-- The pieces between the commas that stand outside of inner parentheses; `depth` of these are
open. -/
def fieldsWithin : Nat → Text → List Text
  | _, [] => [[]]
  | depth, c :: rest =>
    if c = '(' then consField c (fieldsWithin (depth + 1) rest)
    else if c = ')' then consField c (fieldsWithin (depth - 1) rest)
    else if c = ',' ∧ depth = 0 then [] :: fieldsWithin depth rest
    else consField c (fieldsWithin depth rest)

/-- The trimmed fields of arguments, given without their outer parentheses. -/
def topFields (arguments : Text) : List Text := (fieldsWithin 0 arguments).map strip

/-! ## Blocks -/

/-- The ways in which a block wraps the result of a function. -/
inductive BlockShape
  /-- Nothing but a marker, `(*)`. -/
  | trivialPointer
  /-- One pair of parentheses, as in `( * [2])`. -/
  | arrayOfPointers
  /-- Stars before further arguments, as in `(*(int *, void *))`. -/
  | indirectionSequence
  /-- A marker before further arguments, as in `( *(*)(int *, char *))`. -/
  | nestedFunctionPointer
  /-- Stars around a marker, as in `( *( *(*)))`. -/
  | deepIndirection
  deriving DecidableEq, Repr

namespace BlockShape

/-- The name of a shape. -/
def name : BlockShape → Text
  | trivialPointer => "trivial_pointer".toList
  | arrayOfPointers => "array_of_pointers".toList
  | indirectionSequence => "indirection_sequence".toList
  | nestedFunctionPointer => "nested_function_pointer".toList
  | deepIndirection => "deep_indirection".toList

/-- The shape of a block. -/
def ofBlock (block : Text) : BlockShape :=
  if block = marker then trivialPointer
  else
    match cut marker block with
    | none => if block.count '(' = 1 then arrayOfPointers else indirectionSequence
    | some (_, after) =>
      if 1 < after.length ∧ after.head? = some '(' then nestedFunctionPointer else deepIndirection

end BlockShape

/-- The text with its parentheses blanked and its first star removed. -/
def flattenBlock (block : Text) : Text :=
  removeFirst ['*'] (block.map fun c => if c = '(' ∨ c = ')' then ' ' else c)

/-- The text before the first opening parenthesis, and the text from it on. -/
def cutAtOpen (s : Text) : Option (Text × Text) :=
  (cut ['('] s).map fun halves => (halves.1, '(' :: halves.2)

/-- The indirection and the returned type that a block makes of the type `base` before it. -/
def unwrapBlock (block base : Text) : Except Failure (Text × Text) :=
  match BlockShape.ofBlock block with
  | .trivialPointer => .ok ([], base)
  | .arrayOfPointers => .ok (flattenBlock block, base)
  | .deepIndirection => .ok (flattenBlock block, base)
  | .indirectionSequence =>
    match cutAtOpen (interior block) with
    | none => .error ⟨.blockWithoutParen, block, []⟩
    | some (stars, after) =>
      if stars.contains '*' then .ok (removeFirst ['*'] stars, base ++ after)
      else .error ⟨.blockWithoutIndirection, block, []⟩
  | .nestedFunctionPointer =>
    match cutAtOpen (interior (removeFirst marker block)) with
    | none => .error ⟨.blockWithoutParen, block, []⟩
    | some (stars, after) => .ok (stars, base ++ after)

/-! ## Splitting -/

/-- The parts of a function type, as spellings. -/
structure Parts where
  /-- The stars and brackets that wrap the function. -/
  indirection : Text
  /-- The parameters; an empty one stands for none. -/
  fields : List Text
  /-- The returned type. -/
  returns : Text
  deriving DecidableEq, Repr

namespace Parts

/-- The parts of a function type whose arguments and returned type are given. -/
def ofReturns (s returns arguments : Text) : Except Failure Parts :=
  let fields := topFields (interior arguments)
  if returns.getLast? ≠ some ')' then .ok ⟨[], fields, returns⟩
  else
    match lastOpenIndex returns with
    | none => .error ⟨.unbalancedReturn returns, s, []⟩
    | some index => do
      let (indirection, base) ← unwrapBlock (returns.drop index) (returns.take index)
      .ok ⟨strip indirection, fields, strip base⟩

/-- The parts of a function type without white space at its ends. -/
def ofStripped (s : Text) : Except Failure Parts :=
  if !isFunction s then .error ⟨.notFunction, s, []⟩
  else if s.getLast? ≠ some ')' then .error ⟨.unclosed, s, []⟩
  else
    match lastOpenIndex s with
    | none => .error ⟨.noArguments, s, []⟩
    | some 0 => .error ⟨.noArguments, s, []⟩
    | some index =>
      let returns := strip (s.take index)
      if returns.isEmpty then .error ⟨.noReturn, s, []⟩
      else ofReturns s returns (s.drop index)

/-- The parts of a function type. -/
def ofSpelling (s : Text) : Except Failure Parts :=
  (ofStripped (strip s)).mapError (Failure.within (.split s))

end Parts

/-! ## Descriptors -/

/-- The parts of a function type, as descriptors. -/
structure Signature where
  /-- The stars and brackets that wrap the function. -/
  indirection : Text
  /-- The descriptors of the parameters. -/
  params : List Text
  /-- The descriptor of the returned type. -/
  returns : Text
  deriving DecidableEq, Repr

/-- The text that a separator leaves between two items of a list. -/
def listSeparator : Text := [',', ' ']

/-- The descriptor of a function type: a slice for each star around it, then its parameters and
its returned type. -/
def Signature.descriptor (f : Signature) : Text :=
  replace ['*'] ['[', ']'] f.indirection ++ "func(".toList ++
    listSeparator.intercalate f.params ++ ")(".toList ++ f.returns ++ ")".toList

end CSpelling

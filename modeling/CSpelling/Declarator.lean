import CSpelling.ArraySize
import CSpelling.Source

/-!
# Declarators

A declarator wraps a name in pointers, arrays and functions; a parameter list holds declarators
again. `Declarator.ofNode` reads one off a syntax tree.

* `Declarator.declaredName` is the name inside, empty if there is none.
* `Declarator.suffix?` is what the declarator adds to the spelling of a type: the declarator without
  its name, so that `(*fp)(int a)` adds `(*)(int)`.
* `Declarator.declaresFunction` tells whether the name is that of a function.

Declarators nest as deep as the tree does. The limit that a runtime sets to nested calls is taken
not to be reached.
-/

namespace CSpelling

open Text

mutual

/-- A declarator. -/
inductive Declarator
  /-- Nothing. -/
  | absent
  /-- A name. -/
  | name (s : Text)
  /-- A pointer. -/
  | pointer (inner : Declarator)
  /-- An array with the text of its size, empty for none. -/
  | array (inner : Declarator) (size : Text)
  /-- A function. -/
  | function (inner : Declarator) (parameters : List Parameter)
  /-- Parentheses. -/
  | parenthesized (inner : Declarator)
  /-- An initial value or attributes, which add nothing. -/
  | decorated (inner : Declarator)
  /-- A node that is no declarator but holds one. -/
  | foreign (inner : Declarator)

/-- A parameter of a function. -/
inductive Parameter
  /-- Any further arguments. -/
  | variadic
  /-- A type with a declarator. -/
  | declared (base : Text) (declarator : Declarator)

end

/-- A type with what a declarator adds to it. -/
def withSuffix (base suffix : Text) : Text :=
  if suffix.isEmpty then base else base ++ ' ' :: suffix

namespace Declarator

/-! ## What a declarator says -/

/-- The name inside a declarator, empty if there is none. -/
def declaredName : Declarator → Text
  | .absent => []
  | .name s => s
  | .pointer inner => inner.declaredName
  | .array inner _ => inner.declaredName
  | .function inner _ => inner.declaredName
  | .parenthesized inner => inner.declaredName
  | .decorated inner => inner.declaredName
  | .foreign inner => inner.declaredName

mutual

/-- What the declarator adds to the spelling of a type. There is none if the numeral of an array
size is too long. -/
def suffix? : Declarator → Option Text
  | .absent => some []
  | .name _ => some []
  | .pointer inner => inner.suffix?.map ('*' :: ·)
  | .array inner size => do
    let before ← inner.suffix?
    let digits ← sizeText? size
    some (before ++ '[' :: digits ++ [']'])
  | .function inner parameters => do
    let before ← inner.suffix?
    let fields ← parameterTexts? parameters
    some (before ++ '(' :: [',', ' '].intercalate fields ++ [')'])
  | .parenthesized inner => inner.suffix?.map fun s => '(' :: s ++ [')']
  | .decorated inner => inner.suffix?
  | .foreign inner => inner.suffix?

/-- The spellings of parameters. -/
def parameterTexts? : List Parameter → Option (List Text)
  | [] => some []
  | parameter :: rest => do
    let field ← parameterText? parameter
    let fields ← parameterTexts? rest
    some (field :: fields)

/-- The spelling of a parameter. -/
def parameterText? : Parameter → Option Text
  | .variadic => some "...".toList
  | .declared base declarator => declarator.suffix?.map (withSuffix base)

end

/-- The derivation next to the name is a function; `nearest` tells it of the derivations outside of
the declarator. -/
def functionNearest : Bool → Declarator → Bool
  | nearest, .absent => nearest
  | nearest, .name _ => nearest
  | _, .pointer inner => functionNearest false inner
  | _, .array inner _ => functionNearest false inner
  | _, .function inner _ => functionNearest true inner
  | nearest, .parenthesized inner => functionNearest nearest inner
  | nearest, .decorated inner => functionNearest nearest inner
  | _, .foreign inner => functionNearest false inner

/-- The declared name is that of a function. -/
def declaresFunction (d : Declarator) : Bool := functionNearest false d

/-! ## Reading declarators -/

/-- The node may be the declarator inside parentheses or attributes. -/
def isContent (node : Node) : Bool := node.named && node.kind ≠ .decoration

mutual

/-- The declarator that a node is. -/
def ofNode (src : Source) : Node → Declarator
  | ⟨kind, _, _, span, children⟩ =>
    match kind with
    | .name => .name (src.slice span)
    | .primitiveType => .name (src.slice span)
    | .pointer => .pointer (ofRole src children)
    | .array =>
      .array (ofRole src children)
        ((children.find? (·.role = some .size)).elim [] src.textOf)
    | .function => .function (ofRole src children) (parametersAmong src children)
    | .parenthesized => .parenthesized (ofContent src children)
    | .attributed => .decorated (ofContent src children)
    | .initialized => .decorated (ofRole src children)
    | _ => .foreign (ofRole src children)

/-- The first of the nodes that plays the role of a declarator. -/
def ofRole (src : Source) : List Node → Declarator
  | [] => .absent
  | node :: rest => if node.role = some .declarator then ofNode src node else ofRole src rest

/-- The first of the nodes that is neither a token nor a decoration. -/
def ofContent (src : Source) : List Node → Declarator
  | [] => .absent
  | node :: rest => if isContent node then ofNode src node else ofContent src rest

/-- The parameters in the first of the nodes that plays this role. -/
def parametersAmong (src : Source) : List Node → List Parameter
  | [] => []
  | node :: rest =>
    if node.role = some .parameters then parametersOf src node else parametersAmong src rest

/-- The parameters in a node. -/
def parametersOf (src : Source) : Node → List Parameter
  | ⟨_, _, _, _, children⟩ => parameterList src children

/-- The parameters that the nodes are, each at most one. -/
def parameterList (src : Source) : List Node → List Parameter
  | [] => []
  | node :: rest => (parameter? src node).toList ++ parameterList src rest

/-- The parameter that a node is. -/
def parameter? (src : Source) : Node → Option Parameter
  | ⟨kind, _, _, _, children⟩ =>
    match kind with
    | .parameter =>
      some (.declared
        (((children.find? (·.role = some .type)).map (src.baseAmong children)).getD [])
        (ofRole src children))
    | .variadic => some .variadic
    | _ => none

end

end Declarator

end CSpelling

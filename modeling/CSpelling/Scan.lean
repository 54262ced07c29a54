import CSpelling.Declaration
import CSpelling.Declarator
import CSpelling.Registry

/-!
# Scanning a syntax tree

A scan visits every node, each before its children, and lists what it finds: declarations, and the
names of aggregates with a body. A registry learns from the findings in order.

An array size may hold a numeral that is too long to be written. Such a declarator is no finding
but the end of the scan: `Source.findings` keeps it as `none`, `Source.scan` gives up at the first
one, and `Registry.learnFrom` takes what came before. A tree may be of any depth: the limit that a
runtime sets to nested calls is taken not to be reached.
-/

namespace CSpelling

open Text

/-! ## Findings -/

/-- What a node says about names. -/
inductive Finding
  /-- A declaration of a variable, a function or a field. -/
  | declared (d : Declaration)
  /-- A typedef, and the structure or union that it names. -/
  | typedef (d : Declaration) (base : Option Text)
  /-- A typedef of an enumeration. -/
  | enumTypedef (d : Declaration)
  /-- An aggregate with a body. -/
  | aggregate (tag : Text)
  deriving DecidableEq, Repr

/-- The declaration that a finding lists. -/
def Finding.declaration? : Finding → Option Declaration
  | .declared d => some d
  | .typedef d _ => some d
  | .enumTypedef d => some d
  | .aggregate _ => none

/-- The registry after a finding. -/
def Registry.learn (reg : Registry) : Finding → Registry
  | .declared _ => reg
  | .typedef d base => reg.addTypedef d.name d.spelling base
  | .enumTypedef d => reg.addEnum d.name
  | .aggregate tag => reg.declare tag

namespace Source

/-- The declaration that a declarator makes of a type. -/
def declare (base : Text) (kind : DeclarationKind) (node : Node) (declarator : Declarator)
    (suffix : Text) : Declaration :=
  ⟨declarator.declaredName, kind, withSuffix base suffix, .ofSpan node.span⟩

/-- A declarator of a variable or a function. -/
def objectFinding (src : Source) (base : Text) (node : Node) : Option Finding :=
  let declarator := Declarator.ofNode src node
  let kind := if declarator.declaresFunction then DeclarationKind.function else .variable
  declarator.suffix?.map fun suffix => .declared (declare base kind node declarator suffix)

/-- A declarator of a field. -/
def fieldFinding (src : Source) (base : Text) (node : Node) : Option Finding :=
  let declarator := Declarator.ofNode src node
  declarator.suffix?.map fun suffix => .declared (declare base .field node declarator suffix)

/-- A declarator of a typedef of the type that `type` specifies: nothing if it has no name. -/
def typedefFindings (src : Source) (base : Text) (type node : Node) : List (Option Finding) :=
  let declarator := Declarator.ofNode src node
  match declarator.suffix? with
  | none => [none]
  | some suffix =>
    let d := declare base .typedef node declarator suffix
    let whole := src.typeSpelling type
    if d.name.isEmpty then []
    else if !suffix.isEmpty then [some (.typedef d none)]
    else if type.kind = .aggregate .enum then [some (.enumTypedef d)]
    else if structKeyword.isPrefixOf whole || unionKeyword.isPrefixOf whole then
      [some (.typedef d (some whole))]
    else [some (.typedef d none)]

/-- A function with its body. -/
def functionFinding (src : Source) (node : Node) : Option Finding :=
  let declarator := Declarator.ofRole src node.children
  let base := (src.baseSpelling? node).getD []
  declarator.suffix?.map fun suffix => .declared (declare base .function node declarator suffix)

/-- What the declarators of a node are found to be, given the type that they begin with. -/
def declaratorFindings (src : Source) (node : Node)
    (find : Text → Node → Node → List (Option Finding)) : List (Option Finding) :=
  match node.child? .type with
  | none => []
  | some type =>
    (node.childrenWith .declarator).flatMap (find (src.baseAmong node.children type) type)

/-- What a single node is found to say; `none` stands for a size that cannot be written. -/
def nodeFindings (src : Source) (node : Node) : List (Option Finding) :=
  match node.kind with
  | .typedef => src.declaratorFindings node src.typedefFindings
  | .declaration => src.declaratorFindings node fun base _ d => [src.objectFinding base d]
  | .fieldDeclaration => src.declaratorFindings node fun base _ d => [src.fieldFinding base d]
  | .functionDefinition => [src.functionFinding node]
  | .aggregate a => if (node.child? .body).isSome then [some (.aggregate (src.tag a node))] else []
  | _ => []

/-- What the nodes of a tree are found to say, in order. -/
def findings (src : Source) (root : Node) : List (Option Finding) :=
  root.preorder.flatMap src.nodeFindings

end Source

/-! ## Scans -/

/-- The findings before the first that could not be made. -/
def made : List (Option Finding) → List Finding
  | some finding :: rest => finding :: made rest
  | _ => []

/-- The registry after the findings that were made. -/
def Registry.learnFrom (reg : Registry) (findings : List (Option Finding)) : Registry :=
  (made findings).foldl Registry.learn reg

/-- The declarations in a tree, in order, unless one of them has a size that cannot be written. -/
def Source.scan (src : Source) (root : Node) : Option (List Declaration) :=
  let findings := src.findings root
  if findings.all Option.isSome then some ((made findings).filterMap Finding.declaration?)
  else none

end CSpelling

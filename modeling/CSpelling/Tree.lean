import CSpelling.Text.Basic

/-!
# Syntax trees of C

A node of a syntax tree has a kind, the role it plays for its parent, its extent in the source,
and children. Only the kinds and roles that declarations are made of are told apart.

`Node.child?` and `Node.childrenWith` look among the direct children, and `Node.preorder` lists a
tree from the root down, children in order.
-/

namespace CSpelling

/-! ## Kinds and roles -/

/-- The kinds of aggregates. -/
inductive Aggregate
  | struct
  | union
  | enum
  deriving DecidableEq, Repr

/-- The keyword of a kind of aggregate. -/
def Aggregate.keyword : Aggregate → Text
  | .struct => "struct".toList
  | .union => "union".toList
  | .enum => "enum".toList

/-- The kinds of nodes. -/
inductive NodeKind
  /-- An identifier of a variable, a function, a type or a field. -/
  | name
  /-- The name of a primitive type, which may also be declared. -/
  | primitiveType
  /-- An arithmetic type with specifiers of size or sign. -/
  | sizedType
  /-- A structure, a union or an enumeration, with or without a body. -/
  | aggregate (a : Aggregate)
  /-- A qualifier of a type. -/
  | qualifier
  /-- A pointer declarator, with or without a name. -/
  | pointer
  /-- An array declarator, with or without a name. -/
  | array
  /-- A function declarator, with or without a name. -/
  | function
  /-- A declarator in parentheses, with or without a name. -/
  | parenthesized
  /-- A declarator with an initial value. -/
  | initialized
  /-- A declarator with attributes. -/
  | attributed
  /-- An attribute, a calling convention or a comment beside a declarator. -/
  | decoration
  /-- A parameter of a function. -/
  | parameter
  /-- The dots that stand for further arguments. -/
  | variadic
  /-- A definition of typedefs. -/
  | typedef
  /-- A declaration of variables and functions. -/
  | declaration
  /-- A function with its body. -/
  | functionDefinition
  /-- A declaration of fields. -/
  | fieldDeclaration
  /-- Any other node. -/
  | other
  deriving DecidableEq, Repr

/-- The kinds of nodes under the names that a grammar of C gives them. -/
def nodeKindNames : List (Text × NodeKind) :=
  [("identifier".toList, .name),
   ("type_identifier".toList, .name),
   ("field_identifier".toList, .name),
   ("primitive_type".toList, .primitiveType),
   ("sized_type_specifier".toList, .sizedType),
   ("struct_specifier".toList, .aggregate .struct),
   ("union_specifier".toList, .aggregate .union),
   ("enum_specifier".toList, .aggregate .enum),
   ("type_qualifier".toList, .qualifier),
   ("pointer_declarator".toList, .pointer),
   ("abstract_pointer_declarator".toList, .pointer),
   ("array_declarator".toList, .array),
   ("abstract_array_declarator".toList, .array),
   ("function_declarator".toList, .function),
   ("abstract_function_declarator".toList, .function),
   ("parenthesized_declarator".toList, .parenthesized),
   ("abstract_parenthesized_declarator".toList, .parenthesized),
   ("init_declarator".toList, .initialized),
   ("attributed_declarator".toList, .attributed),
   ("attribute_specifier".toList, .decoration),
   ("attribute_declaration".toList, .decoration),
   ("ms_call_modifier".toList, .decoration),
   ("comment".toList, .decoration),
   ("parameter_declaration".toList, .parameter),
   ("variadic_parameter".toList, .variadic),
   ("...".toList, .variadic),
   ("type_definition".toList, .typedef),
   ("declaration".toList, .declaration),
   ("function_definition".toList, .functionDefinition),
   ("field_declaration".toList, .fieldDeclaration)]

/-- The kind of a node of the given name. -/
def NodeKind.ofName (name : Text) : NodeKind := (nodeKindNames.lookup name).getD .other

/-- The roles that a node may play for its parent. -/
inductive Role
  /-- The type of a declaration. -/
  | type
  /-- A declarator, of a declaration or inside another declarator. -/
  | declarator
  /-- The tag of an aggregate. -/
  | name
  /-- The size of an array. -/
  | size
  /-- The parameters of a function. -/
  | parameters
  /-- The members of an aggregate. -/
  | body
  /-- Any other role. -/
  | other
  deriving DecidableEq, Repr

/-- The roles under the names that a grammar of C gives them. -/
def roleNames : List (Text × Role) :=
  [("type".toList, .type),
   ("declarator".toList, .declarator),
   ("name".toList, .name),
   ("size".toList, .size),
   ("parameters".toList, .parameters),
   ("body".toList, .body)]

/-- The role of the given name. -/
def Role.ofName (name : Text) : Role := (roleNames.lookup name).getD .other

/-! ## Nodes -/

/-- A place in a source: rows and columns count from zero, columns in bytes. -/
structure Point where
  row : Nat
  column : Nat
  deriving DecidableEq, Repr

/-- The extent of a node in a source. -/
structure Span where
  /-- The bytes before the node. -/
  startByte : Nat
  /-- The bytes up to the end of the node. -/
  endByte : Nat
  /-- Where the node begins. -/
  start : Point
  /-- Where the node ends. -/
  stop : Point
  deriving DecidableEq, Repr

/-- A node of a syntax tree. -/
structure Node where
  /-- The kind. -/
  kind : NodeKind
  /-- The node is more than a token of the grammar. -/
  named : Bool
  /-- The role for the parent. -/
  role : Option Role
  /-- The extent. -/
  span : Span
  /-- The children, in order. -/
  children : List Node
  deriving Repr

namespace Node

/-- The first child in the role. -/
def child? (node : Node) (role : Role) : Option Node :=
  node.children.find? (·.role = some role)

/-- All children in the role, in order. -/
def childrenWith (node : Node) (role : Role) : List Node :=
  node.children.filter (·.role = some role)

mutual

/-- The node and everything below it, each node before its children. -/
def preorder : Node → List Node
  | ⟨kind, named, role, span, children⟩ =>
    ⟨kind, named, role, span, children⟩ :: preorderAll children

/-- The trees of a list, each node before its children. -/
def preorderAll : List Node → List Node
  | [] => []
  | node :: rest => node.preorder ++ preorderAll rest

end

end Node

end CSpelling

import CSpelling.Numeral

/-!
# Failures

A failure has one innermost cause, the spelling that the cause was found in, and the contexts that
it passed on its way out. `Failure.message` writes the contexts from the outside in, then the
cause; `Failure.category` and `Failure.kind` depend on the cause alone.
-/

namespace CSpelling

/-- Why a spelling has no descriptor. -/
inductive Cause
  /-- The spelling holds a colon. -/
  | strayColon
  /-- Nothing is left of the spelling once it is normal. -/
  | emptyType
  /-- The parts are nested deeper than the limit allows. -/
  | tooDeep (limit : Int)
  /-- The typedef names along the chain lead back to the last of them. -/
  | typedefCycle (chain : List Text)
  /-- A union without a name. -/
  | anonymousUnion
  /-- A function pointer in a place where no other reading applies. -/
  | functionPointer
  /-- A function type in a place where no other reading applies. -/
  | functionType
  /-- No reading applies. -/
  | unknownType
  /-- A function type was expected. -/
  | notFunction
  /-- A function type does not end in a parenthesis. -/
  | unclosed
  /-- The arguments of a function type have no opening parenthesis. -/
  | noArguments
  /-- Nothing stands before the arguments of a function type. -/
  | noReturn
  /-- The last parenthesis before the arguments is never opened. -/
  | unbalancedReturn (returns : Text)
  /-- A block holds no inner parenthesis where one was expected. -/
  | blockWithoutParen
  /-- A block holds no star in front of its inner parenthesis. -/
  | blockWithoutIndirection
  /-- The spelling holds no array size. -/
  | noArraySize
  deriving DecidableEq, Repr

/-- The families of causes. -/
inductive Category
  /-- The spelling itself is damaged. -/
  | malformed
  /-- The spelling leads back to itself, or too deep. -/
  | cycle
  /-- A function type could not be split. -/
  | grammar
  /-- The type is understood but has no descriptor. -/
  | unsupported
  /-- The type is not understood. -/
  | unknown
  deriving DecidableEq, Repr

/-- What a failure is reported as. -/
inductive FailureKind
  /-- The spelling is at fault. -/
  | malformed
  /-- The type has no descriptor. -/
  | unsupported
  /-- The type is not known. -/
  | unknown
  deriving DecidableEq, Repr

/-- The name that a kind of failure is reported under. -/
def FailureKind.name : FailureKind → Text
  | .malformed => "malformed".toList
  | .unsupported => "unsupported".toList
  | .unknown => "unknown".toList

/-- Cycles and function types that cannot be split count as malformed. -/
def Category.kind : Category → FailureKind
  | .malformed => .malformed
  | .cycle => .malformed
  | .grammar => .malformed
  | .unsupported => .unsupported
  | .unknown => .unknown

namespace Cause

/-- The family of a cause. -/
def category : Cause → Category
  | strayColon => .malformed
  | emptyType => .malformed
  | tooDeep _ => .cycle
  | typedefCycle _ => .cycle
  | anonymousUnion => .unsupported
  | functionPointer => .unsupported
  | functionType => .unsupported
  | unknownType => .unknown
  | notFunction => .grammar
  | unclosed => .grammar
  | noArguments => .grammar
  | noReturn => .grammar
  | unbalancedReturn _ => .grammar
  | blockWithoutParen => .grammar
  | blockWithoutIndirection => .grammar
  | noArraySize => .malformed

/-- The wording of a cause found in the spelling `s`. -/
def message (s : Text) : Cause → Text
  | strayColon => "probably an incorrect type translation (stray ':')".toList
  | emptyType => "probably an incorrect type translation (empty type)".toList
  | tooDeep limit => "nesting deeper than ".toList ++ intText limit ++ " levels".toList
  | typedefCycle chain => "typedef cycle : ".toList ++ " -> ".toList.intercalate chain
  | anonymousUnion => "anonymous unions must be named before resolution".toList
  | functionPointer =>
    "function pointers are not supported [1] : '".toList ++ s ++ "'".toList
  | functionType =>
    "function pointers are not supported [2] : '".toList ++ s ++ "'".toList
  | unknownType =>
    "I couldn't find an appropriate Go type for the C type '".toList ++ s ++ "'.".toList
  | notFunction => "Is not function : ".toList ++ s
  | unclosed => "Function type ".toList ++ s ++ " does not end with ')'".toList
  | noArguments => "Cannot find '(' of arguments in type : ".toList ++ s
  | noReturn => "Missing return type in : ".toList ++ s
  | unbalancedReturn returns => "Unbalanced return type : ".toList ++ returns
  | blockWithoutParen => "Cannot find '(' in block ".toList ++ s
  | blockWithoutIndirection =>
    "Block ".toList ++ s ++ " wraps a function without indirection".toList
  | noArraySize => "Cannot find size of array in type : ".toList ++ s

end Cause

/-- A step that a failure passed on its way out. -/
inductive Context
  /-- Reading the spelling as a type. -/
  | type (s : Text)
  /-- Reading the spelling as a function type with its parts. -/
  | function (s : Text)
  /-- Reading one parameter. -/
  | field (s : Text)
  /-- Reading the returned type. -/
  | returned (s : Text)
  /-- Splitting the spelling of a function type. -/
  | split (s : Text)
  deriving DecidableEq, Repr

/-- The wording of a context. -/
def Context.text : Context → Text
  | .type s => "Cannot resolve type '".toList ++ s ++ "'".toList
  | .function s => "Cannot separate function '".toList ++ s ++ "'".toList
  | .field s => "Error in field '".toList ++ s ++ "'".toList
  | .returned s => "Error in return field '".toList ++ s ++ "'".toList
  | .split s => "Cannot parse function '".toList ++ s ++ "'".toList

/-- A cause, where it was found, and what it passed on its way out. -/
structure Failure where
  /-- The innermost cause. -/
  cause : Cause
  /-- The spelling that the cause was found in. -/
  spelling : Text
  /-- The contexts, from the outside in. -/
  contexts : List Context := []
  deriving DecidableEq, Repr

namespace Failure

/-- The failure after one more context. -/
def within (context : Context) (f : Failure) : Failure :=
  { f with contexts := context :: f.contexts }

/-- The family of the failure. -/
def category (f : Failure) : Category := f.cause.category

/-- What the failure is reported as. -/
def kind (f : Failure) : FailureKind := f.category.kind

/-- The contexts from the outside in, then the cause. -/
def message (f : Failure) : Text :=
  f.contexts.foldr (fun context inner => context.text ++ " : ".toList ++ inner)
    (f.cause.message f.spelling)

@[simp] theorem cause_within (c : Context) (f : Failure) : (f.within c).cause = f.cause := rfl

@[simp] theorem message_within (c : Context) (f : Failure) :
    (f.within c).message = c.text ++ " : ".toList ++ f.message := rfl

end Failure

end CSpelling

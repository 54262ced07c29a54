import CSpelling.Numeral
import CSpelling.Tree

/-!
# Declarations

A declaration gives a name a type, in C. It is written on one line: its kind, its name and the
spelling of its type, then its place. A described declaration has the descriptor of the type
in addition, and the failure that left it without one.
-/

namespace CSpelling

/-- What a declaration declares. -/
inductive DeclarationKind
  | typedef
  | variable
  | function
  | field
  deriving DecidableEq, Repr

/-- The name of a kind of declaration. -/
def DeclarationKind.name : DeclarationKind → Text
  | .typedef => "typedef".toList
  | .variable => "variable".toList
  | .function => "function".toList
  | .field => "field".toList

/-- The kind of declaration of the given name. -/
def DeclarationKind.ofName? (name : Text) : Option DeclarationKind :=
  [DeclarationKind.typedef, .variable, .function, .field].find? (·.name = name)

/-- Where a declaration stands: lines count from one, columns from zero. -/
structure Location where
  startLine : Int := 0
  startColumn : Int := 0
  endLine : Int := 0
  endColumn : Int := 0
  deriving DecidableEq, Repr

namespace Location

/-- The location of an extent in a source. -/
def ofSpan (span : Span) : Location :=
  ⟨span.start.row + 1, span.start.column, span.stop.row + 1, span.stop.column⟩

/-- All numbers are zero: the declaration stands nowhere. -/
def isUnknown (l : Location) : Bool :=
  l.startLine = 0 && l.startColumn = 0 && l.endLine = 0 && l.endColumn = 0

/-- The line and the column of the beginning. -/
def text (l : Location) : Text :=
  if l.isUnknown then "<unknown>".toList
  else "line ".toList ++ intText l.startLine ++ ":".toList ++ intText l.startColumn

end Location

/-- A line with a remark behind it. -/
def remark (line note : Text) : Text := line ++ "  # ".toList ++ note

/-- A name and the spelling of its type. -/
structure Declaration where
  /-- The declared name. -/
  name : Text
  /-- What is declared. -/
  kind : DeclarationKind
  /-- The spelling of the type. -/
  spelling : Text
  /-- Where the declaration stands. -/
  location : Location := {}
  deriving DecidableEq, Repr

/-- The kind, the name and the type of a declaration. -/
def declarationText (kind : DeclarationKind) (name spelling : Text) : Text :=
  kind.name ++ " ".toList ++ name ++ ": ".toList ++ spelling

/-- The line that shows a declaration. -/
def Declaration.text (d : Declaration) : Text :=
  let line := declarationText d.kind d.name d.spelling
  if d.location.isUnknown then line else remark line d.location.text

/-- A declaration whose type was resolved. -/
structure Described where
  /-- The declared name. -/
  name : Text
  /-- What is declared. -/
  kind : DeclarationKind
  /-- The spelling of the type. -/
  spelling : Text
  /-- The descriptor of the type. -/
  descriptor : Text
  /-- The wording of the failure, if there was one. -/
  failure : Option Text
  deriving DecidableEq, Repr

namespace Described

/-- There was a failure, and it says something. -/
def failed (d : Described) : Bool := d.failure.any fun message => !message.isEmpty

/-- The line that shows a described declaration. -/
def text (d : Described) : Text :=
  let line := declarationText d.kind d.name d.spelling ++ " -> ".toList ++ d.descriptor
  match d.failure with
  | some (c :: message) => remark line (c :: message)
  | _ => line

end Described

end CSpelling

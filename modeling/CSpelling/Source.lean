import CSpelling.Anonymous
import CSpelling.Text.Bytes
import CSpelling.Tree

/-!
# Sources and the types in them

A source is a text with a file name. `Source.textOf` cuts the text of a node out of it, and
`Source.typeSpelling` and `Source.baseSpelling` spell the type that a declaration begins with.
-/

namespace CSpelling

open Text

/-- A source text and the name of its file. -/
structure Source where
  /-- The name of the file. -/
  file : Text
  /-- The text. -/
  text : Text
  deriving DecidableEq, Repr

namespace Source

/-- The text of a span. -/
def slice (src : Source) (span : Span) : Text :=
  byteSlice span.startByte span.endByte src.text

/-- The text of a node. -/
def textOf (src : Source) (node : Node) : Text := src.slice node.span

/-! ## Types -/

/-- The name of an aggregate: its tag, or a name made of the place where it begins. -/
def tag (src : Source) (a : Aggregate) (node : Node) : Text :=
  match node.child? .name with
  | some name => src.textOf name
  | none => anonymousName a.keyword src.file (node.span.start.row + 1) (node.span.start.column + 1)

/-- The spelling of the type that a node specifies. -/
def typeSpelling (src : Source) (node : Node) : Text :=
  match node.kind with
  | .aggregate a => a.keyword ++ ' ' :: src.tag a node
  | .primitiveType => usualSpelling (words (src.textOf node))
  | .sizedType => usualSpelling (words (src.textOf node))
  | _ => [' '].intercalate (words (src.textOf node))

/-- The texts of the qualifiers among some nodes. -/
def qualifierTexts (src : Source) (nodes : List Node) : List Text :=
  (nodes.filter (·.kind = .qualifier)).map src.textOf

/-- The type that some children of a declaration specify: their qualifiers, then the type. -/
def baseAmong (src : Source) (children : List Node) (type : Node) : Text :=
  [' '].intercalate (src.qualifierTexts children ++ [src.typeSpelling type])

/-- The type that a declaration begins with, if it has one. -/
def baseSpelling? (src : Source) (node : Node) : Option Text :=
  (node.child? .type).map (src.baseAmong node.children)

end Source

end CSpelling

import CSpelling.Vocabulary

/-!
# Shapes of spellings

What can be told of a C type spelling, or of a descriptor, from its characters alone: whether it
is a function, a pointer or an array. `Pointee.ofDescriptor` tells the streams, which are pointed
to directly, from all other types.
-/

namespace CSpelling

open Text

/-- The mark of a pointer to a function. -/
def marker : Text := ['(', '*', ')']

/-- The spelling holds a parenthesis beside those of the function-pointer markers. -/
def isFunction (s : Text) : Bool := (replace marker [] s).contains '('

/-- The last character that is not a space. -/
def lastMark? (s : Text) : Option Char := (dropEndWhile (· = ' ') s).getLast?

/-- The spelling ends in a star. -/
def isCPointer (s : Text) : Bool := lastMark? s = some '*'

/-- The spelling ends in a closing bracket. -/
def isCArray (s : Text) : Bool := lastMark? s = some ']'

/-- The descriptor holds a mark of a pointer or an array. -/
def isPointer (descriptor : Text) : Bool :=
  descriptor.any fun c => c = '*' || c = '[' || c = ']'

/-- The first star or opening bracket of the spelling is a bracket. -/
def hasArraySuffix (s : Text) : Bool := s.find? (fun c => c = '[' || c = '*') = some '['

/-- How a pointer to a type is written. -/
inductive Pointee
  /-- A stream: the pointer stays a pointer. -/
  | opaqueHandle
  /-- Any other type: the pointer becomes a slice. -/
  | value
  deriving DecidableEq, Repr

/-- The name of a kind of pointee. -/
def Pointee.name : Pointee → Text
  | .opaqueHandle => "opaque_handle".toList
  | .value => "value".toList

/-- A descriptor is that of a stream with its path or without some of it. -/
def Pointee.ofDescriptor (descriptor : Text) : Pointee :=
  if descriptor = handle ∨ ('/' :: descriptor).isSuffixOf handle then .opaqueHandle else .value

end CSpelling

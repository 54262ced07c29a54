import CSpelling.Normal
import CSpelling.Numeral

/-!
# Names of anonymous aggregates

An aggregate without a tag is named after its keyword and the place where it begins, in the form
`struct (anonymous struct at input.c:3:1)`. `sanitize` makes an identifier of such a name:
`__struct_at_input_c_3_1_`.
-/

namespace CSpelling

open Text

/-- The word that marks a name without a tag. -/
def anonymousWord : Text := "anonymous".toList

/-- The character has no place in an identifier and becomes an underscore. -/
def isIllegal (c : Char) : Bool := ['(', ')', ' ', ':', '/', '\\', '-', '.'].contains c

/-- The text with underscores for illegal characters up to the first closing parenthesis, that
parenthesis included. -/
def legalise (s : Text) : Text :=
  let inside := s.takeWhile (· ≠ ')')
  let after := s.dropWhile (· ≠ ')')
  (inside ++ after.take 1).map (fun c => if isIllegal c then '_' else c) ++ after.drop 1

/-- An identifier for an anonymous aggregate. The annotation in parentheses loses its marking word
and its illegal characters, colons elsewhere become letters, and the leading keyword is dropped.
Names without the word are only made normal, and those without an annotation stay as they are. -/
def sanitize (name : Text) : Text :=
  if !occurs anonymousWord name then normalize name
  else
    match cut ('(' :: anonymousWord) name with
    | none => name
    | some (before, _) =>
      let unmarked := removeFirst anonymousWord name
      let legal := unmarked.take before.length ++ legalise (unmarked.drop before.length)
      let spelling := normalize (legal.map fun c => if c = ':' then 'D' else c)
      (afterKeyword? [structKeyword, unionKeyword, enumKeyword] spelling).getD spelling

/-- The name of an aggregate without a tag. -/
def anonymousName (keyword file : Text) (line column : Nat) : Text :=
  sanitize (keyword ++ " (anonymous ".toList ++ keyword ++ " at ".toList ++ file ++
    ":".toList ++ natText line ++ ":".toList ++ natText column ++ ")".toList)

end CSpelling

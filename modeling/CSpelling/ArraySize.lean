import CSpelling.Failure

/-!
# Array sizes

A size group is a row of decimal digits in brackets. `groupDigits?` reads the group that a text
begins with, `sizeGroups` the longest row of groups there, and `arraySize` the number in the first
group of a spelling.

`sizeText?` writes the size of an array declarator: the value of an integer constant in decimal
digits, and every other size as it stands.
-/

namespace CSpelling

open Text

/-! ## Size groups -/

/-- The digits of the size group that the text begins with. -/
def groupDigits? : Text → Option Text
  | '[' :: rest =>
    let digits := rest.takeWhile isDecimal
    if !digits.isEmpty && (rest.drop digits.length).head? = some ']' then some digits else none
  | _ => none

/-- The longest row of size groups after `skip` characters that belong to the first of them. -/
def sizeGroupsAfter : Nat → Text → Text
  | _, [] => []
  | skip + 1, c :: rest => c :: sizeGroupsAfter skip rest
  | 0, c :: rest =>
    match groupDigits? (c :: rest) with
    | some digits => c :: sizeGroupsAfter (digits.length + 1) rest
    | none => []

/-- The longest row of size groups that the text begins with. -/
def sizeGroups (s : Text) : Text := sizeGroupsAfter 0 s

/-- The digits of the first size group in the text. -/
def firstGroupDigits? : Text → Option Text
  | [] => none
  | c :: rest =>
    match groupDigits? (c :: rest) with
    | some digits => some digits
    | none => firstGroupDigits? rest

/-! ## The size in a spelling -/

/-- Why a spelling has no array size. -/
inductive SizeFault
  /-- There is no size group. -/
  | missing (failure : Failure)
  /-- The first size group holds a numeral that is too long. -/
  | tooLong
  deriving DecidableEq, Repr

/-- The number in the first size group of a spelling. -/
def arraySize (s : Text) : Except SizeFault Nat :=
  match firstGroupDigits? s with
  | none => .error (.missing ⟨.noArraySize, s, []⟩)
  | some digits =>
    match decimalNumber? digits with
    | none => .error .tooLong
    | some n => .ok n

/-! ## The size of a declarator -/

/-- The character may belong to the suffix of an integer constant. -/
def isSuffixChar (c : Char) : Bool := c = 'u' || c = 'U' || c = 'l' || c = 'L'

/-- The integer constant that a size spells, without white space and suffix. -/
def sizeLiteral? (size : Text) : Option IntegerLiteral :=
  IntegerLiteral.ofText? (dropEndWhile isSuffixChar (strip size))

/-- The text of a declarator's size: an integer constant in decimal digits, any other size
verbatim. There is none if a numeral is too long. -/
def sizeText? (size : Text) : Option Text :=
  match sizeLiteral? size with
  | none => some size
  | some literal => literal.number?.bind numeral?

end CSpelling

import CSpelling.Normal
import CSpelling.Shape

/-!
# Base types

The base type of a spelling is what is left without pointers, arrays and function-pointer markers.
`peel` removes the outermost of these, and `baseType` all of them: each step uses up a star, a
bracket or a parenthesis, so that there are fewer steps than characters.

Each step is a call within the one before. How many calls a runtime lets nest is not modelled: its
limit is taken not to be reached, however many decorations a spelling has.
-/

namespace CSpelling

open Text

/-- A normal spelling without its outermost decoration: what precedes the last bracket, what
precedes the last star, or a star in place of every marker. -/
def peel (s : Text) : Option Text :=
  match (if s.getLast? = some ']' then cutLast '[' s else none) with
  | some (element, _) => some element
  | none =>
    if s.getLast? = some '*' then some s.dropLast
    else if occurs marker s then some (replace marker ['*'] s)
    else none

/-- The base type after at most `fuel` steps. -/
def baseTypeWithin : Nat → Text → Text
  | 0, s => normalize s
  | fuel + 1, s =>
    match peel (normalize s) with
    | some rest => baseTypeWithin fuel rest
    | none => normalize s

/-- The named type beneath all pointers, arrays and function-pointer markers. -/
def baseType (s : Text) : Text := baseTypeWithin s.length s

end CSpelling

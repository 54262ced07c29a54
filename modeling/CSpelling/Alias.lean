import CSpelling.Normal
import CSpelling.Registry

/-!
# Typedefs that lead to a type

A typedef may stand for a spelling that is a typedef again. `Registry.walk` follows the normal
spellings along such a chain until one of them is in a table, is no typedef, or was met before;
`Registry.leadsTo` asks whether the walk ends in the table.
-/

namespace CSpelling

open Text

namespace Registry

/-- The answer of a walk along typedefs that comes to the normal spelling `s` after those that it
has met: whether it ends in the table, or elsewhere. A walk ends at a spelling that is no typedef,
and where it has been before. There is no answer if it goes on after `fuel` iterations. -/
def walk (reg : Registry) (table : List Text) : Nat → List Text → Text → Option Bool
  | 0, _, s => if table.contains s then some true else none
  | fuel + 1, met, s =>
    if table.contains s then some true
    else if met.contains s then some false
    else
      match reg.underlying? s with
      | none => some false
      | some underlying => walk reg table fuel (met ++ [s]) (normalize underlying)

/-- The spelling, or one that its typedefs stand for, is in the table. The walk goes on for one
iteration more than there are typedefs at most. -/
def leadsTo (reg : Registry) (table : List Text) (s : Text) : Bool :=
  (reg.walk table (reg.typedefs.length + 1) [] (normalize s)).getD false

/-- The spelling is an integer type, directly or through typedefs. -/
def isInteger (reg : Registry) (s : Text) : Bool := reg.leadsTo integerTypes s

/-- The spelling is a floating type, directly or through typedefs. -/
def isFloat (reg : Registry) (s : Text) : Bool := reg.leadsTo floatTypes s

/-- The name is a typedef of a function type. -/
def namesFunction (reg : Registry) (name : Text) : Bool := (reg.underlying? name).any isFunction

/-- The end of a pointer's spelling. -/
def pointerEnd : Text := [' ', '*']

/-- The typedef of a function type that the spelling is a pointer to. -/
def functionPointee? (reg : Registry) (s : Text) : Option Text :=
  (dropEnd? pointerEnd s).filter reg.namesFunction

/-- The spelling is a typedef of a function type or a pointer to one. -/
def isFunctionAlias (reg : Registry) (s : Text) : Bool :=
  reg.namesFunction s || (reg.functionPointee? s).isSome

end Registry

end CSpelling

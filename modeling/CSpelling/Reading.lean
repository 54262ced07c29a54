import CSpelling.Alias
import CSpelling.ArraySize
import CSpelling.Failure

/-!
# Readings

A spelling is read in one way: as a name that stands for itself, as a construction from other
spellings, or not at all. `Reading.ofSpelling` decides which, without looking into the parts.

The order of the decisions matters, because a spelling may fit several:

1. damaged spellings, and texts that stand for a type wherever they occur;
2. `ofName?`: the spelling as a whole, in the tables and in the registry;
3. `ofForm`: pointers, arrays and aggregates, by the form of the spelling.
-/

namespace CSpelling

open Text

/-- How a spelling is read. -/
inductive Reading
  /-- It stands for a descriptor. -/
  | descriptor (d : Text)
  /-- It stands for a name that may belong to a package. -/
  | named (name : Text)
  /-- It is a function type. -/
  | function (s : Text)
  /-- It is a typedef of an enumeration. -/
  | enumeration
  /-- It is a typedef, read as the spelling that it stands for. -/
  | alias (name underlying : Text)
  /-- It is a pointer. -/
  | pointer (pointee : Text)
  /-- It is an array, whose dimensions are written without sizes. -/
  | array (dimensions element : Text)
  /-- It has no reading. -/
  | rejected (cause : Cause) (s : Text)
  deriving DecidableEq, Repr

namespace Reading

/-! ## Forms -/

/-- The character may stand in the element type of an array with sizes. -/
def isElementChar (c : Char) : Bool := isWordChar c || c = '*' || c = ' '

/-- The first run of element characters that size groups follow, and these groups. -/
def sizedArray? : Text → Option (Text × Text)
  | [] => none
  | c :: rest =>
    let groups := sizeGroups ((c :: rest).dropWhile isElementChar)
    if isElementChar c && !groups.isEmpty then
      some ((c :: rest).takeWhile isElementChar, groups)
    else sizedArray? rest

/-- The row of size groups without the sizes in ASCII digits. -/
def dimensions (groups : Text) : Text := groups.filter fun c => !c.isDigit

/-- The character may end the returned type of a function. -/
def isReturnChar (c : Char) : Bool := isWordChar c || c = ' '

/-- A returned type, a parenthesis that begins with a star, and further arguments follow each
other somewhere in the spelling. -/
def hasFunctionPointer : Text → Bool
  | [] => false
  | c :: rest =>
    (isReturnChar c &&
      match dropStart? ['(', '*'] rest with
      | none => false
      | some after =>
        match cut [')', '('] after with
        | none => false
        | some (_, arguments) => arguments.contains ')') || hasFunctionPointer rest

/-- A returned type, a space and arguments follow each other somewhere in the spelling. -/
def hasFunctionType : Text → Bool
  | [] => false
  | c :: rest =>
    (isReturnChar c &&
      match dropStart? [' ', '('] rest with
      | none => false
      | some arguments => arguments.contains ')') || hasFunctionType rest

/-- The words that mark a union without a name. -/
def anonymousUnionWords : Text := "anonymous union".toList

/-- The end of the spelling of an array without size. -/
def unsizedEnd : Text := [' ', '[', ']']

/-- The spelling without its parentheses. -/
def withoutParens (s : Text) : Text := s.filter fun c => c ≠ '(' && c ≠ ')'

/-- The reading of a normal spelling by its form. -/
def ofForm (s : Text) : Reading :=
  if s.getLast? = some '*' then .pointer (strip s.dropLast)
  else
    match sizedArray? (withoutParens s) with
    | some (element, groups) => .array (dimensions groups) element
    | none =>
      match afterKeyword? [structKeyword, unionKeyword, enumKeyword] s with
      | some tag => .descriptor tag
      | none =>
        if occurs anonymousUnionWords s then .rejected .anonymousUnion s
        else if hasFunctionPointer s then .rejected .functionPointer s
        else if hasFunctionType s then .rejected .functionType s
        else
          match dropEnd? unsizedEnd s with
          | some element => .array ['[', ']'] element
          | none => .rejected .unknownType s

/-! ## Names -/

/-- The tag of the union that a typedef names. -/
def unionTag? (reg : Registry) (s : Text) : Option Text :=
  (reg.base? s).bind (dropStart? unionKeyword)

/-- A typedef that is used by its own name. -/
def keepsName (reg : Registry) (unwind : Bool) (s : Text) : Bool :=
  !unwind && (reg.underlying? s).isSome && !reg.isEnum s

/-- The reading of a typedef that is not used by its own name: an enumeration, a function type,
which keeps its name, or the spelling that the typedef stands for. -/
def ofAlias? (reg : Registry) (s : Text) : Option Reading :=
  if reg.isEnum s then some .enumeration
  else (reg.underlying? s).map fun underlying =>
    if isFunction underlying then .descriptor s else .alias s underlying

/-- The reading of a declared aggregate, with or without its keyword. -/
def ofDeclared? (reg : Registry) (s : Text) : Option Reading :=
  let tag := (afterKeyword? [structKeyword, unionKeyword, classKeyword] s).getD s
  if reg.isDeclared tag then some (.named tag) else none

/-- The reading of a normal spelling as a whole, by the tables and the registry. -/
def ofName? (reg : Registry) (unwind : Bool) (s : Text) : Option Reading :=
  match primitives.lookup s with
  | some d => some (.named d)
  | none =>
    match unionTag? reg s with
    | some tag => some (.descriptor tag)
    | none =>
      match reg.functionPointee? s with
      | some name => some (.descriptor name)
      | none =>
        match standardStructs.lookup s with
        | some d => some (.named d)
        | none =>
          if keepsName reg unwind s then some (.descriptor s)
          else if isFunction s then some (.function s)
          else (ofAlias? reg s).or (ofDeclared? reg s)

/-! ## Spellings -/

/-- The spelling with the fragments of system headers replaced. -/
def substitute (s : Text) : Text := fragments.foldl (fun t f => replace f.1 f.2 t) s

/-- The reading of a spelling. Typedefs are read as what they stand for if `unwind` holds. -/
def ofSpelling (reg : Registry) (unwind : Bool) (spelling : Text) : Reading :=
  if spelling.contains ':' then .rejected .strayColon spelling
  else
    let s := normalize spelling
    if s.isEmpty then .rejected .emptyType spelling
    else if occurs localeStruct s then .descriptor "int".toList
    else
      let known := substitute s
      (ofName? reg unwind known).getD (ofForm known)

end Reading

end CSpelling

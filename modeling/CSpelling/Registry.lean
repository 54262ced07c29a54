import CSpelling.Shape

/-!
# The registry of names

A registry holds what is known of the names of a program: the spelling that each typedef stands
for, the aggregate it names, the typedefs of enumerations, the aggregates that were declared, and
the paths of the packages in use. Adding an entry twice changes nothing; a typedef that is added
again takes the new spelling.

`Import.ofName` splits a name into the path of its package and its short form. A registry with
`qualifying := false` leaves all names as they are and uses no package.
-/

namespace CSpelling

open Text

/-! ## Qualified names -/

/-- A name, split. -/
structure Import where
  /-- The path of the package, empty for a local name. -/
  path : Text
  /-- The name as it is used. -/
  short : Text
  deriving DecidableEq, Repr

/-- The split of a name at its last slash: the path ends before the last dot after it. Without
such a dot the name is local. -/
def Import.ofName (name : Text) : Import :=
  match cutLast '/' name with
  | none => ⟨[], name⟩
  | some (folder, last) =>
    match cutLast '.' last with
    | none => ⟨[], name⟩
    | some (stem, _) => ⟨folder ++ '/' :: stem, last⟩

/-! ## Tables -/

/-- The table with the value stored under the key, in place if the key is present. -/
def put (key value : Text) : List (Text × Text) → List (Text × Text)
  | [] => [(key, value)]
  | (k, v) :: rest => if k = key then (key, value) :: rest else (k, v) :: put key value rest

theorem lookup_cons_ne {k key : Text} (value : Text) (table : List (Text × Text)) (h : k ≠ key) :
    ((key, value) :: table).lookup k = table.lookup k := by
  have differ : (k == key) = false := by simp [h]
  simp [List.lookup_cons, differ]

/-- Storing a value changes the entry of its key and no other. -/
theorem lookup_put (key value k : Text) (table : List (Text × Text)) :
    (put key value table).lookup k = if k = key then some value else table.lookup k := by
  induction table with
  | nil => by_cases h : k = key <;> simp [put, h]
  | cons entry rest ih =>
    obtain ⟨k', v⟩ := entry
    by_cases hk : k' = key
    · subst hk
      by_cases h : k = k' <;> simp [put, lookup_cons_ne, h]
    · by_cases h : k = k'
      · subst h
        simp [put, hk]
      · simp [put, lookup_cons_ne, hk, h, ih]

/-- What is known of the names of a program. -/
structure Registry where
  /-- The spelling that each typedef stands for. -/
  typedefs : List (Text × Text) := []
  /-- The structure or union that a typedef names. -/
  bases : List (Text × Text) := []
  /-- The typedefs of enumerations. -/
  enums : List Text := []
  /-- The aggregates that were declared. -/
  declared : List Text := []
  /-- The paths of the packages in use. -/
  imports : List Text := []
  /-- Names are split into package and short form. -/
  qualifying : Bool := true
  deriving DecidableEq, Repr

namespace Registry

/-! ## Reading -/

/-- The spelling that a typedef stands for. -/
def underlying? (reg : Registry) (name : Text) : Option Text := reg.typedefs.lookup name

/-- The structure or union that a typedef names. -/
def base? (reg : Registry) (name : Text) : Option Text := reg.bases.lookup name

/-- The name is a typedef of an enumeration. -/
def isEnum (reg : Registry) (name : Text) : Bool := reg.enums.contains name

/-- An aggregate of this name was declared. -/
def isDeclared (reg : Registry) (name : Text) : Bool := reg.declared.contains name

/-- The package and the short form of a name. -/
def qualify (reg : Registry) (name : Text) : Import :=
  if reg.qualifying then Import.ofName name else ⟨[], name⟩

/-! ## Growing -/

/-- The registry with a typedef. Without a base, or with an empty one, an earlier base stays. -/
def addTypedef (reg : Registry) (name underlying : Text) (base : Option Text) : Registry :=
  let grown := { reg with typedefs := put name underlying reg.typedefs }
  match base with
  | some (c :: rest) => { grown with bases := put name (c :: rest) reg.bases }
  | _ => grown

/-- The registry with a typedef of an enumeration. -/
def addEnum (reg : Registry) (name : Text) : Registry :=
  { reg with enums := reg.enums.insert name }

/-- The registry with a declared aggregate. -/
def declare (reg : Registry) (name : Text) : Registry :=
  { reg with declared := reg.declared.insert name }

/-- The registry with the paths of packages in use. -/
def record (reg : Registry) (paths : List Text) : Registry :=
  { reg with imports := paths.foldl (fun known path => known.insert path) reg.imports }

@[simp] theorem underlying?_addTypedef (reg : Registry) (name underlying k : Text)
    (base : Option Text) :
    (reg.addTypedef name underlying base).underlying? k =
      if k = name then some underlying else reg.underlying? k := by
  unfold addTypedef underlying?
  split <;> exact lookup_put name underlying k reg.typedefs

@[simp] theorem isEnum_addEnum (reg : Registry) (name k : Text) :
    (reg.addEnum name).isEnum k = (k = name || reg.isEnum k) := by
  simp [isEnum, addEnum]

@[simp] theorem isDeclared_declare (reg : Registry) (name k : Text) :
    (reg.declare name).isDeclared k = (k = name || reg.isDeclared k) := by
  simp [isDeclared, declare]

end Registry

end CSpelling

import CSpelling.Resolve

/-!
# What a registry knows

Only the answers of a registry matter for a reading, not how its tables are kept:
`Registry.knowledge` gathers the answers, spellings are read in the same way by the same knowledge
(`Reading.ofSpelling_of_knowledge`), and they come out in the same way if names are qualified alike
(`Registry.descend_of_knowledge`).
-/

namespace CSpelling

open Text

/-! ## Answers -/

/-- What can be asked of a registry about names. -/
@[ext]
structure Knowledge where
  /-- The spelling that a typedef stands for. -/
  underlying? : Text → Option Text
  /-- The structure or union that a typedef names. -/
  base? : Text → Option Text
  /-- The name is a typedef of an enumeration. -/
  isEnum : Text → Bool
  /-- An aggregate of this name was declared. -/
  isDeclared : Text → Bool

/-- The answers of a registry. -/
def Registry.knowledge (reg : Registry) : Knowledge :=
  ⟨reg.underlying?, reg.base?, reg.isEnum, reg.isDeclared⟩

/-- The packages in use are not asked for. -/
@[simp] theorem Registry.knowledge_record (reg : Registry) (paths : List Text) :
    (reg.record paths).knowledge = reg.knowledge := rfl

section Readings

variable {reg reg' : Registry}

/-- **Spellings are read by what is known**, whatever else the registry holds. -/
theorem Reading.ofSpelling_of_knowledge (h : reg.knowledge = reg'.knowledge) (unwind : Bool)
    (s : Text) : ofSpelling reg unwind s = ofSpelling reg' unwind s := by
  obtain ⟨hunderlying, hbase, henum, hdeclared⟩ := Knowledge.mk.inj h
  have hname (t : Text) : ofName? reg unwind t = ofName? reg' unwind t := by
    unfold ofName? unionTag? Registry.functionPointee? keepsName ofAlias? ofDeclared?
    have hfunction : reg.namesFunction = reg'.namesFunction := by
      funext name
      rw [Registry.namesFunction, Registry.namesFunction, hunderlying]
    rw [hunderlying, hbase, henum, hdeclared, hfunction]
  unfold ofSpelling
  simp only [hname]

/-- The registry tells how a name is qualified, and nothing else about a reading. -/
theorem Reading.describe_of_qualifying (h : reg.qualifying = reg'.qualifying)
    (part : List Text → Text → Trace Text) (chain : List Text) (r : Reading) :
    r.describe reg part chain = r.describe reg' part chain := by
  cases r with
  | named name =>
    rw [describe, describe, Registry.describeName, Registry.describeName, Registry.qualify,
      Registry.qualify, h]
  | _ => rfl

namespace Registry

/-- **Spellings come out by what is known and how names are qualified.** -/
theorem descend_of_knowledge (h : reg.knowledge = reg'.knowledge)
    (hq : reg.qualifying = reg'.qualifying) (config : Config) (levels : Nat) (chain : List Text)
    (s : Text) : reg.descend config levels chain s = reg'.descend config levels chain s := by
  induction levels generalizing chain s with
  | zero => rfl
  | succ levels ih =>
    have hpart : reg.descend config levels = reg'.descend config levels :=
      funext fun chain => funext fun s => ih chain s
    rw [descend, descend, hpart, Reading.ofSpelling_of_knowledge h,
      Reading.describe_of_qualifying hq]

theorem resolve_of_knowledge (h : reg.knowledge = reg'.knowledge)
    (hq : reg.qualifying = reg'.qualifying) (config : Config) (s : Text) :
    reg.resolve config s = reg'.resolve config s := by
  rw [resolve, trace, descend_of_knowledge h hq]
  rfl

end Registry

end Readings

end CSpelling

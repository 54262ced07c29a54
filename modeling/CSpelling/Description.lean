import CSpelling.Resolve
import CSpelling.Scan

/-!
# Describing sources

The declarations of a source are resolved against everything that the source says about names,
also after the declaration: `Source.describe` scans the whole tree first. `dump` shows the
described declarations, a line each.
-/

namespace CSpelling

open Text

/-- The declaration with the resolution of its type. -/
def Declaration.described (d : Declaration) (r : Resolution) : Described :=
  ⟨d.name, d.kind, d.spelling, r.descriptor, r.message?⟩

/-- The declarations with their types resolved, one after another. -/
def Registry.describeAll (reg : Registry) (config : Config) (ds : List Declaration) :
    List Described :=
  ds.zipWith Declaration.described (reg.resolveAll (ds.map fun d => (d.spelling, config))).1

namespace Source

/-- What a source says about names, for a registry that knew nothing. -/
def registry (src : Source) (root : Node) : Registry :=
  Registry.learnFrom {} (src.findings root)

/-- The declarations of a source with their types resolved, unless the scan gives up. -/
def describe (src : Source) (config : Config) (root : Node) : Option (List Described) :=
  (src.scan root).map ((src.registry root).describeAll config)

end Source

/-- The text of the described declarations: a line each, indented by two spaces. -/
def dump (ds : List Described) : Text :=
  ['\n'].intercalate (ds.map fun d => ' ' :: ' ' :: d.text)

end CSpelling

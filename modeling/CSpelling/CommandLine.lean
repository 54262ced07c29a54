import CSpelling.Arguments
import CSpelling.Description
import CSpelling.Text.Lines

/-!
# The program

The program resolves the spellings given as arguments, after learning the names of a source if one
is given; without spellings it describes the source. `run` says what it prints and how it ends,
given how files are read and how a source is parsed.
-/

namespace CSpelling

open Text

/-- How the program ends. -/
inductive Ending
  /-- It ends with an exit code, after printing some text. -/
  | exit (code : Nat) (output : Text)
  /-- The source file is not there. -/
  | missingFile (name : Text)
  /-- The source holds an array size that cannot be written. -/
  | oversized
  /-- A type was to be resolved after the depth limit was taken away. -/
  | withoutLimit
  deriving DecidableEq, Repr

/-- How the program is called. -/
def usage : Text :=
  unlines
    ["usage: [--source FILE] [--unwind-typedefs] [--max-depth N] [--verbose] [types ...]".toList]

/-- The end after some lines; a failure makes the exit code 1. -/
def Ending.ofLines (failed : Bool) (lines : List Text) : Ending :=
  .exit (if failed then 1 else 0) (unlines lines)

namespace Arguments

/-- How spellings are resolved, if there is a depth limit. -/
def config? (given : Arguments) : Option Config :=
  given.maxDepth.map fun limit => { maxDepth := limit, unwind := given.unwind }

/-- The line for a spelling. -/
def typeLine (s : Text) (r : Resolution) : Text := s ++ " -> ".toList ++ r.text

/-- The lines for the spellings, resolved one after another on a registry. -/
def resolveTypes (given : Arguments) (reg : Registry) : Ending :=
  match given.config? with
  | none => .withoutLimit
  | some config =>
    let resolutions := (reg.resolveAll (given.types.map fun s => (s, config))).1
    Ending.ofLines (resolutions.any (!·.ok)) (given.types.zipWith typeLine resolutions)

/-- The lines for the declarations of a source, which may have none. -/
def describeSource (given : Arguments) (src : Source) (root : Node) : Ending :=
  match src.scan root, given.config? with
  | none, _ => .oversized
  | some [], none => Ending.ofLines false []
  | some _, none => .withoutLimit
  | some declarations, some config =>
    let ds := (src.registry root).describeAll config declarations
    Ending.ofLines (ds.any Described.failed) (ds.map Described.text)

/-- How the program ends with a source at hand. -/
def runSource (given : Arguments) (src : Source) (root : Node) : Ending :=
  if given.types.isEmpty then given.describeSource src root
  else
    match src.scan root with
    | none => .oversized
    | some _ => given.resolveTypes (src.registry root)

/-- How the program ends with accepted arguments. -/
def run (given : Arguments) (read : Text → Option Text) (parse : Text → Node) : Ending :=
  if given.source.isEmpty then
    if given.types.isEmpty then .exit 2 [] else given.resolveTypes {}
  else
    match read given.source with
    | none => .missingFile given.source
    | some content =>
      let text := foldLineEnds content
      given.runSource ⟨given.source, text⟩ (parse text)

end Arguments

/-- How the program ends, given how files are read and how a source is parsed. -/
def run (arguments : List Text) (read : Text → Option Text) (parse : Text → Node) : Ending :=
  match Arguments.parse arguments with
  | .help => .exit 0 usage
  | .refused => .exit 2 []
  | .accepted given => given.run read parse

end CSpelling

import CSpelling.CommandLine

/-!
# The executable

The executable resolves the spellings among its arguments. It holds no parser of C and reads no
source file.
-/

open CSpelling

/-- Runs the program on the arguments and returns its exit code. -/
def main (arguments : List String) : IO UInt32 := do
  let emptyTree : Node := ⟨.other, true, none, ⟨0, 0, ⟨0, 0⟩, ⟨0, 0⟩⟩, []⟩
  match CSpelling.run (arguments.map String.toList) (fun _ => none) (fun _ => emptyTree) with
  | .exit code output =>
    IO.print (String.ofList output)
    return code.toUInt32
  | .missingFile name =>
    IO.eprintln s!"cannot read {String.ofList name}"
    return 1
  | .oversized =>
    IO.eprintln "an array size is too long"
    return 1
  | .withoutLimit =>
    IO.eprintln "there is no depth limit"
    return 1

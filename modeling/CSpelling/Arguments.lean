import CSpelling.Numeral

/-!
# Command-line arguments

An argument is an operand or an option. Options have a long name, which may be shortened as long
as it is unambiguous, and some a letter; letters may be joined behind one dash, also behind an
equals sign after the first. The value of an option follows it in the same argument or in the next
one, which must be an operand. The argument `--` makes operands of all that follow, and the value
`--` takes the value of its option away.

`Item.ofArgument` reads a single argument, `Item.ofArguments` all of them, and `Arguments.parse`
puts them together. Operands are accepted in one row only.
-/

namespace CSpelling

open Text

/-! ## Options -/

/-- The options of the program. -/
inductive Flag
  /-- Show the usage. -/
  | help
  /-- Read the names of this source first. -/
  | source
  /-- Read typedefs as what they stand for. -/
  | unwind
  /-- The number of levels that types may be nested. -/
  | maxDepth
  /-- Report every step. -/
  | verbose
  deriving DecidableEq, Repr

namespace Flag

/-- The long names, without their dashes. -/
def names : List (Text × Flag) :=
  [("help".toList, help), ("source".toList, source), ("unwind-typedefs".toList, unwind),
   ("max-depth".toList, maxDepth), ("verbose".toList, verbose)]

/-- The letters. -/
def letters : List (Char × Flag) := [('h', help), ('s', source), ('v', verbose)]

/-- The option needs a value. -/
def takesValue : Flag → Bool
  | source => true
  | maxDepth => true
  | _ => false

end Flag

/-! ## Single arguments -/

/-- The argument that ends the options, and the value that takes a value away. -/
def dashes : Text := ['-', '-']

/-- An option as it is given. -/
structure Setting where
  /-- The option. -/
  flag : Flag
  /-- The value in the same argument, if there is one. -/
  value : Option Text
  deriving DecidableEq, Repr

/-- What an argument is. -/
inductive Item
  /-- No option. -/
  | operand (s : Text)
  /-- The argument after which there are no more options. -/
  | divider
  /-- One or more options. -/
  | settings (given : List Setting)
  /-- The name of no option. -/
  | unknown
  /-- An option that takes no value, with a value; further letters count as its value if one of
  them is that of no option. -/
  | unwantedValue
  /-- A shortened name that may stand for several options. -/
  | ambiguous
  deriving DecidableEq, Repr

namespace Item

/-- One more option in front of an item. -/
def consSetting (s : Setting) : Item → Item
  | settings given => settings (s :: given)
  | item => item

/-- An option with a value in the same argument or without. -/
def ofFlag (flag : Flag) (value : Option Text) : Item :=
  if value.isSome && !flag.takesValue then unwantedValue else settings [⟨flag, value⟩]

/-- The option of a letter, and what follows the letter in the same argument: nothing, its value,
or further letters. -/
def ofLetter (flag : Flag) : Text → Item
  | [] => settings [⟨flag, none⟩]
  | c :: tail =>
    if flag.takesValue then settings [⟨flag, some (c :: tail)⟩]
    else
      match Flag.letters.lookup c with
      | some next => consSetting ⟨flag, none⟩ (ofLetter next tail)
      | none => unwantedValue

/-- The option of the first letter of an argument: an equals sign may stand between the letter and
what follows it, and marks an empty value if nothing does. -/
def ofFirstLetter (flag : Flag) : Text → Item
  | ['='] => ofFlag flag (some [])
  | '=' :: attached => ofLetter flag attached
  | attached => ofLetter flag attached

/-- The name before the first equals sign and the value behind it. -/
def splitValue (s : Text) : Text × Option Text :=
  match cut ['='] s with
  | some (name, value) => (name, some value)
  | none => (s, none)

/-- The text is a negative number, whole or with a decimal point; a line end may follow it. -/
def isNegativeNumber (s : Text) : Bool :=
  match s with
  | '-' :: digits =>
    let body := (dropEnd? ['\n'] digits).getD digits
    match cut ['.'] body with
    | none => !body.isEmpty && body.all isDecimal
    | some (whole, fraction) =>
      whole.all isDecimal && !fraction.isEmpty && fraction.all isDecimal
  | _ => false

/-- An argument that begins with a dash but names no option: a negative number and a text with a
space are operands. -/
def ofUnknown (s : Text) : Item :=
  if isNegativeNumber s || s.contains ' ' then operand s else unknown

/-- The option whose long name, or the beginning of whose long name, follows two dashes. -/
def ofLongName (s name : Text) : Item :=
  let (start, value) := splitValue name
  match Flag.names.lookup start with
  | some flag => ofFlag flag value
  | none =>
    match Flag.names.filter fun entry => start.isPrefixOf entry.1 with
    | [] => ofUnknown s
    | [(_, flag)] => ofFlag flag value
    | _ => ambiguous

/-- What a single argument other than `--` is. -/
def ofArgument (s : Text) : Item :=
  match s with
  | '-' :: '-' :: name => ofLongName s name
  | '-' :: c :: tail =>
    match Flag.letters.lookup c with
    | some flag => ofFirstLetter flag tail
    | none => ofUnknown s
  | _ => operand s

/-- What the arguments are; all that follow `--` are operands. -/
def ofArguments : List Text → List Item
  | [] => []
  | s :: rest =>
    if s = dashes then divider :: rest.map operand else ofArgument s :: ofArguments rest

end Item

/-! ## All arguments -/

/-- What the arguments ask for. -/
structure Arguments where
  /-- The spellings to resolve. -/
  types : List Text := []
  /-- The name of a source file, empty for none. -/
  source : Text := []
  /-- Read typedefs as what they stand for. -/
  unwind : Bool := false
  /-- The number of levels that types may be nested, unless it was taken away. -/
  maxDepth : Option Int := some 64
  /-- Report every step. -/
  verbose : Bool := false
  deriving DecidableEq, Repr

namespace Arguments

/-- What becomes of the arguments. -/
inductive Outcome
  /-- The usage is asked for. -/
  | help
  /-- The arguments are wrong. -/
  | refused
  /-- The arguments are understood. -/
  | accepted (given : Arguments)
  deriving DecidableEq, Repr

/-- The row of operands that is accepted. -/
inductive Row
  /-- There were no operands yet. -/
  | ahead
  /-- The last argument was an operand of the row. -/
  | running
  /-- An option has ended the row. -/
  | ended
  deriving DecidableEq, Repr

/-- The row after an option. -/
def Row.afterOption : Row → Row
  | ahead => ahead
  | _ => ended

/-- The arguments after an option. There are none if its value is no number where one is
needed. -/
def set (given : Arguments) (flag : Flag) (value : Text) : Option Arguments :=
  match flag with
  | .help => some given
  | .source => some { given with source := if value = dashes then [] else value }
  | .unwind => some { given with unwind := true }
  | .maxDepth =>
    if value = dashes then some { given with maxDepth := none }
    else (readInt? value).map fun n => { given with maxDepth := some n }
  | .verbose => some { given with verbose := true }

/-- What one more step makes of the arguments. -/
inductive Step
  /-- The usage is asked for. -/
  | help
  /-- The arguments are wrong. -/
  | refused
  /-- The arguments so far. -/
  | next (given : Arguments)
  deriving DecidableEq, Repr

/-- The arguments after some options, the last of which takes `value` if it has none of its own. -/
def setAll (value : Option Text) : List Setting → Arguments → Step
  | [], given => .next given
  | s :: rest, given =>
    if s.flag = .help then .help
    else
      match given.set s.flag ((s.value.or value).getD []) with
      | none => .refused
      | some after => setAll value rest after

/-- The last of some options needs a value and has none of its own. -/
def needsValue (settings : List Setting) : Bool :=
  settings.getLast?.any fun s => s.flag.takesValue && s.value.isNone

/-- What becomes of the remaining items; `stray` holds if some argument has no place. -/
def gather : Row → Bool → Arguments → List Item → Outcome
  | _, stray, given, [] => if stray then .refused else .accepted given
  | row, stray, given, .operand s :: rest =>
    if row = .ended then gather row true given rest
    else gather .running stray { given with types := given.types ++ [s] } rest
  | row, stray, given, .divider :: rest =>
    if row = .ended then gather row true given rest else gather .running stray given rest
  | row, _, given, .unknown :: rest => gather row.afterOption true given rest
  | row, stray, given, .settings settings :: rest =>
    if needsValue settings then
      match rest with
      | .operand value :: after =>
        match setAll (some value) settings given with
        | .help => .help
        | .refused => .refused
        | .next updated => gather row.afterOption stray updated after
      | _ => .refused
    else
      match setAll none settings given with
      | .help => .help
      | .refused => .refused
      | .next updated => gather row.afterOption stray updated rest
  | _, _, _, .unwantedValue :: _ => .refused
  | _, _, _, .ambiguous :: _ => .refused

/-- What becomes of the arguments of the program. A name that may stand for several options is
refused before any option takes effect. -/
def parse (arguments : List Text) : Outcome :=
  let items := Item.ofArguments arguments
  if items.contains .ambiguous then .refused else gather .ahead false {} items

end Arguments

end CSpelling

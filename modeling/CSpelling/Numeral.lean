import CSpelling.Text.Blank
import CSpelling.Text.Digit

/-!
# Numerals

Numbers are written in ASCII decimal digits and read in the decimal digits of any script. A decimal
numeral has at most `maxDigits` digits, leading zeros included: a longer one is neither read
(`decimalNumber?`) nor written (`numeral?`).

`IntegerLiteral` is an integer constant of C without its suffix, in one of three radices, and
`readInt?` reads a signed number as a user types it.
-/

namespace CSpelling

open Text

/-- The greatest number of digits of a decimal numeral. -/
def maxDigits : Nat := 4300

/-- The decimal numeral of a number. -/
def natText (n : Nat) : Text := Nat.toDigits 10 n

/-- The decimal numeral of an integer, with a minus sign below zero. -/
def intText : Int → Text
  | .ofNat n => natText n
  | .negSucc n => '-' :: natText (n + 1)

/-- The decimal numeral of a number, unless it is too long. -/
def numeral? (n : Nat) : Option Text :=
  let digits := natText n
  if digits.length ≤ maxDigits then some digits else none

/-- The number that a row of decimal digits writes, unless the row is too long. -/
def decimalNumber? (digits : Text) : Option Nat :=
  if digits.length ≤ maxDigits then some (decimalValue digits) else none

/-! ## Integer constants -/

/-- The radix of an integer constant. -/
inductive Radix
  /-- After `0x` or `0X`. -/
  | hexadecimal
  /-- After `0`. -/
  | octal
  /-- Without a mark. -/
  | decimal
  deriving DecidableEq, Repr

/-- The number of digits that a radix has. -/
def Radix.base : Radix → Nat
  | .hexadecimal => 16
  | .octal => 8
  | .decimal => 10

/-- The value of an ASCII character as a digit up to `f`; other characters have none. -/
def asciiDigit? (c : Char) : Option Nat :=
  if '0' ≤ c ∧ c ≤ '9' then some (c.toNat - '0'.toNat)
  else if 'a' ≤ c ∧ c ≤ 'f' then some (c.toNat - 'a'.toNat + 10)
  else if 'A' ≤ c ∧ c ≤ 'F' then some (c.toNat - 'A'.toNat + 10)
  else none

/-- The character is an ASCII digit of the radix. -/
def Radix.isDigit (radix : Radix) (c : Char) : Bool := (asciiDigit? c).any (· < radix.base)

/-- An integer constant without its suffix. -/
structure IntegerLiteral where
  /-- The radix. -/
  radix : Radix
  /-- The digits after the mark of the radix. -/
  digits : Text
  deriving DecidableEq, Repr

namespace IntegerLiteral

/-- The digits form a non-empty row in the radix. -/
def wellFormed (literal : IntegerLiteral) : Bool :=
  !literal.digits.isEmpty && literal.digits.all literal.radix.isDigit

/-- The constant that a text spells: hexadecimal after `0x`, octal after `0`, else decimal. A row
of digits after `0` that is not octal is decimal. -/
def ofText? (s : Text) : Option IntegerLiteral :=
  let candidates : List IntegerLiteral :=
    match s with
    | '0' :: 'x' :: digits => [⟨.hexadecimal, digits⟩]
    | '0' :: 'X' :: digits => [⟨.hexadecimal, digits⟩]
    | '0' :: digits => [⟨.octal, digits⟩, ⟨.decimal, s⟩]
    | _ => [⟨.decimal, s⟩]
  candidates.find? wellFormed

/-- The value of the constant. -/
def value (literal : IntegerLiteral) : Nat :=
  literal.digits.foldl (fun n c => literal.radix.base * n + (asciiDigit? c).getD 0) 0

/-- The number that the constant stands for, unless it is a decimal numeral that is too long. -/
def number? (literal : IntegerLiteral) : Option Nat :=
  if literal.radix = .decimal ∧ maxDigits < literal.digits.length then none
  else some literal.value

end IntegerLiteral

/-! ## Signed numbers as typed -/

/-- The character may stand around a number: white space other than the information separators. -/
def isMargin (c : Char) : Bool := isBlank c && !(0x1C ≤ c.toNat && c.toNat ≤ 0x1F)

/-- The digits of a row that may hold single underscores, each between two digits. -/
def groupedDigits? (s : Text) : Option Text :=
  let groups := s.splitOnP (· = '_')
  if groups.all (fun g => !g.isEmpty && g.all isDecimal) then some groups.flatten else none

/-- The integer that a text writes: white space around it, at most one sign, and decimal digits
with single underscores between them. -/
def readInt? (s : Text) : Option Int :=
  let body := dropEndWhile isMargin (s.dropWhile isMargin)
  let magnitude (digits : Text) : Option Nat := (groupedDigits? digits).bind decimalNumber?
  match body with
  | '-' :: digits => (magnitude digits).map fun n => -(n : Int)
  | '+' :: digits => (magnitude digits).map fun n => (n : Int)
  | digits => (magnitude digits).map fun n => (n : Int)

end CSpelling

import CSpelling.Text.Basic

/-!
# White space

`isBlank` is the class of white space: the characters with the Unicode property `White_Space` and
the four information separators. `strip` removes it at both ends of a text, and `words` lists the
runs between it.
-/

namespace CSpelling.Text

/-- The code points of white space. -/
def blanks : List Nat :=
  [0x09, 0x0A, 0x0B, 0x0C, 0x0D, 0x1C, 0x1D, 0x1E, 0x1F, 0x20, 0x85, 0xA0, 0x1680,
   0x2000, 0x2001, 0x2002, 0x2003, 0x2004, 0x2005, 0x2006, 0x2007, 0x2008, 0x2009, 0x200A,
   0x2028, 0x2029, 0x202F, 0x205F, 0x3000]

/-- The character is white space. -/
def isBlank (c : Char) : Bool := blanks.contains c.toNat

theorem isBlank_space : isBlank ' ' = true := by decide

/-- The text without white space at its two ends. -/
def strip (s : Text) : Text := dropEndWhile isBlank (s.dropWhile isBlank)

/-- The maximal runs of characters that are not white space, in order. -/
def words (s : Text) : List Text := (s.splitOnP isBlank).filter (· ≠ [])

end CSpelling.Text

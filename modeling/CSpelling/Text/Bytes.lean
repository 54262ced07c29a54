import CSpelling.Text.Basic

/-!
# Bytes

Places in a source count the bytes of its text in UTF-8. `byteSlice` cuts out what stands between
two such places, which lie between characters.
-/

namespace CSpelling.Text

/-- The text without its first `n` bytes. -/
def dropBytes : Nat → Text → Text
  | _, [] => []
  | n, c :: rest => if n = 0 then c :: rest else dropBytes (n - c.utf8Size) rest

/-- The first `n` bytes of the text. -/
def takeBytes : Nat → Text → Text
  | _, [] => []
  | n, c :: rest => if n = 0 then [] else c :: takeBytes (n - c.utf8Size) rest

/-- The text from one byte up to another. -/
def byteSlice (start stop : Nat) (s : Text) : Text :=
  takeBytes (stop - start) (dropBytes start s)

end CSpelling.Text

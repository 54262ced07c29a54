import CSpelling.Text.Basic

/-!
# Lines

`foldLineEnds` gives a text one kind of line end, and `unlines` writes lines one below the other.
-/

namespace CSpelling.Text

/-- The text with a line feed for each line end, be it a carriage return with or without a line
feed or a line feed alone. -/
def foldLineEnds : Text → Text
  | [] => []
  | '\r' :: '\n' :: rest => '\n' :: foldLineEnds rest
  | c :: rest => (if c = '\r' then '\n' else c) :: foldLineEnds rest

/-- The lines one below the other, each with its line feed. -/
def unlines (lines : List Text) : Text := lines.flatMap fun line => line ++ ['\n']

end CSpelling.Text

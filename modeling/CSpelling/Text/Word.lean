import CSpelling.Text.Alphanumeric
import CSpelling.Text.Blank

/-!
# Words and tokens

A word character is a letter, a numeral or an underscore. `chunks` cuts a text into its maximal
runs of word characters and its other characters, one by one, and loses nothing
(`flatten_chunks`); `tokens` keeps the chunks that are not white space.
-/

namespace CSpelling.Text

/-- The character is a letter, a numeral or an underscore. -/
def isWordChar (c : Char) : Bool := c.isAlphanum || c = '_' || isAlphanumeric c

/-- The text begins with a word character. -/
def startsWord (s : Text) : Bool := s.head?.any isWordChar

/-- The chunks of a text with one more character in front. -/
def consChunk (c : Char) : List Text → List Text
  | [] => [[c]]
  | w :: rest => if isWordChar c && startsWord w then (c :: w) :: rest else [c] :: w :: rest

/-- The maximal runs of word characters and the other single characters, in order. -/
def chunks : Text → List Text
  | [] => []
  | c :: rest => consChunk c (chunks rest)

/-- The maximal runs of word characters and the other single characters, without white space. -/
def tokens (s : Text) : List Text := (chunks s).filter fun w => !w.all isBlank

@[simp] theorem flatten_consChunk (c : Char) (ws : List Text) :
    (consChunk c ws).flatten = c :: ws.flatten := by
  cases ws with
  | nil => rfl
  | cons w rest => simp only [consChunk]; split <;> simp

/-- Cutting into chunks loses no character. -/
@[simp] theorem flatten_chunks (s : Text) : (chunks s).flatten = s := by
  induction s with
  | nil => rfl
  | cons c rest ih => simp [chunks, ih]

end CSpelling.Text

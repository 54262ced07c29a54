import CSpelling.Text.Word
import CSpelling.Vocabulary

/-!
# Normal spellings

One type has many spellings: blanks may stand between any two tokens, and qualifiers do not change
the representation. `normalize` picks one of them. It repeats one pass, `once`, until the spelling
no longer changes.

The steps of a pass, in order:

* `joinStars` deletes the space in `* *`, `spaceStars` puts a space before every star, and
  `dropQualifiers` removes the qualifier words;
* `dropControls` deletes tabs and line ends, and `closeStars` the white space between two stars;
* `spaceBrackets` puts a space before every `[`, `squeeze` leaves one space of each run, and
  `joinGroups` removes the space between `]` and `[`;
* `closeMarkers` deletes the white space inside `( * )`, and `strip` that at both ends.

The space that `joinStars` deletes stands between two stars, where `closeStars` would delete it
later.
-/

namespace CSpelling

open Text

namespace Normal

/-! ## The steps of a pass -/

/-- The text with `**` for every `* *`. -/
def joinStars (s : Text) : Text := replace ['*', ' ', '*'] ['*', '*'] s

/-- The text with a space before every star. -/
def spaceStars (s : Text) : Text := s.flatMap fun c => if c = '*' then [' ', '*'] else [c]

/-- The text without the words that are qualifiers. -/
def dropQualifiers (s : Text) : Text :=
  ((chunks s).filter fun w => !qualifiers.contains w).flatten

/-- The character is a tab, a line feed or a carriage return. -/
def isControl (c : Char) : Bool := c = '\t' || c = '\n' || c = '\r'

/-- The text without tabs, line feeds and carriage returns. -/
def dropControls (s : Text) : Text := s.filter fun c => !isControl c

/-- The text without the white space that stands between two stars. -/
def closeStars : Text → Text
  | [] => []
  | c :: rest =>
    let closed := closeStars rest
    match closed.dropWhile isBlank with
    | '*' :: after => if c = '*' then '*' :: '*' :: after else c :: closed
    | _ => c :: closed

/-- The text with a space before every opening bracket. -/
def spaceBrackets (s : Text) : Text := s.flatMap fun c => if c = '[' then [' ', '['] else [c]

/-- The text with one space for every run of spaces. -/
def squeeze : Text → Text
  | [] => []
  | c :: rest =>
    let squeezed := squeeze rest
    if c = ' ' && squeezed.head? = some ' ' then squeezed else c :: squeezed

/-- The text without the space in every `] [`. -/
def joinGroups : Text → Text
  | [] => []
  | c :: rest =>
    match joinGroups rest with
    | ' ' :: '[' :: after => if c = ']' then ']' :: '[' :: after else c :: ' ' :: '[' :: after
    | joined => c :: joined

/-- What follows a star and a closing parenthesis at the beginning of a text, if nothing but white
space stands before and between them. -/
def afterMarker? (s : Text) : Option Text :=
  match s.dropWhile isBlank with
  | '*' :: rest =>
    match rest.dropWhile isBlank with
    | ')' :: after => some after
    | _ => none
  | _ => none

/-- The text without the white space inside the parentheses of every function-pointer marker. -/
def closeMarkers : Text → Text
  | [] => []
  | c :: rest =>
    let closed := closeMarkers rest
    match afterMarker? closed with
    | some after => if c = '(' then '(' :: '*' :: ')' :: after else c :: closed
    | none => c :: closed

/-- One pass of the normalisation. -/
def once (s : Text) : Text :=
  strip (closeMarkers (joinGroups (squeeze (spaceBrackets (closeStars (dropControls
    (dropQualifiers (spaceStars (joinStars s)))))))))

/-! ## Passes until nothing changes -/

/-- Passes until the spelling no longer changes, at most `fuel` of them. -/
def settle : Nat → Text → Text
  | 0, s => s
  | fuel + 1, s => if once s = s then s else settle fuel (once s)

end Normal

/-- The normal spelling of a type: no qualifiers, no control characters, one space before each run
of stars and each row of brackets, and `(*)` without blanks. -/
def normalize (s : Text) : Text := Normal.settle (s.length + 2) s

end CSpelling

/-!
# Texts

A text is a list of characters. This module holds the operations on texts that do not depend on
what the characters mean.

* `dropStart?` and `dropEnd?` remove a given beginning or end.
* `cut` splits at the first occurrence of a text, `cutLast` at the last occurrence of a character.
* `replace` exchanges every occurrence, from the left and without overlap; `removeFirst` removes
  one.
* `dropEndWhile` drops characters from the end.
-/

namespace CSpelling

/-- A sequence of characters. -/
abbrev Text := List Char

namespace Text

/-! ## Beginning and end -/

/-- What follows `start`, if the text begins with it. -/
def dropStart? (start s : Text) : Option Text :=
  if start.isPrefixOf s then some (s.drop start.length) else none

/-- What precedes `finish`, if the text ends with it. -/
def dropEnd? (finish s : Text) : Option Text :=
  if finish.isSuffixOf s then some (s.take (s.length - finish.length)) else none

theorem dropStart?_eq_some_iff {start s rest : Text} :
    dropStart? start s = some rest ↔ s = start ++ rest := by
  unfold dropStart?
  constructor
  · intro h
    split at h
    · next hp =>
      obtain ⟨t, rfl⟩ := List.isPrefixOf_iff_prefix.1 hp
      simpa [eq_comm] using h
    · simp at h
  · rintro rfl
    simp

theorem dropEnd?_eq_some_iff {finish s before : Text} :
    dropEnd? finish s = some before ↔ s = before ++ finish := by
  unfold dropEnd?
  constructor
  · intro h
    split at h
    · next hp =>
      obtain ⟨t, rfl⟩ := List.isSuffixOf_iff_suffix.1 hp
      simpa [eq_comm] using h
    · simp at h
  · rintro rfl
    simp

/-- The text without the longest run of characters in `p` at its end. -/
def dropEndWhile (p : Char → Bool) (s : Text) : Text :=
  (s.reverse.dropWhile p).reverse

/-- The text without its first and its last character. -/
def interior (s : Text) : Text := (s.drop 1).dropLast

/-! ## Occurrences -/

/-- What stands before and after the first occurrence of the non-empty text `part`. -/
def cut (part : Text) : Text → Option (Text × Text)
  | [] => none
  | c :: rest =>
    match dropStart? part (c :: rest) with
    | some after => some ([], after)
    | none => (cut part rest).map fun halves => (c :: halves.1, halves.2)

/-- Cutting loses nothing but the part that was looked for. -/
theorem eq_of_cut {part s before after : Text} (h : cut part s = some (before, after)) :
    s = before ++ part ++ after := by
  induction s generalizing before with
  | nil => simp [cut] at h
  | cons c rest ih =>
    unfold cut at h
    split at h
    · next found =>
      obtain ⟨rfl, rfl⟩ := by simpa using h
      simpa using dropStart?_eq_some_iff.1 found
    · obtain ⟨⟨front, back⟩, hcut, heq⟩ := Option.map_eq_some_iff.1 h
      obtain ⟨rfl, rfl⟩ := by simpa using heq
      simp [ih hcut]

/-- The non-empty text `part` stands somewhere in the text. -/
def occurs (part s : Text) : Bool := (cut part s).isSome

/-- What stands before and after the last occurrence of the character `c`. -/
def cutLast (c : Char) : Text → Option (Text × Text)
  | [] => none
  | d :: rest =>
    match cutLast c rest with
    | some (before, after) => some (d :: before, after)
    | none => if d = c then some ([], rest) else none

theorem cutLast_eq_none_iff {c : Char} {s : Text} : cutLast c s = none ↔ c ∉ s := by
  induction s with
  | nil => simp [cutLast]
  | cons d rest ih =>
    cases hr : cutLast c rest with
    | none => simp [cutLast, hr, ih.1 hr, eq_comm]
    | some halves =>
      have hin : c ∈ rest := Decidable.byContradiction fun hnot => by
        simp [ih.2 hnot] at hr
      simp [cutLast, hr, hin]

/-- The character stands no more behind its last occurrence. -/
theorem eq_of_cutLast {c : Char} {s before after : Text}
    (h : cutLast c s = some (before, after)) : s = before ++ c :: after ∧ c ∉ after := by
  induction s generalizing before with
  | nil => simp [cutLast] at h
  | cons d rest ih =>
    cases hr : cutLast c rest with
    | none =>
      have hnot : c ∉ rest := cutLast_eq_none_iff.1 hr
      simp only [cutLast, hr] at h
      split at h
      · next heq =>
        obtain ⟨rfl, rfl⟩ := by simpa using h
        exact ⟨by simp [heq], hnot⟩
      · simp at h
    | some halves =>
      simp only [cutLast, hr] at h
      obtain ⟨rfl, rfl⟩ := by simpa using h
      obtain ⟨heq, hnot⟩ := ih hr
      exact ⟨by simp [← heq], hnot⟩

/-- The text without the first occurrence of `part`. -/
def removeFirst (part s : Text) : Text :=
  match cut part s with
  | some (before, after) => before ++ after
  | none => s

/-- `replace` in the middle of an occurrence, `skip` characters of which are still to be passed. -/
def replaceAfter (old new : Text) : Nat → Text → Text
  | _, [] => []
  | skip + 1, _ :: rest => replaceAfter old new skip rest
  | 0, c :: rest =>
    if old.isPrefixOf (c :: rest) then new ++ replaceAfter old new (old.length - 1) rest
    else c :: replaceAfter old new 0 rest

/-- The text with `new` for every occurrence of the non-empty text `old`; occurrences are taken
from the left and do not overlap. -/
def replace (old new s : Text) : Text := replaceAfter old new 0 s

end Text

end CSpelling

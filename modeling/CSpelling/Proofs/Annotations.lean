import CSpelling.Anonymous
import CSpelling.Proofs.Words

/-!
# Annotations of names without a tag

A name without a tag holds an annotation `(anonymous …)`. `sanitize` takes the marking word out,
legalises from the place of the parenthesis up to the first closing one (`sanitize_annotated`),
and makes of the rest the name itself (`settleName`). If no marking word stands in front of the
annotation, the parenthesis is still in its place (`removeFirst_annotated`).
-/

namespace CSpelling

open Text

variable {s : Text}

/-! ## Legal characters -/

/-- The character if it is legal in an identifier, else an underscore. -/
def legal (c : Char) : Char := if isIllegal c then '_' else c

/-- The text up to the first closing parenthesis is legalised, and no more. -/
theorem legalise_append (h : ')' ∉ s) (t : Text) :
    legalise (s ++ ')' :: t) = s.map legal ++ '_' :: t := by
  have hall : ∀ d ∈ s, decide (d ≠ ')') = true := fun d hd =>
    decide_eq_true (ne_of_mem_of_not_mem hd h)
  rw [legalise, List.takeWhile_append_of_pos hall, List.dropWhile_append_of_pos hall]
  simp [legal, isIllegal]

/-- What is in parentheses is legalised as a whole. -/
theorem legalise_parenthesized (h : ')' ∉ s) :
    legalise ('(' :: (s ++ [')'])) = '_' :: (s.map legal ++ ['_']) :=
  legalise_append (s := '(' :: s) (by simpa using h) []

/-- The text with a letter for every colon. -/
def lettered (s : Text) : Text := s.map fun c => if c = ':' then 'D' else c

theorem lettered_append (s t : Text) : lettered (s ++ t) = lettered s ++ lettered t :=
  List.map_append

theorem lettered_of_not_mem (h : ':' ∉ s) : lettered s = s := by
  conv_rhs => rw [← List.map_id s]
  exact List.map_congr_left fun c hc => if_neg (ne_of_mem_of_not_mem hc h)

theorem not_mem_lettered (s : Text) : ':' ∉ lettered s := by
  intro h
  obtain ⟨c, -, hc⟩ := List.mem_map.1 h
  split_ifs at hc with hcolon
  · cases hc
  · exact hcolon hc

/-! ## Sanitizing -/

/-- What is made of a name whose annotation is legalised. -/
def settleName (s : Text) : Text :=
  let spelling := normalize (lettered s)
  (afterKeyword? [structKeyword, unionKeyword, enumKeyword] spelling).getD spelling

/-- A name with an annotation is legalised from where the annotation began. -/
theorem sanitize_annotated (hs : '(' ∉ s) (t : Text) :
    let unmarked := removeFirst anonymousWord (s ++ '(' :: (anonymousWord ++ t))
    sanitize (s ++ '(' :: (anonymousWord ++ t)) =
      settleName (unmarked.take s.length ++ legalise (unmarked.drop s.length)) := by
  have hcut : cut ('(' :: anonymousWord) (s ++ '(' :: (anonymousWord ++ t)) = some (s, t) := by
    have hfirst : ¬('(' :: anonymousWord) <:+: [] ++ ('(' :: anonymousWord).dropLast := by decide
    have hhere : cut ('(' :: anonymousWord) ('(' :: (anonymousWord ++ t)) = some ([], t) :=
      cut_append (by decide) hfirst t
    rw [cut_append_of_not_mem hs, hhere]
    simp
  have hoccurs : occurs anonymousWord (s ++ '(' :: (anonymousWord ++ t)) = true :=
    (occurs_iff (by decide)).2 ⟨s ++ ['('], t, by simp⟩
  rw [sanitize, hoccurs, hcut]
  rfl

/-- If the word of the annotation is the first one, it is the one that goes. -/
theorem removeFirst_annotated (hs : ¬anonymousWord <:+: s) (t : Text) :
    removeFirst anonymousWord (s ++ '(' :: (anonymousWord ++ t)) = s ++ '(' :: t := by
  have hfirst : ¬anonymousWord <:+: (s ++ ['(']) ++ anonymousWord.dropLast := by
    rw [List.append_assoc]
    exact not_infix_append_cons (by decide) hs (by decide)
  have hcut : cut anonymousWord (s ++ '(' :: (anonymousWord ++ t)) = some (s ++ ['('], t) := by
    simpa using cut_append (by decide) hfirst t
  rw [removeFirst, hcut]
  simp

/-- If no marking word stands in front, the annotation is what is legalised. -/
theorem sanitize_of_not_infix (hs : '(' ∉ s) (hfirst : ¬anonymousWord <:+: s) (t : Text) :
    sanitize (s ++ '(' :: (anonymousWord ++ t)) = settleName (s ++ legalise ('(' :: t)) := by
  rw [sanitize_annotated hs, removeFirst_annotated hfirst, List.take_left, List.drop_left]

/-- The keyword of the kind, if there is one, with its space. -/
def kindText (kind : Option Aggregate) : Text := kind.elim [] fun a => a.keyword ++ [' ']

/-- A word that is no qualifier is the name that is made of it, with or without a keyword in
front. -/
theorem settleName_word (kind : Option Aggregate) {w : Text} (hw : IsWord w) (hq : w ∉ qualifiers)
    (hs : lettered s = kindText kind ++ w) : settleName s = w := by
  have hspace : ∀ keyword ∈ [structKeyword, unionKeyword, enumKeyword], ' ' ∈ keyword := by decide
  rw [settleName, hs]
  cases kind with
  | none =>
    have hnone : afterKeyword? [structKeyword, unionKeyword, enumKeyword] w = none := by
      refine List.findSome?_eq_none_iff.2 fun keyword hkeyword => ?_
      by_contra hsome
      obtain ⟨rest, hrest⟩ := Option.ne_none_iff_exists'.1 hsome
      have hmem : ' ' ∈ w := by
        rw [dropStart?_eq_some_iff.1 hrest]
        exact List.mem_append_left rest (hspace keyword hkeyword)
      exact hw.not_mem (by decide) hmem
    rw [kindText, Option.elim_none, List.nil_append, Normal.normalize_of_isNormal (hw.isNormal hq),
      hnone]
    rfl
  | some a =>
    have hkeyword : IsWord a.keyword ∧ a.keyword ∉ qualifiers := by cases a <;> decide
    have hafter : afterKeyword? [structKeyword, unionKeyword, enumKeyword]
        (a.keyword ++ ' ' :: w) = some w := by cases a <;> rfl
    have hsplit : kindText (some a) ++ w = a.keyword ++ ' ' :: w := by simp [kindText]
    rw [hsplit, Normal.normalize_of_isNormal (hkeyword.1.isNormal_append hkeyword.2 hw hq), hafter]
    rfl

end CSpelling

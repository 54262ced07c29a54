import CSpelling.Proofs.Descent
import CSpelling.Proofs.Joining
import CSpelling.Proofs.Pointers

/-!
# Pointers and arrays of a base type

A base type may have stars behind it, and sizes in brackets behind these. Resolving such a spelling
takes off all sizes at once, then one star after the other, down to the base type; each size and
each star leaves a slice.

* `starred` and `sized` write the spellings. They are normal if the base type is
  (`isNormal_starred`, `isNormal_sized`).
* `ofSpelling_starred` and `ofSpelling_sized` say how they are read.
* `resolve_sized_starred` gives the descriptor: `pointerDescriptor` behind one slice for each size.
-/

namespace CSpelling.Decorations

open Text CSpelling.Normal

/-! ## Spellings -/

/-- A base type with stars behind it. -/
def starred (base : Text) : Nat → Text
  | 0 => base
  | k + 1 => base ++ ' ' :: List.replicate (k + 1) '*'

/-- A size in brackets. -/
def bracketed (size : Text) : Text := '[' :: (size ++ [']'])

/-- A type with sizes behind it. -/
def sized (s : Text) : List Text → Text
  | [] => s
  | size :: rest => s ++ ' ' :: (size :: rest).flatMap bracketed

/-- The descriptor of a base type behind stars, where the base type itself has the descriptor
`d`. -/
def pointerDescriptor (reg : Registry) (base d : Text) : Nat → Text
  | 0 => d
  | k + 1 =>
    if base = "void".toList then slices k ++ anyType
    else if base ≠ "char".toList ∧ reg.namesFunction base then slices k ++ base
    else if Pointee.ofDescriptor d = .opaqueHandle then slices k ++ '*' :: d
    else slices (k + 1) ++ d

/-- A base type: a normal spelling of words, in which nothing else is looked for. -/
structure IsBase (base : Text) : Prop where
  /-- There is something. -/
  ne_nil : base ≠ []
  /-- There are words and spaces. -/
  chars : ∀ c ∈ base, isWordChar c = true ∨ c = ' '
  /-- The spelling is normal. -/
  normal : normalize base = base
  /-- The texts of system headers do not occur. -/
  free : FreeOf base

/-- Sizes in ASCII digits. -/
def AreSizes (sizes : List Text) : Prop := ∀ size ∈ sizes, size ≠ [] ∧ ∀ c ∈ size, c.isDigit = true

instance (sizes : List Text) : Decidable (AreSizes sizes) :=
  inferInstanceAs (Decidable (∀ size ∈ sizes, size ≠ [] ∧ ∀ c ∈ size, c.isDigit = true))

variable {base s : Text} {sizes : List Text}

namespace IsBase

variable (h : IsBase base)

include h

theorem isNormal : IsNormal base := isNormal_of_normalize h.normal

/-- Base types hold no punctuation. -/
theorem not_mem {c : Char} (hc : isWordChar c = false) (hspace : c ≠ ' ') : c ∉ base := by
  intro hmem
  rcases h.chars c hmem with hword | rfl
  · simp [hc] at hword
  · exact hspace rfl

theorem getLast?_ne {c : Char} (hc : isWordChar c = false) (hspace : c ≠ ' ') :
    base.getLast? ≠ some c := fun hlast => h.not_mem hc hspace (List.mem_of_getLast? hlast)

end IsBase

/-! ## Normal spellings -/

theorem along_placed_stars (k : Nat) : Along Placed (List.replicate k '*') := by
  induction k with
  | zero => trivial
  | succ k ih =>
    refine ⟨⟨?_, ?_, ?_, ?_, ?_, ?_⟩, ih⟩
    · exact fun _ => .inl rfl
    · intro _ hstar
      cases k with
      | zero => simp at hstar
      | succ k => rfl
    · intro hbracket
      cases k <;> simp [List.replicate_succ] at hbracket
    · exact fun hc => absurd hc (by decide)
    · exact fun hc => absurd hc (by decide)
    · exact fun hc => absurd hc (by decide)

/-- What holds of a space and of a star holds all along the stars behind a base type. -/
theorem forall_mem_stars {P : Char → Prop} (all : ∀ c ∈ [' ', '*'], P c) (k : Nat) :
    ∀ c ∈ ' ' :: List.replicate k '*', P c := by
  intro c hc
  rcases List.mem_cons.1 hc with rfl | hc
  · exact all ' ' (by simp)
  · rw [List.eq_of_mem_replicate hc]
    exact all '*' (by simp)

/-- **A normal base type stays normal with stars behind it.** -/
theorem isNormal_starred (h : IsBase base) (k : Nat) : IsNormal (starred base k) := by
  cases k with
  | zero => exact h.isNormal
  | succ k =>
    have hmarks : (marks (' ' :: List.replicate (k + 1) '*')).head? = some '*' := by
      rw [marks_cons_of_blank isBlank_space, List.replicate_succ, marks_cons_of_not isBlank_star]
      rfl
    refine h.isNormal.append h.ne_nil (startsWord_cons ' ' _)
      ⟨by simp, by simp, fun _ => ?_, ?_, ?_⟩ ?_ ?_ ?_
      ⟨placed_space (by decide), along_placed_stars (k + 1)⟩
    · exact ⟨h.getLast?_ne (by decide) (by decide), h.getLast?_ne (by decide) (by decide)⟩
    · simp [List.replicate_succ]
    · simp [hmarks]
    · intro c hc
      rw [List.getLast?_cons_of_ne_nil (by simp), List.getLast?_replicate] at hc
      obtain rfl : '*' = c := by simpa using hc
      exact isBlank_star
    · exact forall_mem_stars (by decide) (k + 1)
    · exact words_of_forall (forall_mem_stars (by decide) (k + 1))

/-- What holds of the ten digits. -/
theorem of_isDigit {P : Char → Prop} (all : ∀ n ∈ List.range' 48 10, P (Char.ofNat n)) {c : Char}
    (h : c.isDigit = true) : P c := by
  have hrange : '0'.toNat ≤ c.toNat ∧ c.toNat ≤ '9'.toNat := Char.isDigit_iff_toNat.1 h
  rw [← Char.ofNat_toNat c]
  refine all _ (List.mem_range'_1.2 ?_)
  change 48 ≤ c.toNat ∧ c.toNat ≤ 57 at hrange
  omega

theorem ne_of_isDigit {c d : Char} (hc : c.isDigit = true) (hd : d.isDigit = false) : c ≠ d := by
  rintro rfl
  simp [hc] at hd

/-- Digits stand in their place before everything but stars and brackets. -/
theorem along_placed_digits {size t : Text} (hsize : ∀ c ∈ size, c.isDigit = true)
    (ht : Along Placed t) (hstar : t.head? ≠ some '*') (hbracket : t.head? ≠ some '[') :
    Along Placed (size ++ t) ∧ (size ++ t).head? ≠ some '*' ∧ (size ++ t).head? ≠ some '[' := by
  induction size with
  | nil => exact ⟨ht, hstar, hbracket⟩
  | cons c rest ih =>
    obtain ⟨hrest, hstar', hbracket'⟩ := ih fun d hd => hsize d (by simp [hd])
    have hne {d : Char} (hd : d.isDigit = false) : c ≠ d := ne_of_isDigit (hsize c (by simp)) hd
    have hc : c ∉ ['*', '(', ' ', ']'] := by
      simp [hne (d := '*') (by decide), hne (d := '(') (by decide), hne (d := ' ') (by decide),
        hne (d := ']') (by decide)]
    refine ⟨⟨placed_of_plain hc hstar' hbracket', hrest⟩, ?_, ?_⟩
    · simpa using hne (d := '*') (by decide)
    · simpa using hne (d := '[') (by decide)

/-- Sizes in brackets stand in their place. -/
theorem along_placed_groups (h : AreSizes sizes) : Along Placed (sizes.flatMap bracketed) ∧
    (sizes.flatMap bracketed).head? ≠ some '*' ∧ (sizes.flatMap bracketed).head? ≠ some ' ' := by
  induction sizes with
  | nil => exact ⟨trivial, by simp, by simp⟩
  | cons size rest ih =>
    obtain ⟨hrest, hstar, hspace⟩ := ih fun n hn => h n (by simp [hn])
    have hclose : Placed ']' (rest.flatMap bracketed) := by
      refine ⟨fun h => absurd h hstar, fun h => absurd h (by decide), fun _ => .inr rfl,
        fun h => absurd h (by decide), fun _ hpre => hspace ?_, fun h => absurd h (by decide)⟩
      obtain ⟨after, hafter⟩ := exists_of_prefix_pair hpre
      rw [hafter]
      rfl
    obtain ⟨hdigits, hstar', hbracket'⟩ := along_placed_digits (h size (by simp)).2
      (show Along Placed (']' :: rest.flatMap bracketed) from ⟨hclose, hrest⟩) (by simp) (by simp)
    rw [List.flatMap_cons, bracketed, List.cons_append, List.append_assoc]
    exact ⟨⟨placed_of_plain (by decide) hstar' hbracket', hdigits⟩, by simp, by simp⟩

theorem mem_groups {c : Char} (h : AreSizes sizes) (hc : c ∈ sizes.flatMap bracketed) :
    c = '[' ∨ c = ']' ∨ c.isDigit = true := by
  obtain ⟨size, hsize, hc⟩ := List.mem_flatMap.1 hc
  rcases List.mem_cons.1 hc with rfl | hc
  · exact .inl rfl
  rcases List.mem_append.1 hc with hc | hc
  · exact .inr (.inr ((h size hsize).2 c hc))
  · exact .inr (.inl (List.mem_singleton.1 hc))

/-- What holds of a space, of brackets and of the ten digits holds all along the sizes behind a
type. -/
theorem forall_mem_groups {P : Char → Prop} (all : ∀ c ∈ [' ', '[', ']'], P c)
    (digits : ∀ n ∈ List.range' 48 10, P (Char.ofNat n)) (h : AreSizes sizes) :
    ∀ c ∈ ' ' :: sizes.flatMap bracketed, P c := by
  intro c hc
  rcases List.mem_cons.1 hc with rfl | hc
  · exact all ' ' (by simp)
  rcases mem_groups h hc with rfl | rfl | hdigit
  · exact all '[' (by simp)
  · exact all ']' (by simp)
  · exact of_isDigit digits hdigit

theorem getLast?_groups (hne : sizes ≠ []) : (sizes.flatMap bracketed).getLast? = some ']' := by
  rw [← List.dropLast_concat_getLast hne, List.flatMap_append, List.flatMap_singleton, bracketed,
    ← List.cons_append, ← List.append_assoc, List.getLast?_concat]

/-- **A normal type that does not end in a bracket stays normal with sizes behind it.** -/
theorem isNormal_sized (hs : IsNormal s) (hne : s ≠ []) (hlast : s.getLast? ≠ some ']')
    (h : AreSizes sizes) : IsNormal (sized s sizes) := by
  cases sizes with
  | nil => exact hs
  | cons size rest =>
    have hmarks : (marks (' ' :: (size :: rest).flatMap bracketed)).head? = some '[' := by
      rw [marks_cons_of_blank isBlank_space, List.flatMap_cons, bracketed, List.cons_append,
        marks_cons_of_not isBlank_bracket]
      rfl
    refine hs.append hne (startsWord_cons ' ' _) ⟨by simp, by simp, ?_, fun _ => hlast, ?_⟩ ?_ ?_ ?_
      ⟨?_, (along_placed_groups h).1⟩
    · rw [hmarks]
      exact fun hstar => absurd hstar (by decide)
    · rw [hmarks]
      exact fun hclose => absurd hclose (by decide)
    · intro c hc
      rw [List.getLast?_cons_of_ne_nil (by simp [bracketed]), getLast?_groups (by simp)] at hc
      obtain rfl : ']' = c := by simpa using hc
      exact isBlank_closeBracket
    · exact forall_mem_groups (by decide) (by decide) h
    · exact words_of_forall (forall_mem_groups (by decide) (by decide) h)
    · rw [List.flatMap_cons, bracketed, List.cons_append]
      exact placed_space (by decide)

/-! ## The tables -/

theorem freeOf_starred (h : IsBase base) (k : Nat) : FreeOf (starred base k) := by
  cases k with
  | zero => exact h.free
  | succ k => exact h.free.append (forall_mem_stars (by decide) (k + 1))

theorem starred_succ (h : IsBase base) (k : Nat) :
    starred base (k + 1) = addStar (starred base k) := by
  cases k with
  | zero =>
    rw [starred, starred, addStar_of_neg]
    · rfl
    · rintro (hnil | hstar)
      · exact h.ne_nil hnil
      · exact h.getLast?_ne (by decide) (by decide) hstar
  | succ k =>
    rw [starred, starred, addStar_of_pos, List.replicate_succ']
    · simp
    · exact .inr (by simp [List.getLast?_cons, List.getLast?_replicate])

/-! ## Readings -/

theorem mem_starred {c : Char} {k : Nat} (hc : c ∈ starred base k) :
    c ∈ base ∨ c = ' ' ∨ c = '*' := by
  cases k with
  | zero => exact .inl hc
  | succ k =>
    rcases List.mem_append.1 hc with hc | hc
    · exact .inl hc
    · exact .inr ((List.mem_cons.1 hc).imp_right List.eq_of_mem_replicate)

theorem not_mem_starred (h : IsBase base) {c : Char} (hc : isWordChar c = false)
    (hother : c ∉ [' ', '*']) (k : Nat) : c ∉ starred base k := by
  simp only [List.mem_cons, List.not_mem_nil, or_false, not_or] at hother
  obtain ⟨hspace, hstar⟩ := hother
  intro hmem
  rcases mem_starred hmem with hmem | hmem | hmem
  · exact h.not_mem hc hspace hmem
  · exact hspace hmem
  · exact hstar hmem

theorem starred_ne_nil (h : IsBase base) (k : Nat) : starred base k ≠ [] := by
  cases k with
  | zero => exact h.ne_nil
  | succ k => simp [starred]

theorem sizeGroupsAfter_append (t rest : Text) :
    sizeGroupsAfter t.length (t ++ rest) = t ++ sizeGroups rest := by
  induction t with
  | nil => rfl
  | cons c tail ih => rw [List.length_cons, List.cons_append, sizeGroupsAfter, ih, List.cons_append]

theorem groupDigits?_bracketed {size : Text} (hne : size ≠ [])
    (hsize : ∀ c ∈ size, c.isDigit = true) (t : Text) :
    groupDigits? (bracketed size ++ t) = some size := by
  have hdecimal : ∀ c ∈ size, isDecimal c = true := fun c hc =>
    of_isDigit (P := fun c => isDecimal c = true) (by decide +kernel) (hsize c hc)
  have htake : (size ++ ']' :: t).takeWhile isDecimal = size := by
    rw [List.takeWhile_append_of_pos hdecimal, List.takeWhile_cons_of_neg (by decide),
      List.append_nil]
  rw [bracketed, List.cons_append, List.append_assoc, groupDigits?, List.singleton_append, htake,
    List.drop_left]
  simp [hne]

/-- All sizes are read. -/
theorem sizeGroups_groups (h : AreSizes sizes) :
    sizeGroups (sizes.flatMap bracketed) = sizes.flatMap bracketed := by
  induction sizes with
  | nil => rfl
  | cons size rest ih =>
    obtain ⟨hne, hsize⟩ := h size (by simp)
    have hdigits := groupDigits?_bracketed hne hsize (rest.flatMap bracketed)
    have hrest := sizeGroupsAfter_append (size ++ [']']) (rest.flatMap bracketed)
    rw [List.length_append] at hrest
    rw [bracketed, List.cons_append] at hdigits
    rw [List.flatMap_cons, bracketed, List.cons_append, sizeGroups, sizeGroupsAfter, hdigits]
    exact congrArg ('[' :: ·) (hrest.trans (by rw [ih fun n hn => h n (by simp [hn])]))

theorem dimensions_groups (h : AreSizes sizes) :
    Reading.dimensions (sizes.flatMap bracketed) = slices sizes.length := by
  induction sizes with
  | nil => rfl
  | cons size rest ih =>
    have hsize : size.filter (fun c => !c.isDigit) = [] :=
      List.filter_eq_nil_iff.2 fun c hc => by simp [(h size (by simp)).2 c hc]
    have hbracketed : (bracketed size).filter (fun c => !c.isDigit) = ['[', ']'] := by
      rw [bracketed, List.filter_cons_of_pos (by decide), List.filter_append, hsize]
      rfl
    rw [Reading.dimensions, List.flatMap_cons, List.filter_append, hbracketed, List.length_cons,
      slices_succ]
    exact congrArg (['[', ']'] ++ ·) (ih fun n hn => h n (by simp [hn]))

theorem sizedArray?_append {element groups : Text} (hne : element ≠ [])
    (hall : ∀ c ∈ element, Reading.isElementChar c = true)
    (hhead : ∀ c ∈ groups.head?, Reading.isElementChar c = false) (hgroups : groups ≠ [])
    (hsizes : sizeGroups groups = groups) :
    Reading.sizedArray? (element ++ groups) = some (element, groups) := by
  obtain ⟨c, rest, rfl⟩ := List.exists_cons_of_ne_nil hne
  have hdrop : ((c :: rest) ++ groups).dropWhile Reading.isElementChar = groups := by
    rw [List.dropWhile_append_of_pos hall, dropWhile_of_head? hhead]
  have htake : ((c :: rest) ++ groups).takeWhile Reading.isElementChar = c :: rest := by
    rw [List.takeWhile_append_of_pos hall]
    cases groups with
    | nil => exact absurd rfl hgroups
    | cons d tail => rw [List.takeWhile_cons_of_neg (by simp [hhead d rfl]), List.append_nil]
  rw [List.cons_append] at hdrop htake ⊢
  rw [Reading.sizedArray?, hdrop, htake, hsizes, if_pos (by simp [hall c, hgroups])]

theorem sized_of_ne_nil (s : Text) (hne : sizes ≠ []) :
    sized s sizes = s ++ ' ' :: sizes.flatMap bracketed := by
  cases sizes with
  | nil => exact absurd rfl hne
  | cons size rest => rfl

theorem groups_ne_nil (hne : sizes ≠ []) : sizes.flatMap bracketed ≠ [] := by
  intro hnil
  have := getLast?_groups hne
  rw [hnil] at this
  cases this

theorem head?_groups : ∀ c ∈ (sizes.flatMap bracketed).head?, c = '[' := by
  cases sizes <;> simp [bracketed, eq_comm]

theorem getLast?_sized (s : Text) (hne : sizes ≠ []) : (sized s sizes).getLast? = some ']' := by
  rw [sized_of_ne_nil s hne, List.getLast?_append_cons,
    List.getLast?_cons_of_ne_nil (groups_ne_nil hne), getLast?_groups hne]

theorem mem_sized (hsizes : AreSizes sizes) {c : Char} (hc : c ∈ sized s sizes) :
    c ∈ s ∨ c = ' ' ∨ c = '[' ∨ c = ']' ∨ c.isDigit = true := by
  cases sizes with
  | nil => exact .inl hc
  | cons size rest =>
    rcases List.mem_append.1 hc with hc | hc
    · exact .inl hc
    · exact .inr ((List.mem_cons.1 hc).imp_right (mem_groups hsizes))

theorem not_mem_sized (h : IsBase base) (hsizes : AreSizes sizes) {c : Char}
    (hc : isWordChar c = false) (hother : c ∉ [' ', '*', '[', ']']) (k : Nat) :
    c ∉ sized (starred base k) sizes := by
  simp only [List.mem_cons, List.not_mem_nil, or_false, not_or] at hother
  obtain ⟨hspace, hstar, hopen, hclose⟩ := hother
  intro hmem
  rcases mem_sized hsizes hmem with hmem | hmem | hmem | hmem | hmem
  · exact not_mem_starred h hc (by simp [hspace, hstar]) k hmem
  · exact hspace hmem
  · exact hopen hmem
  · exact hclose hmem
  · have hword : isWordChar c = true :=
      of_isDigit (P := fun c => isWordChar c = true) (by decide) hmem
    simp [hc] at hword

theorem ofForm_sized (h : IsBase base) (k : Nat) (hsizes : AreSizes sizes) (hne : sizes ≠ []) :
    Reading.ofForm (sized (starred base k) sizes) =
      .array (slices sizes.length) (starred base k ++ [' ']) := by
  have hparens : Reading.withoutParens (sized (starred base k) sizes) =
      (starred base k ++ [' ']) ++ sizes.flatMap bracketed := by
    rw [Reading.withoutParens, List.filter_eq_self.2, sized_of_ne_nil _ hne, List.append_assoc]
    · rfl
    · intro c hc
      have hopen : c ≠ '(' := fun heq => not_mem_sized h hsizes (by decide) (by decide) k
        (heq ▸ hc)
      have hclose : c ≠ ')' := fun heq => not_mem_sized h hsizes (by decide) (by decide) k
        (heq ▸ hc)
      simp [hopen, hclose]
  have helement : ∀ c ∈ starred base k ++ [' '], Reading.isElementChar c = true := by
    intro c hc
    have hchars : isWordChar c = true ∨ c = ' ' ∨ c = '*' := by
      rcases List.mem_append.1 hc with hc | hc
      · rcases mem_starred hc with hc | hc
        · exact (h.chars c hc).imp_right .inl
        · exact .inr hc
      · exact .inr (.inl (List.mem_singleton.1 hc))
    rcases hchars with hc | rfl | rfl
    · simp [Reading.isElementChar, hc]
    · decide
    · decide
  have hhead : ∀ c ∈ (sizes.flatMap bracketed).head?, Reading.isElementChar c = false := by
    intro c hc
    rw [head?_groups c hc]
    decide
  rw [Reading.ofForm, getLast?_sized _ hne, if_neg (by decide), hparens,
    sizedArray?_append (by simp) helement hhead (groups_ne_nil hne) (sizeGroups_groups hsizes)]
  simp only [dimensions_groups hsizes]

/-- The space that is left over in front of the sizes changes nothing. -/
theorem ofSpelling_append_space (reg : Registry) (unwind : Bool) (h : IsBase base) (k : Nat) :
    Reading.ofSpelling reg unwind (starred base k ++ [' ']) =
      Reading.ofSpelling reg unwind (starred base k) := by
  have hcolon : ':' ∉ starred base k := not_mem_starred h (by decide) (by decide) k
  have hnormal := isNormal_starred h k
  rw [Reading.ofSpelling_of_freeOf reg unwind (by simpa using hcolon)
      (normalize_append_space hnormal) (starred_ne_nil h k) (freeOf_starred h k),
    Reading.ofSpelling_of_freeOf reg unwind hcolon (normalize_of_isNormal hnormal)
      (starred_ne_nil h k) (freeOf_starred h k)]

section Readings

variable {reg : Registry} (hreg : ∀ name ∈ reg.names, ∀ c ∈ name, isWordChar c = true)

include hreg

theorem without {c : Char} (hc : isWordChar c = false) : reg.Without c := fun name hname hmem => by
  simp [hreg name hname c hmem] at hc

/-- A type with stars is in the tables, names a function type, or is a pointer. -/
theorem ofSpelling_starred (unwind : Bool) (h : IsBase base) (k : Nat) :
    Reading.ofSpelling reg unwind (starred base (k + 1)) =
      if k = 0 ∧ base = "char".toList then .named "[]byte".toList
      else if k = 0 ∧ base = "void".toList then .named anyType
      else if k = 0 ∧ reg.namesFunction base then .descriptor base
      else .pointer (starred base k) := by
  have hread := Reading.read_addStar (without hreg (by decide)) unwind
    (isNormal_starred h k).trimmed (not_mem_starred h (by decide) (by decide) k)
  rw [← starred_succ h] at hread
  rw [Reading.ofSpelling_of_freeOf reg unwind
      (not_mem_starred h (by decide) (by decide) (k + 1))
      (normalize_of_isNormal (isNormal_starred h (k + 1))) (starred_ne_nil h (k + 1))
      (freeOf_starred h (k + 1)), hread]
  cases k with
  | zero =>
    have hbase : starred base 0 = base := rfl
    simp only [hbase, ne_eq, h.ne_nil, not_false_eq_true, true_and]
  | succ k =>
    -- Behind a star there is neither a type of the tables nor a name.
    have hstar : '*' ∈ starred base (k + 1) := starred_succ h k ▸ mem_addStar _
    have hchar : starred base (k + 1) ≠ "char".toList := fun heq => absurd (heq ▸ hstar) (by decide)
    have hvoid : starred base (k + 1) ≠ "void".toList := fun heq => absurd (heq ▸ hstar) (by decide)
    have hname : reg.namesFunction (starred base (k + 1)) = false := by
      rw [Registry.namesFunction, (without hreg (by decide)).underlying? hstar]
      rfl
    rw [if_neg hchar, if_neg hvoid, if_neg fun hk => Bool.false_ne_true (hname.symm.trans hk.2)]
    simp

/-- **A type with sizes is an array of it**, and the space in front of the sizes is left over. -/
theorem ofSpelling_sized (unwind : Bool) (h : IsBase base) (k : Nat) (hsizes : AreSizes sizes)
    (hne : sizes ≠ []) :
    Reading.ofSpelling reg unwind (sized (starred base k) sizes) =
      .array (slices sizes.length) (starred base k ++ [' ']) := by
  have hopen : '[' ∈ sized (starred base k) sizes := by
    rw [sized_of_ne_nil _ hne]
    obtain ⟨size, rest, rfl⟩ := List.exists_cons_of_ne_nil hne
    simp [bracketed]
  have hprimitives : primitives.lookup (sized (starred base k) sizes) = none :=
    lookup_eq_none_of_mem hopen (by decide)
  have hstructs : standardStructs.lookup (sized (starred base k) sizes) = none :=
    lookup_eq_none_of_mem hopen (by decide)
  have hpointee : reg.functionPointee? (sized (starred base k) sizes) = none := by
    refine reg.functionPointee?_of_getLast? ?_
    rw [getLast?_sized _ hne]
    decide
  have hfunction : isFunction (sized (starred base k) sizes) = false :=
    isFunction_of_not_mem (not_mem_sized h hsizes (by decide) (by decide) k)
  have hnormal : IsNormal (sized (starred base k) sizes) :=
    isNormal_sized (isNormal_starred h k) (starred_ne_nil h k) (fun hlast =>
      not_mem_starred h (by decide) (by decide) k (List.mem_of_getLast? hlast)) hsizes
  have hfree : FreeOf (sized (starred base k) sizes) := by
    rw [sized_of_ne_nil _ hne]
    exact (freeOf_starred h k).append (forall_mem_groups (by decide) (by decide) hsizes)
  rw [Reading.ofSpelling_of_freeOf reg unwind
      (not_mem_sized h hsizes (by decide) (by decide) k) (normalize_of_isNormal hnormal)
      (List.ne_nil_of_mem hopen) hfree,
    Reading.ofName?_of_without (without hreg (by decide)) hopen (by decide), hprimitives, hstructs,
    hpointee, hfunction, if_neg Bool.false_ne_true, ofForm_sized h k hsizes hne]
  rfl

end Readings

/-! ## Descriptors -/

theorem pointerTo_of_mem {c : Char} {t : Text} (hc : c ∈ t) (hhandle : c ∉ handle) :
    pointerTo t = '[' :: ']' :: t := by
  rw [pointerTo, Pointee.ofDescriptor, if_neg]
  rintro (rfl | hsuffix)
  · exact hhandle hc
  · exact hhandle ((List.isSuffixOf_iff_suffix.1 hsuffix).subset (List.mem_cons_of_mem _ hc))

/-- The descriptor of a stream holds a dot, so no base type is one. -/
theorem pointerTo_of_isBase (h : IsBase base) : pointerTo base = '[' :: ']' :: base := by
  have hslash : '/' ∈ handle := by decide
  rw [pointerTo, Pointee.ofDescriptor, if_neg]
  rintro (heq | hsuffix)
  · exact h.not_mem (by decide) (by decide) (heq.symm ▸ hslash)
  · have hfile : ".File".toList <:+ handle := ⟨runtimePackage, rfl⟩
    rcases List.suffix_or_suffix_of_suffix (List.isSuffixOf_iff_suffix.1 hsuffix) hfile with
      hshort | hlong
    · have : '/' ∈ ".File".toList := hshort.subset (by simp)
      exact absurd this (by decide)
    · have hdot : '.' ∈ '/' :: base := hlong.subset (by decide)
      rcases List.mem_cons.1 hdot with heq | hdot
      · exact absurd heq (by decide)
      · exact h.not_mem (by decide) (by decide) hdot

/-- One more star. -/
theorem pointerTo_pointerDescriptor (reg : Registry) (h : IsBase base) (d : Text) (k : Nat) :
    pointerTo (pointerDescriptor reg base d (k + 1)) = pointerDescriptor reg base d (k + 2) := by
  have hbrace : '\x7b' ∈ anyType := by decide
  rw [pointerDescriptor, pointerDescriptor]
  split_ifs with hvoid hname hstream
  · rw [pointerTo_of_mem (List.mem_append_right _ hbrace) (by decide), slices_succ]
    rfl
  · cases k with
    | zero => exact pointerTo_of_isBase h
    | succ k =>
      rw [pointerTo_of_mem (c := '[') (by simp [slices_succ]) (by decide +kernel),
        slices_succ (k + 1)]
      rfl
  · rw [pointerTo_of_mem (c := '*') (by simp) (by decide), slices_succ]
    rfl
  · rw [pointerTo_of_mem (c := '[') (by simp [slices_succ]) (by decide),
      slices_succ (k + 1)]
    rfl

/-! ## Resolution -/

theorem describeName_eq_value (reg : Registry) {name : Text} (h : '/' ∉ name) :
    reg.describeName name = .value name := by
  rw [Registry.describeName, Registry.qualify, Import.ofName_of_not_mem h, ite_self]
  rfl

theorem describeName_of_not_mem (reg : Registry) {name : Text} (h : '/' ∉ name) :
    (reg.describeName name).result = .ok name := by
  rw [describeName_eq_value reg h]
  rfl

theorem descend_int (reg : Registry) (config : Config) (levels : Nat) (chain : List Text) :
    (reg.descend config (levels + 1) chain "int".toList).result = .ok "int".toList := by
  rw [Registry.descend_succ_ok_iff, Reading.ofSpelling_int, Reading.describe,
    describeName_of_not_mem reg (by decide)]

theorem ofSpelling_char (reg : Registry) (unwind : Bool) :
    Reading.ofSpelling reg unwind "char".toList = .named "byte".toList := by
  rfl

theorem eq_of_descend_char {reg : Registry} {config : Config} {levels : Nat} {chain : List Text}
    {d : Text} (h : (reg.descend config levels chain "char".toList).result = .ok d) :
    d = "byte".toList := by
  cases levels with
  | zero => cases h
  | succ levels =>
    rw [Registry.descend_succ_ok_iff, ofSpelling_char, Reading.describe,
      describeName_of_not_mem reg (by decide)] at h
    exact (Except.ok.inj h).symm

/-- **The stars of a base type are taken off one by one.** -/
theorem descend_starred {reg : Registry}
    (hreg : ∀ name ∈ reg.names, ∀ c ∈ name, isWordChar c = true) {config : Config} {levels : Nat}
    {chain : List Text} {d : Text} (h : IsBase base)
    (hd : (reg.descend config levels chain base).result = .ok d) (k : Nat) :
    (reg.descend config (levels + k) chain (starred base k)).result =
      .ok (pointerDescriptor reg base d k) := by
  have hmap {t : Trace Text} {a : Text} (ht : t.result = .ok a) :
      (t.map pointerTo).result = .ok (pointerTo a) := by
    rw [Trace.map, ht]
    rfl
  induction k with
  | zero => exact hd
  | succ k ih =>
    rw [← Nat.add_assoc, Registry.descend_succ_ok_iff, ofSpelling_starred hreg _ h]
    cases k with
    | succ k =>
      rw [if_neg (by simp), if_neg (by simp), if_neg (by simp), ← pointerTo_pointerDescriptor reg h]
      exact hmap ih
    | zero =>
      by_cases hchar : base = "char".toList
      · obtain rfl := eq_of_descend_char (hchar ▸ hd)
        rw [if_pos ⟨rfl, hchar⟩, Reading.describe, describeName_of_not_mem reg (by decide), hchar]
        rfl
      by_cases hvoid : base = "void".toList
      · rw [if_neg fun h => hchar h.2, if_pos ⟨rfl, hvoid⟩, Reading.describe,
          describeName_of_not_mem reg (by decide +kernel), pointerDescriptor, if_pos hvoid]
        rfl
      by_cases hname : reg.namesFunction base = true
      · rw [if_neg fun h => hchar h.2, if_neg fun h => hvoid h.2, if_pos ⟨rfl, hname⟩,
          pointerDescriptor, if_neg hvoid, if_pos ⟨hchar, hname⟩]
        rfl
      · rw [if_neg fun h => hchar h.2, if_neg fun h => hvoid h.2, if_neg fun h => hname h.2,
          pointerDescriptor, if_neg hvoid, if_neg fun h => hname h.2]
        refine (hmap hd).trans ?_
        unfold pointerTo
        cases Pointee.ofDescriptor d <;> rfl

/-- **A size is one slice more in front.** -/
theorem descend_sized {reg : Registry}
    (hreg : ∀ name ∈ reg.names, ∀ c ∈ name, isWordChar c = true) {config : Config} {levels : Nat}
    {chain : List Text} {d : Text} (h : IsBase base) {k : Nat}
    (hd : (reg.descend config levels chain (starred base k)).result = .ok d)
    (hsizes : AreSizes sizes) :
    (reg.descend config (levels + 1) chain (sized (starred base k) sizes)).result =
      .ok (slices sizes.length ++ d) := by
  cases sizes with
  | nil => exact reg.descend_ok_of_le rfl (Nat.le_succ levels) hd
  | cons size rest =>
    have hspace : (reg.descend config levels chain (starred base k ++ [' '])).result = .ok d := by
      cases levels with
      | zero => cases hd
      | succ levels =>
        rw [Registry.descend_succ_ok_iff] at hd ⊢
        rwa [ofSpelling_append_space reg _ h]
    rw [Registry.descend_succ_ok_iff, ofSpelling_sized hreg _ h k hsizes (by simp),
      Reading.describe, Trace.map, hspace]
    rfl

/-- **Pointers and arrays of a base type.** If the base type resolves to `d`, then for every
setting and every large enough limit of levels, the base type with `k` stars and some sizes behind
it resolves to a slice for each size in front of the descriptor of the pointer. -/
theorem resolve_sized_starred (reg : Registry)
    (hreg : ∀ name ∈ reg.names, ∀ c ∈ name, isWordChar c = true) (config : Config) (base d : Text)
    (hbase : IsBase base) (hd : reg.resolve config base = ⟨d, none⟩) (k : Nat) (sizes : List Text)
    (hsizes : AreSizes sizes) :
    ∃ depth : Int, ∀ config' : Config, config'.unwind = config.unwind → depth ≤ config'.maxDepth →
      reg.resolve config' (sized (starred base k) sizes) =
        ⟨slices sizes.length ++ pointerDescriptor reg base d k, none⟩ := by
  refine ⟨config.maxDepth.toNat + k + 1, fun config' hunwind hdepth => ?_⟩
  rw [Registry.resolve_eq_iff] at hd ⊢
  have hle : config.maxDepth.toNat + k + 1 ≤ config'.maxDepth.toNat := by omega
  exact reg.descend_ok_of_le hunwind.symm hle
    (descend_sized hreg hbase (descend_starred hreg hbase hd k) hsizes)

/-- A pointer to a pointer to a function, in two rows. -/
theorem resolve_sized_starred_handler :
    ∃ depth : Int, ∀ config' : Config, config'.unwind = false → depth ≤ config'.maxDepth →
      Registry.resolve { typedefs := [("handler".toList, "void (int)".toList)] } config'
        "handler ** [2][10]".toList = ⟨"[][][]handler".toList, none⟩ :=
  resolve_sized_starred { typedefs := [("handler".toList, "void (int)".toList)] }
    (by decide +kernel) {} "handler".toList "handler".toList
    ⟨by decide, by decide +kernel, by decide +kernel, by decide +kernel⟩ (by decide +kernel) 2
    ["2".toList, "10".toList] (by decide +kernel)

end CSpelling.Decorations

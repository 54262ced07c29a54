import CSpelling.Proofs.Occurrences

/-!
# Pointers

The spelling of a pointer is that of what it points to with one more star, which stands next to the
stars at the end of the spelling or a space apart from the words there (`addStar`). Such a spelling
is in the tables, or names a function type, or is read as a pointer (`Reading.read_addStar`).
-/

namespace CSpelling

open Text

/-- A normal spelling with one more star. -/
def addStar (s : Text) : Text :=
  if s = [] ∨ s.getLast? = some '*' then s ++ ['*'] else s ++ [' ', '*']

variable {s before : Text}

/-! ## One more star -/

theorem addStar_of_pos (h : s = [] ∨ s.getLast? = some '*') : addStar s = s ++ ['*'] := if_pos h

theorem addStar_of_neg (h : ¬(s = [] ∨ s.getLast? = some '*')) : addStar s = s ++ [' ', '*'] :=
  if_neg h

@[simp] theorem getLast?_addStar (s : Text) : (addStar s).getLast? = some '*' := by
  unfold addStar
  split <;> simp

theorem mem_addStar (s : Text) : '*' ∈ addStar s := List.mem_of_getLast? (getLast?_addStar s)

theorem mem_of_mem_addStar {c : Char} (h : c ∈ addStar s) : c ∈ s ∨ c = ' ' ∨ c = '*' := by
  unfold addStar at h
  split at h
  · exact (List.mem_append.1 h).imp_right fun hc => .inr (List.mem_singleton.1 hc)
  · exact (List.mem_append.1 h).imp_right fun hc => by simpa using hc

/-- A spelling does not end in a space and in a star. -/
theorem eq_of_addStar_eq_append (h : addStar s = before ++ [' ', '*']) : s = before := by
  have hend : before ++ [' ', '*'] = before ++ [' '] ++ ['*'] := by simp
  unfold addStar at h
  split at h
  · next hstar =>
    have heq : s = before ++ [' '] := List.append_cancel_right (h.trans hend)
    simp [heq] at hstar
  · exact List.append_cancel_right h

theorem strip_dropLast_addStar (h : Trimmed s) : strip (addStar s).dropLast = s := by
  unfold addStar
  split
  · rw [List.dropLast_concat, strip_of_trimmed h]
  · rw [List.dropLast_append_of_ne_nil (by simp)]
    exact (strip_append_gap isGap_space s).trans (strip_of_trimmed h)

/-! ## Readings -/

theorem lookup_primitives_addStar (s : Text) : primitives.lookup (addStar s) =
    if s = "char".toList then some "[]byte".toList
    else if s = "void".toList then some anyType
    else none := by
  have all : ∀ entry ∈ primitives, '*' ∈ entry.1 →
      entry.1 = "char".toList ++ [' ', '*'] ∨ entry.1 = "void".toList ++ [' ', '*'] := by
    decide +kernel
  split_ifs with hchar hvoid
  · rw [hchar]
    rfl
  · rw [hvoid]
    rfl
  · rw [List.lookup_eq_none_iff]
    intro entry hentry
    rw [bne_iff_ne]
    intro hkey
    rcases all entry hentry (hkey ▸ mem_addStar s) with heq | heq
    · exact hchar (eq_of_addStar_eq_append (hkey.trans heq))
    · exact hvoid (eq_of_addStar_eq_append (hkey.trans heq))

section Readings

variable {reg : Registry} (hreg : reg.Without '*')

include hreg

theorem Registry.functionPointee?_addStar (s : Text) : reg.functionPointee? (addStar s) =
    if s ≠ [] ∧ reg.namesFunction s then some s else none := by
  unfold functionPointee? pointerEnd
  cases hend : dropEnd? [' ', '*'] (addStar s) with
  | some before =>
    have hsplit := dropEnd?_eq_some_iff.1 hend
    obtain rfl := eq_of_addStar_eq_append hsplit
    have hne : s ≠ [] := by
      rintro rfl
      exact absurd hsplit (by decide)
    rw [Option.filter_some]
    simp [hne]
  | none =>
    rw [if_neg]
    · rfl
    · -- A name holds no star, so the one behind it stands apart.
      rintro ⟨hne, hname⟩
      have hlast : s.getLast? ≠ some '*' := by
        intro hlast
        rw [namesFunction, hreg.underlying? (List.mem_of_getLast? hlast)] at hname
        cases hname
      rw [dropEnd?_eq_some_iff.2 (addStar_of_neg (by simp [hne, hlast]))] at hend
      cases hend

/-- **A spelling with one more star is a row of characters, any value, a function type, or a
pointer.** -/
theorem Reading.read_addStar (unwind : Bool) (hs : Trimmed s) (hopen : '(' ∉ s) :
    (ofName? reg unwind (addStar s)).getD (ofForm (addStar s)) =
      if s = "char".toList then .named "[]byte".toList
      else if s = "void".toList then .named anyType
      else if s ≠ [] ∧ reg.namesFunction s then .descriptor s
      else .pointer s := by
  have hstandard : standardStructs.lookup (addStar s) = none :=
    lookup_eq_none_of_mem (mem_addStar s) (by decide)
  have hfunction : isFunction (addStar s) = false := by
    refine isFunction_of_not_mem fun hmem => ?_
    rcases mem_of_mem_addStar hmem with hmem | hmem | hmem
    · exact hopen hmem
    · exact absurd hmem (by decide)
    · exact absurd hmem (by decide)
  have hform : ofForm (addStar s) = .pointer s := by
    rw [ofForm, if_pos (getLast?_addStar s), strip_dropLast_addStar hs]
  rw [ofName?_of_without hreg (mem_addStar s) (by decide), hstandard, hfunction,
    if_neg Bool.false_ne_true, hform, lookup_primitives_addStar,
    Registry.functionPointee?_addStar hreg]
  split_ifs <;> rfl

end Readings

end CSpelling

import CSpelling.Proofs.NormalForm
import CSpelling.Proofs.Parentheses
import CSpelling.Resolve
import Mathlib.Data.List.Flatten

/-!
# The weight of the parts of a spelling

A pass inserts and deletes white space and deletes words, replacing a fragment makes a spelling no
heavier, and what a pointer, an array or a function type is read from stands in its spelling beside
a star, a bracket or a parenthesis. So the parts of a form are lighter than the spelling
(`Reading.weight_lt_of_mem_parts_ofForm`, `Parts.weight_lt_of_ofSpelling`), however they are
respaced or put together again.
-/

namespace CSpelling

namespace Text

/-! ## Texts -/

@[simp] theorem weight_nil : weight [] = 0 := rfl

@[simp] theorem weight_append (s t : Text) : weight (s ++ t) = weight s + weight t := by
  simp [weight]

theorem weight_cons (c : Char) (s : Text) : weight (c :: s) = weight [c] + weight s :=
  weight_append [c] s

theorem weight_cons_of_not {c : Char} (h : isBlank c = false) (s : Text) :
    weight (c :: s) = weight s + 1 := by
  simp [weight, marks_cons_of_not h]

theorem weight_le_of_sublist {s t : Text} (h : s.Sublist t) : weight s ≤ weight t :=
  (h.filter _).length_le

@[simp] theorem weight_strip (s : Text) : weight (strip s) = weight s := by
  simp [weight]

/-- Replacing a text by one that is no heavier makes nothing heavier. -/
theorem weight_replaceAfter_le {old new : Text} (h : weight new ≤ weight old) (skip : Nat)
    (s : Text) : weight (replaceAfter old new skip s) ≤ weight (s.drop skip) := by
  induction s generalizing skip with
  | nil => simp [replaceAfter]
  | cons c rest ih =>
    cases skip with
    | succ skip => exact ih skip
    | zero =>
      rw [replaceAfter, List.drop_zero]
      split
      · next hpre =>
        obtain ⟨after, hafter⟩ := List.isPrefixOf_iff_prefix.1 hpre
        have hrest := ih (old.length - 1)
        rw [← hafter, weight_append, weight_append]
        cases old with
        | nil =>
          rw [List.nil_append] at hafter
          have hnew : weight (replaceAfter [] new 0 rest) ≤ weight rest := ih 0
          have hle : weight rest ≤ weight (c :: rest) :=
            weight_le_of_sublist (List.sublist_cons_self c rest)
          rw [hafter]
          show weight new + weight (replaceAfter [] new 0 rest) ≤ _
          omega
        | cons d tail =>
          have htail : rest.drop ((d :: tail).length - 1) = after := by
            rw [List.cons_append, List.cons.injEq] at hafter
            rw [← hafter.2, List.length_cons, Nat.add_sub_cancel, List.drop_left]
          rw [htail] at hrest
          omega
      · have hrest : weight (replaceAfter old new 0 rest) ≤ weight rest := ih 0
        rw [weight_cons c (replaceAfter old new 0 rest), weight_cons c rest]
        omega

theorem weight_replace_le {old new : Text} (h : weight new ≤ weight old) (s : Text) :
    weight (replace old new s) ≤ weight s :=
  weight_replaceAfter_le h 0 s

theorem sublist_of_cut {part s before after : Text} (h : cut part s = some (before, after)) :
    (before ++ after).Sublist s := by
  rw [eq_of_cut h, List.append_assoc]
  exact (List.sublist_append_right part after).append_left before

theorem removeFirst_sublist (part s : Text) : (removeFirst part s).Sublist s := by
  unfold removeFirst
  split
  · next h => exact sublist_of_cut h
  · exact List.Sublist.refl s

theorem interior_sublist (s : Text) : (interior s).Sublist s :=
  (List.dropLast_sublist _).trans (List.drop_sublist 1 s)

end Text

open Text

/-! ## Normal spellings -/

namespace Normal

theorem marks_dropControls (s : Text) : marks (dropControls s) = marks s := by
  rw [marks, marks, dropControls, List.filter_filter]
  refine List.filter_congr fun c _ => ?_
  cases hc : isControl c with
  | false => simp
  | true =>
    obtain (rfl | rfl) | rfl : (c = '\t' ∨ c = '\n') ∨ c = '\r' := by simpa [isControl] using hc
    all_goals decide

theorem marks_respace (s : Text) : marks (respace s) = marks s := by
  rw [← flatten_tokens, tokens_respace, flatten_tokens]

/-- Of the marks of a text a pass takes none but those of qualifiers. -/
theorem marks_once (s : Text) : marks (once s) = marks (dropQualifiers s) := by
  rw [once_eq_respace, marks_respace, marks_dropControls]

theorem weight_once_le (s : Text) : weight (once s) ≤ weight s := by
  have hwords : (dropQualifiers s).Sublist s := by
    conv_rhs => rw [← flatten_chunks s]
    exact List.filter_sublist.flatten
  rw [weight, marks_once]
  exact weight_le_of_sublist hwords

end Normal

theorem weight_normalize_le (s : Text) : weight (normalize s) ≤ weight s := by
  rw [Normal.normalize_eq]
  exact (Normal.weight_once_le _).trans (Normal.weight_once_le s)

theorem weight_substitute_le (s : Text) : weight (Reading.substitute s) ≤ weight s := by
  have all : ∀ f ∈ fragments, weight f.2 ≤ weight f.1 := by decide
  unfold Reading.substitute
  revert all
  induction fragments generalizing s with
  | nil => exact fun _ => le_rfl
  | cons f rest ih =>
    intro all
    exact (ih _ fun g hg => all g (by simp [hg])).trans (weight_replace_le (all f (by simp)) s)

/-! ## Function types -/

theorem sublist_of_mem_consField {c : Char} {s f : Text} {fields : List Text}
    (h : ∀ g ∈ fields, g.Sublist s) (hf : f ∈ consField c fields) : f.Sublist (c :: s) := by
  cases fields with
  | nil =>
    rw [consField, List.mem_singleton] at hf
    rw [hf]
    exact (List.nil_sublist s).cons_cons c
  | cons g rest =>
    rw [consField, List.mem_cons] at hf
    rcases hf with rfl | hf
    · exact (h g (by simp)).cons_cons c
    · exact (h f (by simp [hf])).cons c

theorem sublist_of_mem_fieldsWithin {depth : Nat} {s f : Text} (h : f ∈ fieldsWithin depth s) :
    f.Sublist s := by
  induction s generalizing depth f with
  | nil =>
    rw [fieldsWithin, List.mem_singleton] at h
    rw [h]
  | cons c rest ih =>
    unfold fieldsWithin at h
    split_ifs at h
    · exact sublist_of_mem_consField (fun g hg => ih hg) h
    · exact sublist_of_mem_consField (fun g hg => ih hg) h
    · rcases List.mem_cons.1 h with rfl | h
      · exact List.nil_sublist _
      · exact (ih h).cons c
    · exact sublist_of_mem_consField (fun g hg => ih hg) h

theorem weight_le_of_mem_topFields {s f : Text} (h : f ∈ topFields s) : weight f ≤ weight s := by
  obtain ⟨g, hg, rfl⟩ := List.mem_map.1 h
  rw [weight_strip]
  exact weight_le_of_sublist (sublist_of_mem_fieldsWithin hg)

theorem weight_cutAtOpen_le {s stars after : Text} (h : cutAtOpen s = some (stars, after)) :
    weight after ≤ weight s := by
  obtain ⟨⟨front, back⟩, hcut, heq⟩ := Option.map_eq_some_iff.1 h
  obtain ⟨rfl, rfl⟩ := Prod.mk.inj heq
  rw [eq_of_cut hcut]
  simp only [weight_append, weight_cons_of_not isBlank_open, weight_nil]
  omega

/-- A block moves nothing into the returned type but what stands in it. -/
theorem weight_unwrapBlock_le {block base indirection returns : Text}
    (h : unwrapBlock block base = .ok (indirection, returns)) :
    weight returns ≤ weight base + weight block := by
  unfold unwrapBlock at h
  split at h
  · cases h; exact Nat.le_add_right _ _
  · cases h; exact Nat.le_add_right _ _
  · cases h; exact Nat.le_add_right _ _
  · split at h
    · cases h
    · next hcut =>
      split_ifs at h
      cases h
      have := weight_cutAtOpen_le hcut
      have := weight_le_of_sublist (interior_sublist block)
      rw [weight_append]
      omega
  · split at h
    · cases h
    · next hcut =>
      cases h
      have := weight_cutAtOpen_le hcut
      have := weight_le_of_sublist
        ((interior_sublist (removeFirst marker block)).trans (removeFirst_sublist marker block))
      rw [weight_append]
      omega

namespace Parts

/-- The spellings that the parts of a function type are resolved from. -/
def spellings (parts : Parts) : List Text := parts.fields.filter (!·.isEmpty) ++ [parts.returns]

theorem weight_of_ofReturns {s returns inner : Text} {parts : Parts}
    (h : ofReturns s returns ('(' :: (inner ++ [')'])) = .ok parts) :
    (∀ f ∈ parts.fields, weight f ≤ weight inner) ∧ weight parts.returns ≤ weight returns := by
  rcases ofReturns_eq_ok_iff.1 h with
    ⟨-, rfl⟩ | ⟨base, block, indirection, extended, rfl, -, hunwrap, rfl⟩
  · exact ⟨fun f hf => weight_le_of_mem_topFields hf, le_rfl⟩
  · refine ⟨fun f hf => weight_le_of_mem_topFields hf, ?_⟩
    rw [weight_strip, weight_append]
    exact weight_unwrapBlock_le hunwrap

/-- **The parts of a function type are lighter than it.** -/
theorem weight_lt_of_ofSpelling {s f : Text} {parts : Parts} (h : ofSpelling s = .ok parts)
    (hf : f ∈ parts.spellings) : weight f < weight s := by
  obtain ⟨-, before, inner, hsplit, -, -, h⟩ := ofSpelling_eq_ok_iff.1 h
  obtain ⟨hfields, hreturns⟩ := weight_of_ofReturns h
  have hweight : weight s = weight before + (weight inner + weight [')'] + 1) := by
    rw [← weight_strip s, hsplit, weight_append, weight_cons_of_not isBlank_open, weight_append]
  rw [weight_strip] at hreturns
  rcases List.mem_append.1 hf with hf | hf
  · have := hfields f (List.mem_of_mem_filter hf)
    omega
  · rw [List.mem_singleton.1 hf]
    omega

end Parts

/-! ## Pointers and arrays -/

namespace Reading

theorem sizeGroupsAfter_sublist (skip : Nat) (s : Text) : (sizeGroupsAfter skip s).Sublist s := by
  induction s generalizing skip with
  | nil => simp [sizeGroupsAfter]
  | cons c rest ih =>
    cases skip with
    | succ skip => exact (ih skip).cons_cons c
    | zero =>
      unfold sizeGroupsAfter
      split
      · exact (ih _).cons_cons c
      · exact List.nil_sublist _

theorem head?_sizeGroups {s : Text} (h : sizeGroups s ≠ []) : (sizeGroups s).head? = some '[' := by
  rw [sizeGroups] at *
  cases s with
  | nil => simp [sizeGroupsAfter] at h
  | cons c rest =>
    rw [sizeGroupsAfter] at *
    cases hdigits : groupDigits? (c :: rest) with
    | none => simp [hdigits] at h
    | some digits =>
      rw [groupDigits?.eq_def] at hdigits
      split at hdigits
      · next heq =>
        cases heq
        rfl
      · cases hdigits

/-- The element of an array with sizes leaves at least one bracket out. -/
theorem weight_lt_of_sizedArray? {s element groups : Text}
    (h : sizedArray? s = some (element, groups)) : weight element < weight s := by
  induction s with
  | nil => simp [sizedArray?] at h
  | cons c rest ih =>
    rw [sizedArray?] at h
    split_ifs at h with hfound
    · cases h
      have hne : sizeGroups ((c :: rest).dropWhile isElementChar) ≠ [] := by
        intro hnil
        simp [hnil] at hfound
      obtain ⟨after, hafter⟩ := List.head?_eq_some_iff.1 (head?_sizeGroups hne)
      have hgroups := weight_le_of_sublist
        (sizeGroupsAfter_sublist 0 ((c :: rest).dropWhile isElementChar))
      unfold sizeGroups at hafter
      rw [hafter, weight_cons_of_not isBlank_bracket] at hgroups
      have hsplit : weight (c :: rest) = weight ((c :: rest).takeWhile isElementChar) +
          weight ((c :: rest).dropWhile isElementChar) := by
        rw [← weight_append, List.takeWhile_append_dropWhile]
      omega
    · exact (ih h).trans_le (weight_le_of_sublist (List.sublist_cons_self c rest))

end Reading

end CSpelling

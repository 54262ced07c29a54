import CSpelling.Proofs.Parentheses
import Mathlib.Order.Bounds.Basic

/-!
# The parenthesis that opens another

`openIndex` reads a text backwards from a closing parenthesis and counts those that are still open.
What it finds can be told from the counts alone, without an order of reading: the parenthesis is
opened at the last index from where on as many are opened as are closed (`openIndex_exact`).

It is found in front of a balanced text (`openIndex_eq_some_iff`), and where none is found, more are
closed than opened in every text that ends there (`count_lt_of_openIndex_eq_none`).
-/

namespace CSpelling

open Text

variable {t : Text} {c i : Nat}

/-- The characters from the index `i` to the index `c`. -/
def Text.between (t : Text) (i c : Nat) : Text := (t.take (c + 1)).drop i

/-- From the index `i` to the index `c`, as many parentheses are opened as are closed. -/
def LevelFrom (t : Text) (c i : Nat) : Prop :=
  i ≤ c ∧ (t.between i c).count '(' = (t.between i c).count ')'

/-! ## Reading backwards -/

/-- Where no parenthesis is found, no more are opened than are closed. -/
theorem count_le_of_openBefore_eq_none {depth : Nat} {l : Text}
    (h : openBefore (depth + 1) l = none) {v : Text} (hv : v <+: l) :
    v.count '(' ≤ v.count ')' + depth := by
  induction l generalizing depth v with
  | nil =>
    rw [List.prefix_nil.1 hv]
    exact Nat.zero_le _
  | cons d rest ih =>
    cases v with
    | nil => exact Nat.zero_le _
    | cons e v =>
      obtain ⟨rfl, hrest⟩ := List.cons_prefix_cons.1 hv
      rw [openBefore] at h
      split_ifs at h with hclose hopen hlast
      · subst hclose
        have := ih h hrest
        rw [List.count_cons_self, List.count_cons_of_ne (by decide)]
        omega
      · subst hopen
        obtain ⟨n, rfl⟩ : ∃ n, depth = n + 1 := ⟨depth - 1, by omega⟩
        have := ih h hrest
        rw [List.count_cons_self, List.count_cons_of_ne (by decide)]
        omega
      · rw [List.count_cons_of_ne hopen, List.count_cons_of_ne hclose]
        exact ih h hrest

/-- A closing parenthesis is the last of the text up to it. -/
theorem take_succ_of_close (hc : t[c]? = some ')') : t.take (c + 1) = t.take c ++ [')'] := by
  rw [List.take_add_one, hc, Option.toList_some]

theorem openIndex_eq_lastOpenIndex (hc : t[c]? = some ')') :
    openIndex t c = lastOpenIndex (t.take (c + 1)) := by
  obtain ⟨hlength, -⟩ := List.getElem?_eq_some_iff.1 hc
  have hlast : (t.take (c + 1)).length - 1 = c := by
    rw [List.length_take]
    omega
  rw [lastOpenIndex, hlast, openIndex, openIndex, List.take_take, min_self]

/-! ## What is found -/

/-- The parenthesis is opened in front of a balanced text. -/
theorem openIndex_eq_some_iff (hc : t[c]? = some ')') : openIndex t c = some i ↔
    ∃ before inner, t.take (c + 1) = before ++ '(' :: (inner ++ [')']) ∧ Balanced inner ∧
      i = before.length := by
  rw [openIndex_eq_lastOpenIndex hc]
  constructor
  · exact exists_of_lastOpenIndex (by rw [take_succ_of_close hc, List.getLast?_concat])
  · rintro ⟨before, inner, hsplit, hbalanced, rfl⟩
    rw [hsplit, lastOpenIndex_append before hbalanced]

/-- **Where the parenthesis is never opened, more are closed than opened** from every index on. -/
theorem count_lt_of_openIndex_eq_none (hc : t[c]? = some ')') (h : openIndex t c = none)
    (hi : i ≤ c) : (t.between i c).count '(' < (t.between i c).count ')' := by
  rw [openIndex_eq_lastOpenIndex hc, take_succ_of_close hc, lastOpenIndex_concat] at h
  obtain ⟨hlength, -⟩ := List.getElem?_eq_some_iff.1 hc
  have hbetween : t.between i c = (t.take c).drop i ++ [')'] := by
    rw [between, take_succ_of_close hc, List.drop_append_of_le_length]
    rw [List.length_take]
    omega
  have hback : ((t.take c).drop i).reverse <+: (t.take c).reverse :=
    List.reverse_prefix.2 (List.drop_suffix i _)
  have hcount := count_le_of_openBefore_eq_none h hback
  rw [List.count_reverse, List.count_reverse] at hcount
  have hopen : [')'].count '(' = 0 := by decide
  rw [hbetween, List.count_append, List.count_append, List.count_singleton_self, hopen]
  omega

/-! ## Between two parentheses -/

section Group

variable {inner : Text}

/-- Behind the parenthesis that opens a balanced text, more are opened than closed until the end. -/
theorem count_lt_of_prefix_group (hinner : Balanced inner) {u : Text}
    (hu : u <+: '(' :: (inner ++ [')'])) (hne : u ≠ []) (hproper : u ≠ '(' :: (inner ++ [')'])) :
    u.count ')' < u.count '(' := by
  obtain ⟨d, v, rfl⟩ := List.exists_cons_of_ne_nil hne
  obtain ⟨rfl, hv⟩ := List.cons_prefix_cons.1 hu
  have hinside : v <+: inner := by
    rcases List.prefix_concat_iff.1 hv with rfl | hv
    · exact absurd rfl hproper
    · exact hv
  rw [List.count_cons_self, List.count_cons_of_ne (by decide)]
  exact Nat.lt_succ_of_le (hinner.upTo v hinside)

/-- In front of the parenthesis that closes a balanced text, more are closed than opened from the
beginning. -/
theorem count_lt_of_suffix_group (hinner : Balanced inner) {u v : Text}
    (hsplit : '(' :: (inner ++ [')']) = u ++ v) (hu : u ≠ []) (hv : v ≠ []) :
    v.count '(' < v.count ')' := by
  have hfront : u.count ')' < u.count '(' := by
    refine count_lt_of_prefix_group hinner ⟨v, hsplit.symm⟩ hu fun heq => hv ?_
    rwa [← heq, List.self_eq_append_right] at hsplit
  have htotal : (u ++ v).count '(' = (u ++ v).count ')' := by
    rw [← hsplit]
    simp [hinner.total]
  rw [List.count_append, List.count_append] at htotal
  omega

end Group

/-! ## Exactness -/

/-- **The index that is found is the last from where on as many parentheses are opened as are
closed.** -/
theorem isGreatest_of_openIndex (hc : t[c]? = some ')') (h : openIndex t c = some i) :
    IsGreatest {j | LevelFrom t c j} i := by
  obtain ⟨before, inner, hsplit, hinner, rfl⟩ := (openIndex_eq_some_iff hc).1 h
  have hfrom (k : Nat) :
      t.between (before.length + k) c = ('(' :: (inner ++ [')'])).drop k := by
    rw [between, hsplit, ← List.drop_drop, List.drop_left]
  have hgroup : ('(' :: (inner ++ [')'])).length = inner.length + 2 := by simp
  have hlength : before.length + (inner.length + 2) = c + 1 := by
    obtain ⟨hc, -⟩ := List.getElem?_eq_some_iff.1 hc
    rw [← hgroup, ← List.length_append, ← hsplit, List.length_take]
    omega
  refine ⟨⟨by omega, ?_⟩, fun j hj => ?_⟩
  · have hlevel := hfrom 0
    rw [Nat.add_zero, List.drop_zero] at hlevel
    rw [hlevel]
    simp [hinner.total]
  · by_contra hlater
    obtain ⟨k, rfl⟩ : ∃ k, j = before.length + (k + 1) := ⟨j - before.length - 1, by omega⟩
    have hjc : before.length + (k + 1) ≤ c := hj.1
    -- The opening parenthesis stands in front of the later index, the closing one behind it.
    have hrest : ('(' :: (inner ++ [')'])).drop (k + 1) ≠ [] := by
      rw [Ne, List.drop_eq_nil_iff, hgroup]
      omega
    have hless := count_lt_of_suffix_group hinner (List.take_append_drop (k + 1) _).symm
      (by simp) hrest
    rw [← hfrom] at hless
    exact hless.ne hj.2

/-- A parenthesis opens at the index that is found, and up to the closing one more are opened than
are closed. -/
theorem opens_of_openIndex (hc : t[c]? = some ')') (h : openIndex t c = some i) :
    t[i]? = some '(' ∧
      ∀ u, u <+: t.between i c → u ≠ [] → u ≠ t.between i c → u.count ')' < u.count '(' := by
  obtain ⟨before, inner, hsplit, hinner, rfl⟩ := (openIndex_eq_some_iff hc).1 h
  have hbetween : t.between before.length c = '(' :: (inner ++ [')']) := by
    rw [between, hsplit, List.drop_left]
  refine ⟨?_, fun u hu hne hproper => ?_⟩
  · have hopen : t.take (c + 1) <+: t := List.take_prefix _ _
    rw [hsplit] at hopen
    obtain ⟨after, rfl⟩ := hopen
    simp
  · rw [hbetween] at hu hproper
    exact count_lt_of_prefix_group hinner hu hne hproper

/-- **Matching backwards is exact.** In any text, the index that is found for a closing parenthesis
is the last from where on as many are opened as are closed; a parenthesis opens there, and up to the
closing one more are opened than closed. No index is found exactly if there is none like that. -/
theorem openIndex_exact (hc : t[c]? = some ')') :
    (∀ i, openIndex t c = some i ↔ IsGreatest {j | LevelFrom t c j} i) ∧
      (∀ i, openIndex t c = some i → t[i]? = some '(' ∧
        ∀ u, u <+: t.between i c → u ≠ [] → u ≠ t.between i c → u.count ')' < u.count '(') ∧
      (openIndex t c = none ↔ ∀ i, ¬LevelFrom t c i) := by
  have hnone (h : openIndex t c = none) (i : Nat) : ¬LevelFrom t c i := fun hlevel =>
    (count_lt_of_openIndex_eq_none hc h hlevel.1).ne hlevel.2
  refine ⟨fun i => ⟨isGreatest_of_openIndex hc, fun h => ?_⟩, fun i => opens_of_openIndex hc,
    hnone, fun h => ?_⟩
  · cases hindex : openIndex t c with
    | none => exact absurd h.1 (hnone hindex i)
    | some j => rw [(isGreatest_of_openIndex hc hindex).unique h]
  · cases hindex : openIndex t c with
    | none => rfl
    | some j => exact absurd (isGreatest_of_openIndex hc hindex).1 (h j)

/-- A text in which the first closing parenthesis is never opened, and the last one is. -/
theorem openIndex_exact_unbalanced :
    let t := "f)(g(h))".toList
    t[7]? = some ')' ∧ t[1]? = some ')' ∧ IsGreatest {j | LevelFrom t 7 j} 2 ∧
      ∀ i, ¬LevelFrom t 1 i := by
  intro t
  have hlast : t[7]? = some ')' := rfl
  have hfirst : t[1]? = some ')' := rfl
  exact ⟨hlast, hfirst, ((openIndex_exact hlast).1 2).1 (by decide),
    (openIndex_exact hfirst).2.2.1 (by decide)⟩

end CSpelling

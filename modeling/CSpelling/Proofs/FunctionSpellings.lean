import CSpelling.Proofs.Joining
import CSpelling.Proofs.Splitting

/-!
# Spellings of function types

A function type is written as a returned type, a block of stars or none, and its parameters in
parentheses. The spelling is normal but for the spaces that stars and brackets call for behind the
parentheses (`normalize_functionPointer`, `normalize_signature`), it is read as a function type
(`ofSpelling_of_isFunction`), and it is split into what it was written from
(`ofSpelling_functionPointer`, `ofSpelling_signature`, `filter_topFields`).

The returned type may be any normal spelling. Its parentheses need not match, since the splitting
goes from the end of the text to the parenthesis in front of the parameters, and from there to that
in front of the block.
-/

namespace CSpelling.FunctionTypes

open Text CSpelling.Normal

/-! ## Spellings -/

/-- A function type with the stars of a pointer to it. -/
def functionPointer (returns : Text) (stars : Nat) (params : List Text) : Text :=
  returns ++ ' ' :: '(' :: (List.replicate stars '*' ++
    ')' :: '(' :: (listSeparator.intercalate params ++ [')']))

/-- A function type without a block. -/
def signature (returns : Text) (params : List Text) : Text :=
  returns ++ ' ' :: '(' :: (listSeparator.intercalate params ++ [')'])

/-- A spelling that function types are put together from: normal, and nothing is looked for in
it. -/
structure IsComponent (s : Text) : Prop where
  /-- There is something. -/
  ne_nil : s ≠ []
  /-- The spelling is normal. -/
  normal : normalize s = s
  /-- There is no colon. -/
  colon : ':' ∉ s
  /-- The texts of system headers do not occur. -/
  free : FreeOf s

/-- A spelling that may stand for a parameter. -/
structure IsParameter (s : Text) : Prop extends IsComponent s where
  /-- It is one field. -/
  field : IsField s
  /-- It is more than a star, which would make a marker. -/
  star : s ≠ ['*']

theorem IsComponent.isNormal {s : Text} (h : IsComponent s) : IsNormal s :=
  isNormal_of_normalize h.normal

variable {params : List Text} {s : Text}

/-! ## Joined parameters -/

/-- What goes from texts to their join goes from the parameters to all of them. -/
theorem join_induction {P : Text → Prop} {p : Text} {rest : List Text}
    (hitem : ∀ q ∈ p :: rest, P q) (hjoin : ∀ a b, P a → P b → P (a ++ ',' :: ' ' :: b)) :
    P (listSeparator.intercalate (p :: rest)) := by
  induction rest generalizing p with
  | nil =>
    rw [List.intercalate_singleton]
    exact hitem p (by simp)
  | cons q rest ih =>
    have hcons : listSeparator.intercalate (p :: q :: rest) =
        p ++ ',' :: ' ' :: listSeparator.intercalate (q :: rest) := by
      rw [List.intercalate_cons_cons, listSeparator, List.append_assoc]
      rfl
    rw [hcons]
    exact hjoin p _ (hitem p (by simp)) (ih fun r hr => hitem r (List.mem_cons_of_mem _ hr))

/-- Normal texts with a comma and a space between them are a normal text. -/
theorem isNormal_join {a b : Text} (ha : IsNormal a) (hane : a ≠ []) (hb : IsNormal b)
    (hbne : b ≠ []) : IsNormal (a ++ ',' :: ' ' :: b) := by
  obtain ⟨htrimmed, hcontrols, hwords, hplaced⟩ := isNormal_iff_placed.1 hb
  obtain ⟨c, rest, rfl⟩ := List.exists_cons_of_ne_nil hbne
  have hc : c ≠ ' ' := by
    rintro rfl
    have := htrimmed.start ' ' rfl
    simp at this
  have hcomma : (marks (',' :: ' ' :: c :: rest)).head? = some ',' := by
    rw [marks_cons_of_not isBlank_comma]
    rfl
  refine ha.append hane (startsWord_cons ',' _) ⟨by simp, by simp, ?_, ?_, ?_⟩ ?_ ?_ ?_
    ⟨placed_of_plain (by decide) (by simp) (by simp), placed_space hc, hplaced⟩
  · rw [hcomma]
    exact fun h => absurd h (by decide)
  · exact fun h => absurd (List.cons_prefix_cons.1 h).1 (by decide)
  · rw [hcomma]
    exact fun h => absurd h (by decide)
  · intro d hd
    rw [List.getLast?_cons_of_ne_nil (by simp), List.getLast?_cons_of_ne_nil (by simp)] at hd
    exact htrimmed.finish d hd
  · intro d hd
    rcases List.mem_cons.1 hd with rfl | hd
    · decide
    rcases List.mem_cons.1 hd with rfl | hd
    · decide
    · exact hcontrols d hd
  · exact words_append (a := [',', ' ']) (t := c :: rest) (fun h => absurd h (by decide))
      (words_of_forall (by decide)) hwords

theorem eq_of_marks_singleton {c : Char} (h : Trimmed s) (hmarks : marks s = [c]) : s = [c] := by
  cases s with
  | nil => cases hmarks
  | cons d rest =>
    rw [marks_cons_of_not (h.start d rfl), List.cons.injEq] at hmarks
    obtain ⟨rfl, hrest⟩ := hmarks
    cases rest with
    | nil => rfl
    | cons e tail =>
      have hblank := marks_eq_nil_iff.1 hrest _ (List.getLast_mem (List.cons_ne_nil e tail))
      have := h.finish ((e :: tail).getLast (List.cons_ne_nil e tail)) (by
        rw [List.getLast?_cons_of_ne_nil (by simp), List.getLast?_eq_some_getLast (by simp)]
        rfl)
      simp [this] at hblank

/-- What stands between the parentheses of arguments. -/
structure IsInner (inner : Text) : Prop where
  /-- It is normal. -/
  normal : IsNormal inner
  /-- Its parentheses match each other. -/
  balanced : Balanced inner
  /-- It makes no marker with the parentheses around it. -/
  marker : ¬['*', ')'] <+: marks (inner ++ [')'])
  /-- There is no colon. -/
  colon : ':' ∉ inner
  /-- The texts of system headers do not occur. -/
  free : FreeOf inner

/-- Balanced parentheses do not begin with a closing one, so only a single star makes a marker. -/
theorem not_prefix_marks (hnormal : IsNormal s) (hbalanced : Balanced s) (hstar : s ≠ ['*']) :
    ¬['*', ')'] <+: marks (s ++ [')']) := by
  intro hpre
  rw [marks_append] at hpre
  rcases prefix_pair_append hpre with h | ⟨h, -⟩ | ⟨-, h⟩
  · obtain ⟨after, hafter⟩ := exists_afterMarker? h
    obtain ⟨u, v, rfl, hu, hv⟩ := afterMarker?_eq_some_iff.1 hafter
    have hgap {w : Text} (hw : IsGap w) : w.count '(' = 0 := List.count_eq_zero.2 fun hmem => by
      have := hw _ hmem
      simp at this
    have hcount := hbalanced.upTo (u ++ '*' :: (v ++ [')'])) ⟨after, by simp⟩
    simp [hgap hu, hgap hv] at hcount
  · exact hstar (eq_of_marks_singleton hnormal.trimmed h)
  · exact absurd h (by decide)

theorem isInner_intercalate (h : ∀ p ∈ params, IsParameter p) :
    IsInner (listSeparator.intercalate params) := by
  cases params with
  | nil =>
    exact ⟨isNormal_normalize [], Balanced.of_forall (by decide), by decide, by decide, FreeOf.nil⟩
  | cons p rest =>
    have hnormal : IsNormal (listSeparator.intercalate (p :: rest)) :=
      (join_induction (P := fun a => IsNormal a ∧ a ≠ [])
        (fun q hq => ⟨(h q hq).isNormal, (h q hq).ne_nil⟩)
        fun a b ha hb => ⟨isNormal_join ha.1 ha.2 hb.1 hb.2, by simp⟩).1
    have hbalanced : Balanced (listSeparator.intercalate (p :: rest)) :=
      join_induction (fun q hq => (h q hq).field.balanced) fun a b ha hb =>
        ha.append ((Balanced.of_forall (s := [',', ' ']) (by decide)).append hb)
    refine ⟨hnormal, hbalanced, not_prefix_marks hnormal hbalanced ?_, ?_, ?_⟩
    · cases rest with
      | nil =>
        rw [List.intercalate_singleton]
        exact (h p (by simp)).star
      | cons q rest =>
        intro hstar
        have hcomma : ',' ∈ listSeparator.intercalate (p :: q :: rest) := by
          rw [List.intercalate_cons_cons]
          simp [listSeparator]
        rw [hstar] at hcomma
        exact absurd hcomma (by decide)
    · exact join_induction (P := fun a => ':' ∉ a) (fun q hq => (h q hq).colon)
        fun a b ha hb => by simp [ha, hb]
    · exact join_induction (fun q hq => (h q hq).free) fun a b ha hb =>
        ha.append_cons (by simp) hb.cons_space

/-! ## Normal forms -/

/-- What stands between parentheses, with the space that stars and brackets call for behind the
opening one. -/
def inset (inner : Text) : Text := lead '[' (lead '*' inner)

/-- The stars of a block, with the space that two of them call for. -/
def block : Nat → Text
  | 0 => ['*']
  | k + 1 => ' ' :: List.replicate (k + 2) '*'

variable {inner returns : Text}

/-- A parenthesis is in place in front of everything that makes no marker with it, up to a missing
space. -/
theorem settled_open {rest : Text} (h : ['*', ')'] <+: marks rest → ['*', ')'] <+: rest) :
    Settled '(' rest :=
  ⟨fun hc => absurd hc (by decide), fun hc => absurd hc (by decide),
    fun hc => absurd hc (by decide), fun _ => h⟩

theorem along_placed_closed (h : IsInner inner) : Along Placed (inner ++ [')']) := by
  obtain ⟨htrimmed, -, -, hplaced⟩ := isNormal_iff_placed.1 h.normal
  have hjoins : Joins inner [')'] := by
    refine ⟨by decide, by decide, fun hstar => absurd hstar (by decide),
      fun hpre => absurd hpre (by decide), fun _ before rest hsplit hmarks => ?_⟩
    -- The parenthesis in front of a single star would not be closed.
    have hcount (c : Char) (hc : isBlank c = false) (hne : c ≠ '*') : rest.count c = 0 := by
      refine List.count_eq_zero.2 fun hmem => hne ?_
      have := mem_marks.2 ⟨hmem, hc⟩
      rw [hmarks] at this
      exact List.mem_singleton.1 this
    have htotal := h.balanced.total
    have hbefore := h.balanced.upTo before ⟨_, hsplit.symm⟩
    rw [hsplit] at htotal
    simp [hcount '(' isBlank_open (by decide), hcount ')' isBlank_close (by decide)] at htotal
    omega
  exact along_append.2 ⟨along_placed_append hplaced htrimmed.finish hjoins,
    placed_of_plain (by decide) (by simp) (by simp), trivial⟩

theorem along_settled_of_placed (h : Along Placed s) : Along Settled s :=
  h.imp fun _ _ hc => hc.settled

theorem pad_of_along_placed (h : Along Placed s) : pad needsSpace s = s := by
  obtain ⟨hstar, hbracket, -⟩ := along_placed_iff.1 h
  exact pad_of_along ((hstar.and hbracket).imp fun c rest hc => needsSpace_eq_false_iff.2 hc)

/-- Arguments are in place, up to the space behind their parenthesis. -/
theorem along_settled_arguments (h : IsInner inner) : Along Settled ('(' :: (inner ++ [')'])) :=
  ⟨settled_open fun hpre => absurd hpre h.marker, along_settled_of_placed (along_placed_closed h)⟩

theorem pad_arguments (h : IsInner inner) :
    pad needsSpace ('(' :: (inner ++ [')'])) = '(' :: (inset inner ++ [')']) := by
  have hclosed := pad_of_along_placed (along_placed_closed h)
  by_cases hstar : inner.head? = some '*'
  · obtain ⟨tail, rfl⟩ := List.head?_eq_some_iff.1 hstar
    have hneeds : needsSpace '(' ('*' :: tail ++ [')']) = true := by
      have htail : (tail ++ [')']).head? ≠ some ')' := by
        intro hclose
        obtain ⟨after, hafter⟩ := List.head?_eq_some_iff.1 hclose
        exact h.marker (by simp [List.cons_append, marks_cons_of_not, hafter])
      simpa [needsSpace] using htail
    rw [pad_cons_of_pos hneeds, hclosed, inset, lead, lead]
    simp
  · by_cases hbracket : inner.head? = some '['
    · obtain ⟨tail, rfl⟩ := List.head?_eq_some_iff.1 hbracket
      have hneeds : needsSpace '(' ('[' :: tail ++ [')']) = true := by simp [needsSpace]
      rw [pad_cons_of_pos hneeds, hclosed, inset, lead, lead]
      simp
    · have hneeds : needsSpace '(' (inner ++ [')']) = false := by
        cases inner with
        | nil => rfl
        | cons c rest => simp_all [needsSpace]
      rw [pad_cons_of_neg hneeds, hclosed, inset, lead, if_neg, lead, if_neg hstar]
      rwa [lead, if_neg hstar]

/-- What is in place behind a component and a space, up to missing spaces. -/
theorem along_settled_append (hs : IsNormal s) {rest : Text} (h : Along Settled ('(' :: rest)) :
    Along Settled (s ++ ' ' :: '(' :: rest) ∧
      pad needsSpace (s ++ ' ' :: '(' :: rest) = s ++ ' ' :: pad needsSpace ('(' :: rest) := by
  obtain ⟨htrimmed, -, -, hplaced⟩ := isNormal_iff_placed.1 hs
  have hmarks : (marks (' ' :: '(' :: rest)).head? = some '(' := by
    rw [marks_cons_of_blank isBlank_space, marks_cons_of_not isBlank_open]
    rfl
  have hjoins : Joins s (' ' :: '(' :: rest) := by
    refine ⟨by simp, by simp, ?_, fun hpre => ?_, ?_⟩
    · rw [hmarks]
      exact fun h => absurd h (by decide)
    · exact absurd (List.cons_prefix_cons.1 (List.cons_prefix_cons.1 hpre).2).1 (by decide)
    · rw [hmarks]
      exact fun h => absurd h (by decide)
  have halong := along_placed_append hplaced htrimmed.finish hjoins
  have hspace : Placed ' ' ('(' :: rest) := placed_space (by decide)
  have hneeds : needsSpace ' ' ('(' :: rest) = false :=
    needsSpace_eq_false_iff.2 ⟨hspace.star, hspace.bracket⟩
  refine ⟨along_append.2 ⟨halong.imp fun _ _ hc => hc.settled, hspace.settled, h⟩, ?_⟩
  have hfront := halong.imp fun _ _ hc => needsSpace_eq_false_iff.2 ⟨hc.star, hc.bracket⟩
  rw [pad_append_of_along hfront, pad_cons_of_neg hneeds]

/-- A block is in place in front of arguments, up to the space before two stars. -/
theorem along_settled_block {rest : Text} (k : Nat) (h : Along Settled ('(' :: rest)) :
    Along Settled ('(' :: (List.replicate (k + 1) '*' ++ ')' :: '(' :: rest)) ∧
      pad needsSpace ('(' :: (List.replicate (k + 1) '*' ++ ')' :: '(' :: rest)) =
        '(' :: (block k ++ ')' :: pad needsSpace ('(' :: rest)) := by
  have hclose : Placed ')' ('(' :: rest) := placed_of_plain (by decide) (by simp) (by simp)
  have hstar (n : Nat) : Placed '*' (List.replicate n '*' ++ ')' :: '(' :: rest) := by
    refine ⟨fun _ => .inl rfl, fun _ hmarks => ?_, fun hb => ?_, fun hc => absurd hc (by decide),
      fun hc => absurd hc (by decide), fun hc => absurd hc (by decide)⟩
    · cases n with
      | zero => simp [marks_cons_of_not] at hmarks
      | succ n => rfl
    · cases n <;> simp [List.replicate_succ] at hb
  have hstars (n : Nat) : Along Settled (List.replicate n '*' ++ ')' :: '(' :: rest) ∧
      pad needsSpace (List.replicate n '*' ++ ')' :: '(' :: rest) =
        List.replicate n '*' ++ ')' :: pad needsSpace ('(' :: rest) := by
    induction n with
    | zero =>
      exact ⟨⟨hclose.settled, h⟩,
        pad_cons_of_neg (needsSpace_eq_false_iff.2 ⟨hclose.star, hclose.bracket⟩)⟩
    | succ n ih =>
      refine ⟨⟨(hstar n).settled, ih.1⟩, ?_⟩
      rw [List.replicate_succ, List.cons_append,
        pad_cons_of_neg (needsSpace_eq_false_iff.2 ⟨(hstar n).star, (hstar n).bracket⟩), ih.2]
      rfl
  cases k with
  | zero =>
    refine ⟨⟨settled_open fun _ => by simp, (hstars 1).1⟩, ?_⟩
    rw [pad_cons_of_neg (by simp [needsSpace]), (hstars 1).2]
    rfl
  | succ k =>
    refine ⟨⟨settled_open fun hpre => ?_, (hstars (k + 2)).1⟩, ?_⟩
    · simp [List.replicate_succ, marks_cons_of_not] at hpre
    · rw [pad_cons_of_pos (by simp [needsSpace, List.replicate_succ]), (hstars (k + 2)).2]
      rfl

theorem trimmed_closed (hs : IsNormal s) (hne : s ≠ []) (middle : Text) :
    Trimmed (s ++ middle ++ [')']) := by
  refine ⟨?_, fun c hc => ?_⟩
  · rw [List.append_assoc, List.head?_append_of_ne_nil _ hne]
    exact hs.trimmed.start
  · rw [List.getLast?_concat] at hc
    obtain rfl : ')' = c := Option.some.inj hc
    exact isBlank_close

/-- If all is in place up to missing spaces, a function type only gets these. -/
theorem normalize_of_settled (hs : IsNormal s) (hne : s ≠ []) (h : IsInner inner) (front : Text)
    (hfront : ∀ c ∈ front, c ∈ ['(', ')', '*'])
    (hplaces : Along Settled (s ++ ' ' :: (front ++ '(' :: (inner ++ [')'])))) :
    normalize (s ++ ' ' :: (front ++ '(' :: (inner ++ [')']))) =
      pad needsSpace (s ++ ' ' :: (front ++ '(' :: (inner ++ [')']))) := by
  obtain ⟨-, hcontrols, hwords, -⟩ := isNormal_iff_placed.1 hs
  obtain ⟨-, hcontrols', hwords', -⟩ := isNormal_iff_placed.1 h.normal
  have hsplit : ' ' :: (front ++ '(' :: (inner ++ [')'])) =
      (' ' :: front ++ ['(']) ++ (inner ++ [')']) := by simp
  have hmid : ∀ c ∈ ' ' :: front ++ ['('], c ∈ [' ', '(', ')', '*'] := by
    intro c hc
    rcases List.mem_append.1 hc with hc | hc
    · rcases List.mem_cons.1 hc with rfl | hc
      · simp
      · exact List.mem_cons_of_mem _ (hfront c hc)
    · simp [List.mem_singleton.1 hc]
  have hcontrol : ∀ c ∈ [' ', '(', ')', '*'], isControl c = false := by decide
  have halpha : ∀ c ∈ [' ', '(', ')', '*'], c.isAlpha = false := by decide
  have htidy : Tidy (s ++ ' ' :: (front ++ '(' :: (inner ++ [')']))) := by
    refine ⟨fun c hc => ?_, words_append (fun _ => startsWord_cons ' ' _) hwords ?_, hplaces⟩
    · rw [hsplit] at hc
      rcases List.mem_append.1 hc with hc | hc
      · exact hcontrols c hc
      rcases List.mem_append.1 hc with hc | hc
      · exact hcontrol c (hmid c hc)
      rcases List.mem_append.1 hc with hc | hc
      · exact hcontrols' c hc
      · exact hcontrol c (by simp [List.mem_singleton.1 hc])
    · have hends : endsWord (' ' :: front ++ ['(']) = false := by
        rw [endsWord, List.getLast?_concat]
        decide
      rw [hsplit]
      refine words_append (fun hend => absurd (hends.symm.trans hend) Bool.false_ne_true)
        (words_of_forall fun c hc => halpha c (hmid c hc))
        (words_append (fun _ => by decide) hwords' (words_of_forall (by decide)))
  have hends : Trimmed (s ++ ' ' :: (front ++ '(' :: (inner ++ [')']))) := by
    rw [hsplit, ← List.append_assoc, ← List.append_assoc, List.append_assoc s]
    exact trimmed_closed hs hne _
  rw [normalize_of_tidy htidy, strip_pad hends]

/-- The normal spelling of a function type without a block. -/
theorem normalize_signature (hs : IsNormal s) (hne : s ≠ []) (h : IsInner inner) :
    normalize (s ++ ' ' :: '(' :: (inner ++ [')'])) =
      s ++ ' ' :: '(' :: (inset inner ++ [')']) := by
  obtain ⟨hplaces, hpad⟩ := along_settled_append hs (along_settled_arguments h)
  rw [pad_arguments h] at hpad
  exact (normalize_of_settled hs hne h [] (by simp) hplaces).trans hpad

/-- The normal spelling of a function type with a block. -/
theorem normalize_functionPointer (hs : IsNormal s) (hne : s ≠ []) (h : IsInner inner) (k : Nat) :
    normalize (s ++ ' ' :: '(' :: (List.replicate (k + 1) '*' ++ ')' :: '(' :: (inner ++ [')']))) =
      s ++ ' ' :: '(' :: (block k ++ ')' :: '(' :: (inset inner ++ [')'])) := by
  obtain ⟨hblock, hpadBlock⟩ := along_settled_block k (along_settled_arguments h)
  obtain ⟨hplaces, hpad⟩ := along_settled_append hs hblock
  rw [hpadBlock, pad_arguments h] at hpad
  have hfront : ∀ c ∈ '(' :: (List.replicate (k + 1) '*' ++ [')']), c ∈ ['(', ')', '*'] := by
    intro c hc
    rcases List.mem_cons.1 hc with rfl | hc
    · simp
    rcases List.mem_append.1 hc with hc | hc
    · simp [List.eq_of_mem_replicate hc]
    · simp [List.mem_singleton.1 hc]
  have hsplit : '(' :: (List.replicate (k + 1) '*' ++ [')']) ++ '(' :: (inner ++ [')']) =
      '(' :: (List.replicate (k + 1) '*' ++ ')' :: '(' :: (inner ++ [')'])) := by simp
  rw [← hpad, ← hsplit]
  exact normalize_of_settled hs hne h _ hfront (by rw [hsplit]; exact hplaces)

/-! ## Readings -/

/-- The arguments make no marker with their parentheses. -/
theorem IsInner.not_marker_inset (h : IsInner inner) : ¬['*', ')'] <+: inset inner ++ [')'] := by
  rintro ⟨after, hafter⟩
  refine h.marker ⟨marks after, ?_⟩
  have hmarks : marks (inset inner) = marks inner := by
    unfold inset lead
    split_ifs <;> simp [marks_cons_of_blank]
  rw [marks_append, ← hmarks, ← marks_append, ← hafter, marks_append]
  rfl

/-- A text with a parenthesis, in which nothing else is looked for, is a function type if it is one
at all: no name of the registry and of the tables holds a parenthesis. -/
theorem ofSpelling_of_isFunction {reg : Registry} (hreg : reg.Without '(') (unwind : Bool)
    {spelling : Text} (hcolon : ':' ∉ spelling) (hs : normalize spelling = s) (hopen : '(' ∈ s)
    (hfree : FreeOf s) (hfunction : isFunction s = true) :
    Reading.ofSpelling reg unwind spelling = .function s := by
  rw [Reading.ofSpelling_of_freeOf reg unwind hcolon hs (List.ne_nil_of_mem hopen) hfree,
    Reading.ofName?_of_mem hreg hopen (.inl rfl), if_pos hfunction]
  rfl

/-! ## Parts -/

theorem inset_eq (inner : Text) : inset inner = inner ∨ inset inner = ' ' :: inner := by
  unfold inset lead
  split_ifs <;> simp_all

theorem IsInner.balanced_inset (h : IsInner inner) : Balanced (inset inner) := by
  rcases inset_eq inner with heq | heq <;> rw [heq]
  · exact h.balanced
  · exact (Balanced.of_forall (s := [' ']) (by decide)).append h.balanced

theorem IsInner.freeOf_inset (h : IsInner inner) : FreeOf (inset inner) := by
  rcases inset_eq inner with heq | heq <;> rw [heq]
  · exact h.free
  · exact h.free.cons_space

/-- **The fields of the arguments are the parameters**, but for the empty field that stands for
none. -/
theorem filter_topFields (h : ∀ p ∈ params, IsParameter p) :
    (topFields (inset (listSeparator.intercalate params))).filter (!·.isEmpty) = params := by
  cases params with
  | nil => rfl
  | cons p rest =>
    have hfirst : ∃ gap, IsGap gap ∧ IsField (gap ++ p) ∧
        inset (listSeparator.intercalate (p :: rest)) =
          listSeparator.intercalate ((gap ++ p) :: rest) := by
      have hp := (h p (by simp)).field
      rcases inset_eq (listSeparator.intercalate (p :: rest)) with heq | heq
      · exact ⟨[], isGap_nil, hp, heq⟩
      · refine ⟨[' '], isGap_space, hp.cons_space, heq.trans ?_⟩
        cases rest <;> simp [List.intercalate_cons_cons]
    obtain ⟨gap, hgap, hfield, heq⟩ := hfirst
    have hstrip (q : Text) (hq : q ∈ p :: rest) : strip q = q :=
      strip_of_trimmed (h q hq).isNormal.trimmed
    have hrest : (rest.map (' ' :: ·)).map strip = rest := by
      rw [List.map_map]
      conv_rhs => rw [← List.map_id rest]
      refine List.map_congr_left fun q hq => ?_
      exact (strip_gap_append isGap_space q).trans (hstrip q (by simp [hq]))
    rw [topFields, heq, fieldsWithin_intercalate hfield fun q hq => (h q (by simp [hq])).field,
      List.map_cons, hrest, strip_gap_append hgap, hstrip p (by simp), List.filter_eq_self]
    intro q hq
    simpa using (h q hq).ne_nil

theorem mem_block {c : Char} {k : Nat} (hc : c ∈ block k) : c = ' ' ∨ c = '*' := by
  cases k with
  | zero => exact .inr (List.mem_singleton.1 hc)
  | succ k => exact (List.mem_cons.1 hc).imp_right List.eq_of_mem_replicate

/-- A block of stars leaves all of them but one. -/
theorem strip_erase_block (k : Nat) : strip ((block k).erase '*') = List.replicate k '*' := by
  cases k with
  | zero => rfl
  | succ k =>
    have hmark : ∀ c ∈ List.replicate (k + 1) '*', isBlank c = false := fun c hc => by
      rw [List.eq_of_mem_replicate hc]
      exact isBlank_star
    have htrimmed : Trimmed (List.replicate (k + 1) '*') :=
      ⟨fun c hc => hmark c (List.mem_of_head? hc), fun c hc => hmark c (List.mem_of_getLast? hc)⟩
    have herase : (block (k + 1)).erase '*' = [' '] ++ List.replicate (k + 1) '*' := rfl
    rw [herase, strip_gap_append isGap_space, strip_of_trimmed htrimmed]

theorem IsComponent.strip_space (hs : IsComponent s) : strip (s ++ [' ']) = s :=
  (strip_append_gap isGap_space s).trans (strip_of_trimmed hs.isNormal.trimmed)

/-- The parts of a function type without a block. -/
theorem ofSpelling_signature (hs : IsComponent s) (hlast : s.getLast? ≠ some ')')
    (h : IsInner inner) :
    Parts.ofSpelling (s ++ ' ' :: '(' :: (inset inner ++ [')'])) =
      .ok ⟨[], topFields (inset inner), s⟩ := by
  have hparts := @Parts.ofSpelling_closed (s ++ [' ']) _ h.balanced_inset h.not_marker_inset
    (by rw [hs.strip_space]; exact hs.ne_nil) (by rwa [hs.strip_space])
  rw [hs.strip_space] at hparts
  simpa using hparts

/-- The parts of a function type with a block. -/
theorem ofSpelling_functionPointer (hs : IsComponent s) (h : IsInner inner) (k : Nat) :
    Parts.ofSpelling (s ++ ' ' :: '(' :: (block k ++ ')' :: '(' :: (inset inner ++ [')']))) =
      .ok ⟨List.replicate k '*', topFields (inset inner), s⟩ := by
  have hstars : ∀ c ∈ block k, c ≠ '(' ∧ c ≠ ')' := fun c hc => by
    rcases mem_block hc with rfl | rfl <;> decide
  have hparts := Parts.ofSpelling_blocked h.balanced_inset h.not_marker_inset hstars isGap_nil
    (s ++ [' '])
  rw [hs.strip_space, strip_erase_block] at hparts
  simpa using hparts

end CSpelling.FunctionTypes

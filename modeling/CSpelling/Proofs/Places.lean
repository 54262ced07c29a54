import CSpelling.Proofs.Dimensions
import CSpelling.Proofs.Names
import CSpelling.Proofs.Numerals

/-!
# Places of aggregates without a tag

An aggregate without a tag is named after its keyword and the place where it begins, whatever
stands in the name of its file. What normalising does to the file name is hard to say, but the two
ends stay: the keyword in front of it (`Aggregate.prefix_normalize_front`), and the line and the
column behind it (`suffix_marks_normalize`). So the name tells the keyword and the place
(`Aggregate.placeName_inj`), and a scan declares the name that the spelling of the type has
(`Source.placeName_consistent`).
-/

namespace CSpelling

open Text CSpelling.Normal

variable {a b s t w : Text} {c d e : Char}

/-! ## The beginning of a text -/

theorem prefix_strip (ha : Trimmed a) (hne : a ≠ []) (h : a <+: s) : a <+: strip s := by
  obtain ⟨t, rfl⟩ := h
  have hhead : ∀ c ∈ (a ++ t).head?, isBlank c = false := by
    rw [List.head?_append_of_ne_nil _ hne]
    exact ha.start
  have hlast : a.reverse.dropWhile isBlank = a.reverse :=
    dropWhile_of_head? (by simpa using ha.finish)
  rw [strip, dropWhile_of_head? hhead, dropEndWhile_eq, List.rdropWhile, List.reverse_append,
    List.dropWhile_append, ← List.reverse_suffix, List.reverse_reverse]
  split_ifs
  · rw [hlast]
  · exact hlast ▸ List.suffix_append _ _

namespace Normal

/-- Moving white space keeps a trimmed text at the beginning that has no marks and single spaces. -/
theorem prefix_respace (hmarks : ∀ c ∈ ['*', '[', ']', '('], c ∉ a) (hspaces : squeeze a = a)
    (ha : Trimmed a) (hne : a ≠ []) (h : a <+: s) : a <+: respace s := by
  obtain ⟨t, rfl⟩ := h
  have hlast : a.getLast? ≠ some ' ' := fun hspace => by
    simpa using ha.finish ' ' hspace
  rw [respace, spaceStars_append, spaceStars_of_not_mem (hmarks '*' (by simp)),
    closeStars_append_of_not_mem (hmarks '*' (by simp)), spaceBrackets_append,
    spaceBrackets_of_not_mem (hmarks '[' (by simp)), squeeze_append hlast, hspaces,
    joinGroups_append_of_not_mem (hmarks ']' (by simp)),
    closeMarkers_append_of_not_mem (hmarks '(' (by simp))]
  exact prefix_strip ha hne (List.prefix_append _ _)

theorem dropQualifiers_word (hw : IsWord w) (hq : w ∉ qualifiers) : dropQualifiers w = w :=
  dropQualifiers_of_not_mem fun q hmem hq' => hq (by
    rw [hw.tokens, List.mem_singleton] at hq'
    exact hq' ▸ hmem)

/-- A word at the beginning stays if no qualifier begins with it. -/
theorem prefix_dropQualifiers (hw : IsWord w) (hq : ∀ q ∈ qualifiers, ¬w <+: q) (h : w <+: s) :
    w <+: dropQualifiers s := by
  obtain ⟨t, rfl⟩ := h
  have hword : IsWord (w ++ t.takeWhile isWordChar) :=
    ⟨by simp [hw.ne_nil], fun c hc => (List.mem_append.1 hc).elim (hw.chars c)
      fun hc => List.mem_takeWhile_imp hc⟩
  have hnot : w ++ t.takeWhile isWordChar ∉ qualifiers := fun hmem =>
    hq _ hmem (List.prefix_append _ _)
  have hsplit : w ++ t = (w ++ t.takeWhile isWordChar) ++ t.dropWhile isWordChar := by
    rw [List.append_assoc, List.takeWhile_append_dropWhile]
  rw [hsplit, dropQualifiers_append fun _ => startsWord_dropWhile t,
    dropQualifiers_word hword hnot, List.append_assoc]
  exact List.prefix_append _ _

/-! ## The end of a text -/

/-- A word at the end stays if no qualifier ends with it. -/
theorem suffix_dropQualifiers (hw : IsWord w) (hq : ∀ q ∈ qualifiers, ¬w <:+ q) (h : w <:+ s) :
    w <:+ dropQualifiers s := by
  obtain ⟨t, rfl⟩ := h
  have hword : IsWord (t.rtakeWhile isWordChar ++ w) :=
    ⟨by simp [hw.ne_nil], fun c hc => (List.mem_append.1 hc).elim
      (fun hc => List.mem_rtakeWhile_imp hc) (hw.chars c)⟩
  have hnot : t.rtakeWhile isWordChar ++ w ∉ qualifiers := fun hmem =>
    hq _ hmem (List.suffix_append _ _)
  have hsplit : t ++ w = t.rdropWhile isWordChar ++ (t.rtakeWhile isWordChar ++ w) := by
    rw [← List.append_assoc, List.rdropWhile_append_rtakeWhile]
  rw [hsplit, dropQualifiers_append (by simp [endsWord_rdropWhile]),
    dropQualifiers_word hword hnot, ← List.append_assoc]
  exact List.suffix_append _ _

/-- Of the marks of a text normalising takes none but those of qualifiers, before and after the
control characters go. -/
theorem marks_normalize (s : Text) :
    marks (normalize s) = marks (dropQualifiers (dropControls (dropQualifiers s))) := by
  rw [normalize_eq, marks_once, ← flatten_tokens, tokens_dropQualifiers, once_eq_respace,
    tokens_respace, ← tokens_dropQualifiers, flatten_tokens]

end Normal

/-! ## Fronts -/

namespace Aggregate

/-- The beginning of the name of a place. -/
def opening (a : Aggregate) : Text := "__".toList ++ a.keyword ++ "_at_".toList

/-- The keyword, and the beginning of the name of a place behind it. -/
def front (a : Aggregate) : Text := a.keyword ++ ' ' :: a.opening

theorem prefix_once_front (a : Aggregate) (h : a.front <+: s) : a.front <+: once s := by
  obtain ⟨t, rfl⟩ := h
  have hword : IsWord a.opening ∧ (∀ q ∈ qualifiers, ¬a.opening <+: q) ∧
      dropQualifiers (a.keyword ++ [' ']) = a.keyword ++ [' '] ∧
      dropControls a.front = a.front := by
    cases a <;> decide +kernel
  obtain ⟨hopening, hq, hkeyword, hcontrols⟩ := hword
  have hsplit : a.front ++ t = (a.keyword ++ [' ']) ++ (a.opening ++ t) := by simp [front]
  have hends : endsWord (a.keyword ++ [' ']) = false := by cases a <;> decide
  have hdropped : a.front <+: dropQualifiers (a.front ++ t) := by
    have hrest := prefix_dropQualifiers hopening hq (List.prefix_append a.opening t)
    rw [hsplit, dropQualifiers_append (by simp [hends]), hkeyword, front,
      ← List.singleton_append, ← List.append_assoc]
    exact (List.prefix_append_right_inj _).2 hrest
  have hkept : a.front <+: dropControls (dropQualifiers (a.front ++ t)) := by
    have hfilter := hdropped.filter fun c => !isControl c
    rwa [← dropControls, ← dropControls, hcontrols] at hfilter
  rw [once_eq_respace]
  have htrimmed : Trimmed a.front := ⟨by cases a <;> decide, by cases a <;> decide⟩
  exact prefix_respace (by cases a <;> decide) (by cases a <;> decide) htrimmed (by simp [front])
    hkept

/-- **The keyword and the beginning of the name stay in front.** -/
theorem prefix_normalize_front (a : Aggregate) (h : a.front <+: s) : a.front <+: normalize s := by
  rw [normalize_eq]
  exact a.prefix_once_front (a.prefix_once_front h)

end Aggregate

/-! ## Ends -/

/-- The marks behind the file in the name of a place: one in front of the line and of the column,
and one behind them. -/
inductive PlaceMarks : Char → Char → Prop
  /-- The annotation is legalised as a whole. -/
  | legal : PlaceMarks '_' '_'
  /-- It is legalised up to a parenthesis in the name of the file. -/
  | colons : PlaceMarks 'D' ')'

/-- The line and the column of a place, each behind the mark. -/
def placeNumbers (d : Char) (p : Point) : Text :=
  d :: (natText (p.row + 1) ++ d :: natText (p.column + 1))

/-- The end of the name of a place. -/
def placeEnd (d e : Char) (p : Point) : Text := placeNumbers d p ++ [e]

variable {p q : Point}

theorem mem_placeNumbers (h : c ∈ placeNumbers d p) : c = d ∨ c.isDigit = true := by
  simp only [placeNumbers, List.mem_cons, List.mem_append] at h
  rcases h with rfl | h | rfl | h
  · exact .inl rfl
  · exact .inr (isDigit_of_mem_natText h)
  · exact .inl rfl
  · exact .inr (isDigit_of_mem_natText h)

theorem isWord_placeNumbers (hd : isWordChar d = true) : IsWord (placeNumbers d p) := by
  refine ⟨by simp [placeNumbers], fun c hc => ?_⟩
  rcases mem_placeNumbers hc with rfl | hc
  · exact hd
  · exact Decorations.of_isDigit (P := fun c => isWordChar c = true) (by decide) hc

theorem map_placeNumbers {f : Char → Char} (hf : ∀ c, c.isDigit = true → f c = c) :
    (placeNumbers d p).map f = placeNumbers (f d) p := by
  have hnumeral (n : Nat) : (natText n).map f = natText n := by
    conv_rhs => rw [← List.map_id (natText n)]
    exact List.map_congr_left fun c hc => hf c (isDigit_of_mem_natText hc)
  simp [placeNumbers, hnumeral]

/-- No qualifier ends with the numbers of a place. -/
theorem not_suffix_qualifier (h : placeNumbers d p ⊆ w) : ∀ q ∈ qualifiers, ¬w <:+ q := by
  have hdigits : ∀ q ∈ qualifiers, ∀ c ∈ q, c.isDigit = false := by decide
  intro q hq hsuffix
  obtain ⟨c, hc⟩ : ∃ c, c ∈ natText (p.row + 1) := List.exists_mem_of_ne_nil _ Nat.toDigits_ne_nil
  have hmem : c ∈ placeNumbers d p := List.mem_cons_of_mem d (List.mem_append_left _ hc)
  simpa [isDigit_of_mem_natText hc] using hdigits q hq c (hsuffix.subset (h hmem))

theorem suffix_append_right {x y : Text} (h : x <:+ y) (z : Text) : x ++ z <:+ y ++ z := by
  obtain ⟨t, rfl⟩ := h
  exact ⟨t, (List.append_assoc t x z).symm⟩

/-- The end of the name of a place stays when qualifiers go. -/
theorem suffix_dropQualifiers_placeEnd (h : PlaceMarks d e) (hs : placeEnd d e p <:+ s) :
    placeEnd d e p <:+ dropQualifiers s := by
  cases h with
  | legal =>
    have hunder : isWordChar '_' = true := by decide
    have hnumbers : IsWord (placeNumbers '_' p) := isWord_placeNumbers hunder
    have hword : IsWord (placeEnd '_' '_' p) :=
      ⟨by simp [placeEnd], fun c hc => (List.mem_append.1 hc).elim (hnumbers.chars c) fun hc =>
        List.mem_singleton.1 hc ▸ hunder⟩
    exact suffix_dropQualifiers hword (not_suffix_qualifier (List.subset_append_left _ _)) hs
  | colons =>
    obtain ⟨t, rfl⟩ := hs
    have hclose : dropQualifiers [')'] = [')'] := by decide
    have hrest := suffix_dropQualifiers (isWord_placeNumbers (p := p) (d := 'D') (by decide))
      (not_suffix_qualifier (List.Subset.refl _)) (List.suffix_append t _)
    rw [placeEnd, ← List.append_assoc, dropQualifiers_append fun _ => by decide, hclose]
    exact suffix_append_right hrest [')']

/-- **The end of the name of a place stays at the end.** -/
theorem suffix_marks_normalize (h : PlaceMarks d e) (hs : placeEnd d e p <:+ s) :
    placeEnd d e p <:+ marks (normalize s) := by
  have hplain : ∀ c ∈ placeEnd d e p, isControl c = false ∧ isBlank c = false := by
    have hmarks : ∀ c ∈ [d, e], isControl c = false ∧ isBlank c = false := by
      cases h <;> decide
    intro c hc
    rcases List.mem_append.1 hc with hc | hc
    · rcases mem_placeNumbers hc with rfl | hc
      · exact hmarks c (by simp)
      · exact Decorations.of_isDigit (P := fun c => isControl c = false ∧ isBlank c = false)
          (by decide) hc
    · exact hmarks c (by simp [List.mem_singleton.1 hc])
  have hcontrols : dropControls (placeEnd d e p) = placeEnd d e p :=
    dropControls_of_forall fun c hc => (hplain c hc).1
  have hmarks : marks (placeEnd d e p) = placeEnd d e p :=
    List.filter_eq_self.2 fun c hc => by simp [(hplain c hc).2]
  have hdropped := (suffix_dropQualifiers_placeEnd h hs).filter fun c => !isControl c
  rw [← dropControls, ← dropControls, hcontrols] at hdropped
  rw [marks_normalize, ← hmarks]
  exact (suffix_dropQualifiers_placeEnd h hdropped).filter fun c => !isBlank c

/-- The end of its name tells a place. -/
theorem placeEnd_inj (h : PlaceMarks d e) (heq : s ++ placeEnd d e p = t ++ placeEnd d e q) :
    p = q := by
  have hd : d.isDigit = false := by cases h <;> decide
  have hnumeral (n : Nat) : d ∉ natText n := fun hmem => by
    simp [isDigit_of_mem_natText hmem] at hd
  have hnumbers : (s ++ d :: natText (p.row + 1)) ++ d :: natText (p.column + 1) =
      (t ++ d :: natText (q.row + 1)) ++ d :: natText (q.column + 1) := by
    rw [placeEnd, placeEnd, ← List.append_assoc, ← List.append_assoc] at heq
    simpa [placeNumbers] using List.append_cancel_right heq
  obtain ⟨hrow, hcolumn⟩ := append_cons_inj_last (hnumeral _) (hnumeral _) hnumbers
  have hrow := natText_injective (append_cons_inj_last (hnumeral _) (hnumeral _) hrow).2
  obtain ⟨row, column⟩ := p
  obtain ⟨row', column'⟩ := q
  obtain rfl : row = row' := Nat.succ_injective hrow
  obtain rfl : column = column' := Nat.succ_injective (natText_injective hcolumn)
  rfl

/-! ## Names -/

namespace Aggregate

/-- The name that a scan of a file gives to an aggregate without a tag that begins at a place. -/
def placeName (file : Text) (a : Aggregate) (p : Point) : Text :=
  anonymousName a.keyword file (p.row + 1) (p.column + 1)

/-- What is legalised of the annotation is the beginning of the name. -/
theorem legalise_opening (a : Aggregate) (hs : ')' ∉ s) (t : Text) :
    legalise ('(' :: ' ' :: (a.keyword ++ (" at ".toList ++ (s ++ ')' :: t)))) =
      a.opening ++ (s.map legal ++ '_' :: t) := by
  have hfront : ')' ∉ '(' :: ' ' :: (a.keyword ++ " at ".toList) ∧
      ('(' :: ' ' :: (a.keyword ++ " at ".toList)).map legal = a.opening := by
    cases a <;> decide
  have hsplit : '(' :: ' ' :: (a.keyword ++ (" at ".toList ++ (s ++ ')' :: t))) =
      ('(' :: ' ' :: (a.keyword ++ " at ".toList) ++ s) ++ ')' :: t := by
    simp only [List.append_assoc, List.cons_append]
  rw [hsplit, legalise_append (List.not_mem_append hfront.1 hs), List.map_append, hfront.2,
    List.append_assoc]

/-- The type of an aggregate without a tag, as it comes out of the description of its place. -/
theorem keyword_placeName (a : Aggregate) (file : Text) (p : Point) {s : Text}
    (hs : legalise ('(' :: ' ' :: (a.keyword ++ (" at ".toList ++
      (placeText file (p.row + 1) (p.column + 1) ++ [')'])))) = a.opening ++ s) :
    a.keyword ++ ' ' :: a.placeName file p = normalize (a.front ++ lettered s) := by
  have hfront : '(' ∉ kindText (some a) ∧ ¬anonymousWord <:+: kindText (some a) ∧
      ':' ∉ a.front := by
    cases a <;> decide
  have hname : a.placeName file p = sanitize (kindText (some a) ++ '(' :: (anonymousWord ++
      (' ' :: (a.keyword ++ (" at ".toList ++
        (placeText file (p.row + 1) (p.column + 1) ++ [')'])))))) := by
    have hanonymous : " (anonymous ".toList = ' ' :: '(' :: (anonymousWord ++ [' ']) := by decide
    rw [placeName, anonymousName, hanonymous, kindText]
    simp [placeText]
  have hlettered : lettered (kindText (some a) ++ (a.opening ++ s)) = a.front ++ lettered s := by
    have hsplit : kindText (some a) ++ (a.opening ++ s) = a.front ++ s := by
      simp [kindText, front]
    rw [hsplit, lettered_append, lettered_of_not_mem hfront.2.2]
  obtain ⟨rest, hrest⟩ := a.prefix_normalize_front (List.prefix_append a.front (lettered s))
  have hspelling : normalize (a.front ++ lettered s) = a.keyword ++ ' ' :: (a.opening ++ rest) := by
    rw [← hrest, front]
    simp
  have hafter : afterKeyword? [structKeyword, unionKeyword, enumKeyword]
      (a.keyword ++ ' ' :: (a.opening ++ rest)) = some (a.opening ++ rest) := by
    cases a <;> rfl
  rw [hname, sanitize_of_not_infix hfront.1 hfront.2.1, hs, settleName, hlettered, hspelling,
    hafter]
  rfl

/-- **The name of a place is what normalising makes of three parts**: the first tells the kind of
the aggregate, the second the file, and the third the place. -/
theorem exists_keyword_placeName (file : Text) : ∃ middle d e, PlaceMarks d e ∧ ':' ∉ middle ∧
    ∀ (a : Aggregate) (p : Point), a.keyword ++ ' ' :: a.placeName file p =
      normalize (a.front ++ (middle ++ placeEnd d e p)) := by
  have hplace (p : Point) : placeText file (p.row + 1) (p.column + 1) =
      file ++ placeNumbers ':' p := rfl
  have hnumbers (d : Char) (p : Point) : lettered (placeNumbers d p) =
      placeNumbers (if d = ':' then 'D' else d) p :=
    map_placeNumbers fun c hc => if_neg (Decorations.ne_of_isDigit hc (by decide))
  by_cases hclose : ')' ∈ file
  · -- Nothing behind the parenthesis is legalised.
    obtain ⟨before, after, rfl, hbefore⟩ := List.eq_append_cons_of_mem hclose
    refine ⟨lettered (before.map legal ++ '_' :: after), 'D', ')', .colons, not_mem_lettered _,
      fun a p => ?_⟩
    have hsplit : (before ++ ')' :: after ++ placeNumbers ':' p) ++ [')'] =
        before ++ ')' :: (after ++ placeEnd ':' ')' p) := by
      simp [placeEnd]
    rw [a.keyword_placeName _ p (by rw [hplace, hsplit, legalise_opening a hbefore])]
    have hend : lettered (placeEnd ':' ')' p) = placeEnd 'D' ')' p := by
      rw [placeEnd, lettered_append, hnumbers]
      rfl
    rw [← hend, ← lettered_append, List.append_assoc, List.cons_append]
  · refine ⟨lettered (file.map legal), '_', '_', .legal, not_mem_lettered _, fun a p => ?_⟩
    have hnone : ')' ∉ file ++ placeNumbers ':' p := List.not_mem_append hclose fun h => by
      simpa using mem_placeNumbers h
    have hlegal : (placeNumbers ':' p).map legal = placeNumbers '_' p :=
      map_placeNumbers (d := ':') fun c hc => Decorations.of_isDigit
        (P := fun c => legal c = c) (by decide) hc
    rw [a.keyword_placeName _ p (by rw [hplace, legalise_opening a hnone]), List.map_append, hlegal]
    have hend : lettered (placeEnd '_' '_' p) = placeEnd '_' '_' p := by
      rw [placeEnd, lettered_append, hnumbers]
      rfl
    rw [← hend, ← lettered_append, List.append_assoc]
    rfl

/-- **The name tells the kind of the aggregate and its place**, in every file. -/
theorem placeName_inj {file : Text} {a b : Aggregate} {p q : Point}
    (h : a.placeName file p = b.placeName file q) : a = b ∧ p = q := by
  obtain ⟨middle, d, e, hmarks, -, hname⟩ := exists_keyword_placeName file
  have hopening (a : Aggregate) (p : Point) : a.opening <+: a.placeName file p := by
    have hfront := a.prefix_normalize_front
      (List.prefix_append a.front (middle ++ placeEnd d e p))
    rw [← hname, front, List.prefix_append_right_inj] at hfront
    exact (List.cons_prefix_cons.1 hfront).2
  have hsame : a.opening <+: b.opening ∨ b.opening <+: a.opening :=
    List.prefix_or_prefix_of_prefix (h ▸ hopening a p) (hopening b q)
  obtain rfl : a = b := by
    cases a <;> cases b <;> first | rfl | exact absurd hsame (by decide)
  have hend (p : Point) : placeEnd d e p <:+ marks (a.keyword ++ ' ' :: a.placeName file p) := by
    rw [hname]
    exact suffix_marks_normalize hmarks
      ((List.suffix_append middle _).trans (List.suffix_append a.front _))
  obtain ⟨s, hs⟩ := hend p
  obtain ⟨t, ht⟩ := hend q
  refine ⟨rfl, placeEnd_inj hmarks (s := s) (t := t) ?_⟩
  rw [hs, ht, h]

theorem not_mem_placeName (file : Text) (a : Aggregate) (p : Point) :
    ':' ∉ a.placeName file p := by
  obtain ⟨middle, d, e, hmarks, hmiddle, hname⟩ := exists_keyword_placeName file
  have hfront : ':' ∉ a.front := by cases a <;> decide
  have hend : ':' ∉ placeEnd d e p := by
    have hcolon : ':' ≠ d ∧ ':' ≠ e := by cases hmarks <;> decide
    refine List.not_mem_append (fun h => ?_) (by simpa using hcolon.2)
    simpa [hcolon.1] using mem_placeNumbers h
  intro h
  have hmem : ':' ∈ normalize (a.front ++ (middle ++ placeEnd d e p)) := by
    rw [← hname]
    exact List.mem_append_right _ (List.mem_cons_of_mem _ h)
  refine (mem_of_mem_normalize hmem).elim ?_ (by decide)
  exact List.not_mem_append hfront (List.not_mem_append hmiddle hend)

end Aggregate

/-! ## Scans -/

theorem Registry.isDeclared_foldl_learn {reg : Registry} {name : Text} {fs : List Finding}
    (h : reg.isDeclared name = true ∨ .aggregate name ∈ fs) :
    (fs.foldl learn reg).isDeclared name = true := by
  have hkeep {reg : Registry} (f : Finding) (h : reg.isDeclared name = true) :
      (reg.learn f).isDeclared name = true := by
    cases f with
    | declared d => exact h
    | typedef d base =>
      show (reg.addTypedef d.name d.spelling base).isDeclared name = true
      unfold addTypedef
      split <;> exact h
    | enumTypedef d => exact h
    | aggregate tag =>
      show (reg.declare tag).isDeclared name = true
      rw [isDeclared_declare, h, Bool.or_true]
  induction fs generalizing reg with
  | nil => exact h.resolve_right List.not_mem_nil
  | cons f rest ih =>
    rw [List.foldl_cons]
    rcases h with h | h
    · exact ih (.inl (hkeep f h))
    · rcases List.mem_cons.1 h with rfl | h
      · refine ih (.inl ?_)
        show (reg.declare name).isDeclared name = true
        simp
      · exact ih (.inr h)

namespace Source

/-- **An aggregate without a tag has one name**, wherever it stands and whatever the file is called.
Two such names are the same only for the same kind at the same place, and there is no colon in
them. The type that an aggregate without a tag but with a body is for a declaration, a field or a
typedef is spelled with this name, and the name is declared after a scan that comes to its end. -/
theorem placeName_consistent (src : Source) (root : Node) (reg : Registry) :
    (∀ (a b : Aggregate) (p q : Point),
      a.placeName src.file p = b.placeName src.file q ↔ a = b ∧ p = q) ∧
    (∀ (a : Aggregate) (p : Point), ':' ∉ a.placeName src.file p) ∧
    ∀ node ∈ root.preorder, ∀ (type : Node) (a : Aggregate), node.child? .type = some type →
      type.kind = .aggregate a → type.child? .name = none → (type.child? .body).isSome = true →
      src.typeSpelling type = a.keyword ++ ' ' :: a.placeName src.file type.span.start ∧
        ((src.scan root).isSome = true → (reg.learnFrom (src.findings root)).isDeclared
          (a.placeName src.file type.span.start) = true) := by
  refine ⟨fun a b p q => ⟨Aggregate.placeName_inj, fun ⟨ha, hp⟩ => by rw [ha, hp]⟩,
    Aggregate.not_mem_placeName src.file, fun node hnode type a htype hkind hname hbody => ?_⟩
  have htag : src.tag a type = a.placeName src.file type.span.start := by
    rw [tag, hname]
    rfl
  have hspelling : src.typeSpelling type = a.keyword ++ ' ' :: src.tag a type := by
    rw [typeSpelling, hkind]
  refine ⟨by rw [hspelling, htag], fun hscan => ?_⟩
  obtain ⟨decls, hdecls⟩ := Option.isSome_iff_exists.1 hscan
  obtain ⟨findings, hfindings, -⟩ := scan_eq_some_iff.1 hdecls
  have hmem : type ∈ root.preorder :=
    Node.mem_preorder_of_mem_children hnode (List.mem_of_find?_eq_some htype)
  have hfinding : some (Finding.aggregate (src.tag a type)) ∈ src.findings root :=
    mem_findings hmem (by simp [nodeFindings, hkind, hbody])
  rw [hfindings] at hfinding
  rw [Registry.learnFrom, hfindings, made_map_some, ← htag]
  exact Registry.isDeclared_foldl_learn (.inr (by simpa using hfinding))

/-- A structure without a tag, in a file whose name has parentheses and a star. -/
def oddSource : Source := ⟨"odd (1) *.c".toList, "struct \x7b int x; \x7d a;".toList⟩

/-- The structure in `oddSource`. -/
def oddType : Node :=
  .onLine (.aggregate .struct) (some .type) 0 17 [
    .onLine .other (some .body) 7 17 [
      .onLine .fieldDeclaration none 9 15 [
        .onLine .primitiveType (some .type) 9 12 [],
        .onLine .name (some .declarator) 13 14 []]]]

/-- The declaration in `oddSource`. -/
def oddNode : Node :=
  .onLine .declaration none 0 20 [oddType, .onLine .name (some .declarator) 18 19 []]

/-- The structure in `oddSource` is declared under the name that its type is spelled with, which it
would not have in the next column. -/
theorem placeName_consistent_odd :
    let tree := Node.onLine .other none 0 20 [oddNode]
    let name := "__struct_at_odd__1_ *.cD1D1)".toList
    Aggregate.placeName oddSource.file .struct oddType.span.start = name ∧ ':' ∉ name ∧
      Aggregate.placeName oddSource.file .struct ⟨0, 1⟩ ≠ name ∧
      oddSource.typeSpelling oddType = "struct ".toList ++ name ∧
      (Registry.learnFrom {} (oddSource.findings tree)).isDeclared name = true := by
  intro tree name
  obtain ⟨hinj, hcolon, hnamed⟩ := placeName_consistent oddSource tree {}
  have hname : Aggregate.placeName oddSource.file .struct oddType.span.start = name := by
    decide +kernel
  have hnode : oddNode ∈ tree.preorder :=
    Node.mem_preorder_of_mem_children (Node.mem_preorder_self tree) List.mem_cons_self
  obtain ⟨hspelling, hdeclared⟩ := hnamed oddNode hnode oddType .struct rfl rfl rfl rfl
  rw [hname] at hspelling hdeclared
  refine ⟨hname, hname ▸ hcolon .struct oddType.span.start, fun h => ?_, hspelling,
    hdeclared (by decide +kernel)⟩
  exact absurd ((hinj _ _ _ _).1 (h.trans hname.symm)).2 (by decide)

end Source

end CSpelling

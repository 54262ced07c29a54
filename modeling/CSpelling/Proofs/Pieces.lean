import CSpelling.Proofs.Splitting

/-!
# Pieces between parentheses and commas

Parentheses and commas cut a text into pieces. `mapPieces f` applies `f` to each piece and keeps
what stands between them, so two texts with the same image have the same parentheses and commas,
and one is cut wherever the other is (`exists_of_mapPieces`). Balance (`balanced_mapPieces`) and
fields (`fieldsWithin_mapPieces`) are those of the image.

`tighten` takes the white space at the ends of all pieces.
-/

namespace CSpelling

open Text

/-- The character cuts a text into pieces. -/
def isDelimiter (c : Char) : Bool := c = '(' || c = ')' || c = ','

/-- There are no parentheses and commas in the text. -/
def IsPiece (s : Text) : Prop := ∀ c ∈ s, isDelimiter c = false

instance (s : Text) : Decidable (IsPiece s) :=
  inferInstanceAs (Decidable (∀ c ∈ s, isDelimiter c = false))

variable {f g : Text → Text} {p s t : Text} {d : Char}

theorem isPiece_nil : IsPiece [] := by simp [IsPiece]

theorem isPiece_append : IsPiece (s ++ t) ↔ IsPiece s ∧ IsPiece t := List.forall_mem_append

theorem isPiece_iff : IsPiece s ↔ '(' ∉ s ∧ ')' ∉ s ∧ ',' ∉ s := by
  have hne (d : Char) : d ∉ s ↔ ∀ c ∈ s, c ≠ d :=
    ⟨fun h c hc => ne_of_mem_of_not_mem hc h, fun h hmem => h d hmem rfl⟩
  simp only [hne, IsPiece, isDelimiter, Bool.or_eq_false_iff, decide_eq_false_iff_not, and_assoc,
    forall_and]

theorem IsPiece.not_mem (hp : IsPiece p) (hd : isDelimiter d = true) : d ∉ p := fun hmem => by
  simp [hp d hmem] at hd

theorem IsPiece.subset (ht : IsPiece t) (h : s ⊆ t) : IsPiece s := fun c hc => ht c (h hc)

theorem isBlank_of_isDelimiter (hd : isDelimiter d = true) : isBlank d = false := by
  have hcases : d = '(' ∨ d = ')' ∨ d = ',' := by simpa [isDelimiter, or_assoc] using hd
  rcases hcases with rfl | rfl | rfl <;> decide

theorem Text.IsGap.isPiece (h : IsGap s) : IsPiece s := fun c hc => by
  by_contra hd
  have hblank := isBlank_of_isDelimiter (Bool.not_eq_false _ ▸ hd)
  simp [h c hc] at hblank

/-- Every text is a piece, or begins with one in front of a delimiter. -/
theorem pieces_induction {P : Text → Prop} (piece : ∀ p, IsPiece p → P p)
    (cons : ∀ p d s, IsPiece p → isDelimiter d = true → P s → P (p ++ d :: s)) (s : Text) :
    P s := by
  have hall (s p : Text) (hp : IsPiece p) : P (p ++ s) := by
    induction s generalizing p with
    | nil => simpa using piece p hp
    | cons c rest ih =>
      cases hc : isDelimiter c with
      | true => exact cons p c rest hp hc (ih [] isPiece_nil)
      | false =>
        have hpc : IsPiece (p ++ [c]) := isPiece_append.2 ⟨hp, by simpa [IsPiece] using hc⟩
        simpa using ih (p ++ [c]) hpc
  exact hall s [] isPiece_nil

/-! ## Mapping pieces -/

/-- The text with `f` applied to its pieces, the first of which is continued from `p`. -/
def mapPiecesFrom (f : Text → Text) : Text → Text → Text
  | p, [] => f p
  | p, c :: rest =>
    if isDelimiter c then f p ++ c :: mapPiecesFrom f [] rest else mapPiecesFrom f (p ++ [c]) rest

/-- The text with `f` applied to its pieces. -/
def mapPieces (f : Text → Text) (s : Text) : Text := mapPiecesFrom f [] s

theorem mapPiecesFrom_append (hp : IsPiece p) (front s : Text) :
    mapPiecesFrom f front (p ++ s) = mapPiecesFrom f (front ++ p) s := by
  induction p generalizing front with
  | nil => rw [List.nil_append, List.append_nil]
  | cons c rest ih =>
    rw [List.cons_append, mapPiecesFrom, if_neg (by simp [hp c]),
      ih (hp.subset (List.subset_cons_self c rest)), List.append_assoc, List.singleton_append]

theorem mapPieces_piece (hp : IsPiece p) : mapPieces f p = f p := by
  have h := mapPiecesFrom_append (f := f) hp [] []
  rwa [List.append_nil] at h

theorem mapPieces_cons (hp : IsPiece p) (hd : isDelimiter d = true) (s : Text) :
    mapPieces f (p ++ d :: s) = f p ++ d :: mapPieces f s := by
  rw [mapPieces, mapPiecesFrom_append hp, mapPiecesFrom, if_pos hd, List.nil_append, mapPieces]

@[simp] theorem mapPieces_append_cons (hd : isDelimiter d = true) (s t : Text) :
    mapPieces f (s ++ d :: t) = mapPieces f s ++ d :: mapPieces f t := by
  induction s using pieces_induction with
  | piece p hp => rw [mapPieces_cons hp hd, mapPieces_piece hp]
  | cons p e s hp he ih =>
    rw [List.append_assoc, List.cons_append, mapPieces_cons hp he, mapPieces_cons hp he, ih,
      List.append_assoc, List.cons_append]

theorem mapPieces_congr (h : ∀ p, IsPiece p → f p = g p) (s : Text) :
    mapPieces f s = mapPieces g s := by
  induction s using pieces_induction with
  | piece p hp => rw [mapPieces_piece hp, mapPieces_piece hp, h p hp]
  | cons p d s hp hd ih => rw [mapPieces_cons hp hd, mapPieces_cons hp hd, h p hp, ih]

/-- A step that goes over delimiters works on each piece. -/
theorem eq_mapPieces (h : ∀ d s t, isDelimiter d = true → f (s ++ d :: t) = f s ++ d :: f t)
    (s : Text) : f s = mapPieces f s := by
  induction s using pieces_induction with
  | piece p hp => rw [mapPieces_piece hp]
  | cons p d s hp hd ih => rw [mapPieces_cons hp hd, h d p s hd, ih]

section Keeping

variable (hf : ∀ p, IsPiece p → IsPiece (f p))

include hf

theorem mapPieces_mapPieces (s : Text) : mapPieces g (mapPieces f s) = mapPieces (g ∘ f) s := by
  induction s using pieces_induction with
  | piece p hp => rw [mapPieces_piece hp, mapPieces_piece (hf p hp), mapPieces_piece hp]; rfl
  | cons p d s hp hd ih =>
    rw [mapPieces_cons hp hd, mapPieces_cons (hf p hp) hd, mapPieces_cons hp hd, ih]
    rfl

theorem filter_mapPieces (s : Text) :
    (mapPieces f s).filter isDelimiter = s.filter isDelimiter := by
  have hnone {p : Text} (hp : IsPiece p) : p.filter isDelimiter = [] := by
    exact List.filter_eq_nil_iff.2 fun c hc => by simp [hp c hc]
  induction s using pieces_induction with
  | piece p hp => rw [mapPieces_piece hp, hnone hp, hnone (hf p hp)]
  | cons p d s hp hd ih =>
    rw [mapPieces_cons hp hd, List.filter_append, List.filter_append, hnone hp, hnone (hf p hp),
      List.filter_cons_of_pos hd, List.filter_cons_of_pos hd, ih]

theorem isPiece_mapPieces : IsPiece (mapPieces f s) ↔ IsPiece s := by
  have hiff (s : Text) : IsPiece s ↔ s.filter isDelimiter = [] := by
    simp [IsPiece, List.filter_eq_nil_iff]
  rw [hiff, hiff, filter_mapPieces hf]

/-- **A text is cut where its image is.** -/
theorem exists_of_mapPieces (hd : isDelimiter d = true) {u v : Text}
    (h : mapPieces f s = u ++ d :: v) :
    ∃ a b, s = a ++ d :: b ∧ mapPieces f a = u ∧ mapPieces f b = v := by
  induction s using pieces_induction generalizing u with
  | piece p hp =>
    rw [mapPieces_piece hp] at h
    exact absurd (by simp [h]) ((hf p hp).not_mem hd)
  | cons p e s hp he ih =>
    rw [mapPieces_cons hp he] at h
    rcases List.append_eq_append_iff.1 h with ⟨w, rfl, hw⟩ | ⟨w, hw, hrest⟩
    · cases w with
      | nil =>
        obtain ⟨rfl, rfl⟩ := List.cons.inj hw
        exact ⟨p, s, rfl, by rw [mapPieces_piece hp, List.append_nil], rfl⟩
      | cons c w =>
        obtain ⟨rfl, hrest⟩ := List.cons.inj hw
        obtain ⟨a, b, rfl, ha, hb⟩ := ih hrest
        exact ⟨p ++ e :: a, b, by simp, by rw [mapPieces_cons hp he, ha], hb⟩
    · cases w with
      | nil =>
        obtain ⟨rfl, rfl⟩ := List.cons.inj hrest
        exact ⟨p, s, rfl, by rw [mapPieces_piece hp, hw, List.append_nil], rfl⟩
      | cons c w =>
        obtain ⟨rfl, -⟩ := List.cons.inj hrest
        exact absurd (by simp [hw]) ((hf p hp).not_mem hd)

/-! ## Parentheses and fields -/

omit hf in
theorem balanced_filter (s : Text) : Balanced (s.filter isDelimiter) ↔ Balanced s := by
  have hopen (t : Text) : (t.filter isDelimiter).count '(' = t.count '(' :=
    List.count_filter (by decide)
  have hclose (t : Text) : (t.filter isDelimiter).count ')' = t.count ')' :=
    List.count_filter (by decide)
  constructor
  · intro h
    refine ⟨by rw [← hopen, ← hclose, h.total], fun t ht => ?_⟩
    rw [← hopen, ← hclose]
    exact h.upTo _ (ht.filter isDelimiter)
  · intro h
    refine ⟨by rw [hopen, hclose, h.total], fun t ht => ?_⟩
    obtain ⟨u, hu, rfl⟩ := List.prefix_filter_iff.1 ht
    rw [hopen, hclose]
    exact h.upTo u hu

/-- Parentheses match each other if they do in the image. -/
theorem balanced_mapPieces (s : Text) : Balanced (mapPieces f s) ↔ Balanced s := by
  rw [← balanced_filter, filter_mapPieces hf, balanced_filter]

omit hf in
theorem exists_fieldsWithin (depth : Nat) (s : Text) :
    ∃ field fields, fieldsWithin depth s = field :: fields := by
  have hcons (c : Char) (fields : List Text) : ∃ a b, consField c fields = a :: b := by
    cases fields with
    | nil => exact ⟨_, _, rfl⟩
    | cons a b => exact ⟨_, _, rfl⟩
  cases s with
  | nil => exact ⟨[], [], rfl⟩
  | cons c rest =>
    unfold fieldsWithin
    split_ifs
    · exact hcons ..
    · exact hcons ..
    · exact ⟨_, _, rfl⟩
    · exact hcons ..

omit hf in
theorem fieldsWithin_piece (hp : IsPiece p) (depth : Nat) (t : Text) :
    fieldsWithin depth (p ++ t) = p.foldr consField (fieldsWithin depth t) := by
  have hnone {u : Text} {d : Char} (hu : u <+: p) (hd : isDelimiter d = true) : u.count d = 0 :=
    List.count_eq_zero.2 ((hp.subset hu.subset).not_mem hd)
  have hopen : p.count '(' = 0 := hnone List.prefix_rfl (by decide)
  have hclose : p.count ')' = 0 := hnone List.prefix_rfl (by decide)
  rw [fieldsWithin_append, hopen, hclose]
  · rfl
  · intro u hu
    rw [hnone hu (by decide)]
    exact Nat.zero_le _
  · intro u hu
    exact absurd (hu.subset (by simp)) (hp.not_mem (d := ',') (by decide))

/-- **The fields of the image are the images of the fields.** -/
theorem fieldsWithin_mapPieces (depth : Nat) (s : Text) :
    fieldsWithin depth (mapPieces f s) = (fieldsWithin depth s).map (mapPieces f) := by
  -- A delimiter continues the first field, unless it is a comma that ends it.
  have hinner (p s : Text) (d : Char) (n : Nat) (hp : IsPiece p) (hd : isDelimiter d = true)
      (ih : fieldsWithin n (mapPieces f s) = (fieldsWithin n s).map (mapPieces f)) :
      (f p).foldr consField (consField d (fieldsWithin n (mapPieces f s))) =
        (p.foldr consField (consField d (fieldsWithin n s))).map (mapPieces f) := by
    obtain ⟨field, fields, heq⟩ := exists_fieldsWithin n s
    rw [ih, heq, List.map_cons, consField, consField, foldr_consField, foldr_consField,
      List.map_cons, mapPieces_cons hp hd]
  induction s using pieces_induction generalizing depth with
  | piece p hp =>
    have hone {p : Text} (hp : IsPiece p) : fieldsWithin depth p = [p] := by
      have h := fieldsWithin_piece hp depth []
      rwa [List.append_nil, fieldsWithin, foldr_consField, List.append_nil] at h
    rw [mapPieces_piece hp, hone hp, hone (hf p hp), List.map_singleton, mapPieces_piece hp]
  | cons p d s hp hd ih =>
    rw [mapPieces_cons hp hd, fieldsWithin_piece hp, fieldsWithin_piece (hf p hp), fieldsWithin,
      fieldsWithin]
    split_ifs with hopen hclose hcomma
    · exact hinner p s d _ hp hd (ih _)
    · exact hinner p s d _ hp hd (ih _)
    · rw [foldr_consField, foldr_consField, List.append_nil, List.append_nil, List.map_cons,
        mapPieces_piece hp, ih]
    · exact hinner p s d _ hp hd (ih _)

end Keeping

/-! ## Tight texts -/

/-- The text without the white space at the ends of its pieces. -/
def tighten (s : Text) : Text := mapPieces strip s

theorem isPiece_strip (hp : IsPiece p) : IsPiece (strip p) :=
  hp.subset fun _ hc => mem_of_mem_strip hc

theorem tighten_piece (hp : IsPiece p) : tighten p = strip p := mapPieces_piece hp

@[simp] theorem tighten_append_cons (hd : isDelimiter d = true) (s t : Text) :
    tighten (s ++ d :: t) = tighten s ++ d :: tighten t := mapPieces_append_cons hd s t

theorem tighten_parenthesized (s : Text) :
    tighten ('(' :: (s ++ [')'])) = '(' :: (tighten s ++ [')']) := by
  have houter := tighten_append_cons (d := '(') (by decide) [] (s ++ [')'])
  have hinner := tighten_append_cons (d := ')') (by decide) s []
  exact houter.trans (congrArg (tighten [] ++ '(' :: ·) hinner)

theorem isPiece_tighten : IsPiece (tighten s) ↔ IsPiece s :=
  isPiece_mapPieces fun _ hp => isPiece_strip hp

theorem balanced_tighten (s : Text) : Balanced (tighten s) ↔ Balanced s :=
  balanced_mapPieces (fun _ hp => isPiece_strip hp) s

theorem exists_of_tighten (hd : isDelimiter d = true) {u v : Text} (h : tighten s = u ++ d :: v) :
    ∃ a b, s = a ++ d :: b ∧ tighten a = u ∧ tighten b = v :=
  exists_of_mapPieces (fun _ hp => isPiece_strip hp) hd h

@[simp] theorem marks_tighten (s : Text) : marks (tighten s) = marks s := by
  induction s using pieces_induction with
  | piece p hp => rw [tighten_piece hp, marks_strip]
  | cons p d s hp hd ih =>
    rw [tighten_append_cons hd, tighten_piece hp, marks_append, marks_append, marks_strip,
      marks_cons, marks_cons, ih]

/-- White space at the ends of a text is white space at the ends of pieces. -/
theorem mapPieces_strip (hf : ∀ p, IsPiece p → f (strip p) = f p) (s : Text) :
    mapPieces f (strip s) = mapPieces f s := by
  have hgap {a p b : Text} (ha : IsGap a) (hp : IsPiece p) (hb : IsGap b) :
      f (a ++ p ++ b) = f p := by
    rw [← hf _ (isPiece_append.2 ⟨isPiece_append.2 ⟨ha.isPiece, hp⟩, hb.isPiece⟩),
      strip_append_gap hb, strip_gap_append ha, hf p hp]
  have hends (s a b : Text) (ha : IsGap a) (hb : IsGap b) :
      mapPieces f (a ++ s ++ b) = mapPieces f s := by
    induction s using pieces_induction generalizing a with
    | piece p hp =>
      rw [mapPieces_piece hp, mapPieces_piece (isPiece_append.2
        ⟨isPiece_append.2 ⟨ha.isPiece, hp⟩, hb.isPiece⟩), hgap ha hp hb]
    | cons p d s hp hd ih =>
      have hfront : f (a ++ p) = f p := by simpa using hgap ha hp isGap_nil
      have hsplit : a ++ (p ++ d :: s) ++ b = (a ++ p) ++ d :: (s ++ b) := by simp
      rw [hsplit, mapPieces_cons (isPiece_append.2 ⟨ha.isPiece, hp⟩) hd, mapPieces_cons hp hd,
        hfront]
      simpa using ih [] isGap_nil
  obtain ⟨a, b, hs, ha, hb⟩ := exists_gaps s
  conv_rhs => rw [hs, hends _ a b ha hb]

theorem strip_strip (s : Text) : strip (strip s) = strip s := strip_of_trimmed (trimmed_strip s)

@[simp] theorem tighten_strip (s : Text) : tighten (strip s) = tighten s :=
  mapPieces_strip (fun p _ => strip_strip p) s

theorem map_tighten_topFields (s : Text) :
    (topFields s).map tighten = fieldsWithin 0 (tighten s) := by
  rw [topFields, List.map_map, tighten, fieldsWithin_mapPieces fun _ hp => isPiece_strip hp]
  exact List.map_congr_left fun f _ => tighten_strip f

theorem tighten_eq_nil_iff : tighten s = [] ↔ IsGap s := by
  rw [← marks_eq_nil_iff, ← marks_tighten]
  constructor
  · intro h
    rw [h, marks_nil]
  · intro h
    have hpiece : IsPiece (tighten s) := (marks_eq_nil_iff.1 h).isPiece
    have hs := isPiece_tighten.1 hpiece
    rw [tighten_piece hs] at h ⊢
    exact (trimmed_strip s).marks_eq_nil_iff.1 h

end CSpelling

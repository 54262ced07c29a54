import CSpelling.Proofs.FunctionTypes
import CSpelling.Proofs.Layout
import CSpelling.Proofs.Relayout

/-!
# Resolution in other layouts

Two spellings are `Relaid` if their pieces have the same normal spellings. Such spellings resolve
alike (`Registry.outcome_descend_relaid`) if both are `Regular`: without parentheses and commas, or
function types with plain blocks, made of regular spellings.
-/

namespace CSpelling

open Text CSpelling.Normal CSpelling.FunctionTypes

variable {s t : Text}

/-! ## Known spellings -/

/-- The normal spelling with the fragments of system headers replaced. -/
@[irreducible] def Reading.known (s : Text) : Text := substitute (normalize s)

theorem Reading.known_eq {n : Text} (h : normalize s = n) : known s = substitute n := by
  rw [known, h]

theorem Reading.isPiece_known {p : Text} (hp : IsPiece p) : IsPiece (known p) := by
  rw [known_eq rfl]
  exact isPiece_substitute (isPiece_normalize hp)

theorem Reading.along_markerClosed_known (s : Text) : Along MarkerClosed (known s) := by
  have hnormal := isNormal_normalize s
  -- The normal spelling itself must not be unfolded along the text.
  obtain ⟨n, hn⟩ : ∃ n, normalize s = n := ⟨_, rfl⟩
  rw [hn] at hnormal
  have htidy := (isNormal_iff.1 hnormal).2.1
  rw [known_eq hn]
  exact along_markerClosed_substitute (htidy.places.imp fun _ _ h => h.marker)

/-- A function type is read as one: no name of the registry holds a parenthesis. -/
theorem Reading.ofSpelling_of_isFunction_known {reg : Registry} (hreg : reg.Without '(')
    (unwind : Bool) (hcolon : ':' ∉ s) (hlocale : occurs localeStruct (normalize s) = false)
    (hfunction : isFunction (known s) = true) : ofSpelling reg unwind s = .function (known s) := by
  have hopen : '(' ∈ known s := by
    by_contra h
    simp [isFunction_of_not_mem h] at hfunction
  have hname : ofName? reg unwind (known s) = some (.function (known s)) := by
    rw [ofName?_of_mem hreg hopen (.inl rfl), if_pos hfunction]
  obtain ⟨n, hn⟩ : ∃ n, normalize s = n := ⟨_, rfl⟩
  have hne : n ≠ [] := by
    rintro rfl
    rw [known_eq hn] at hopen
    exact absurd hopen (by decide)
  have hcolon : s.contains ':' = false := by simpa using hcolon
  have hne : n.isEmpty = false := by simpa using hne
  rw [hn] at hlocale
  rw [known_eq hn] at hname ⊢
  rw [ofSpelling, hcolon]
  simp only [hn, hlocale, hne, hname, Bool.false_eq_true, if_false, Option.getD_some]

/-! ## Layouts -/

/-- The spellings differ in their layout alone. -/
structure Relaid (s t : Text) : Prop where
  /-- Their pieces have the same normal spellings. -/
  pieces : mapPieces normalize s = mapPieces normalize t
  /-- Both hold a colon or neither. -/
  colon : ':' ∈ s ↔ ':' ∈ t

theorem mapPieces_normalize_tighten (s : Text) :
    mapPieces normalize (tighten s) = mapPieces normalize s := by
  rw [tighten, mapPieces_mapPieces (f := strip) fun p hp => isPiece_strip hp]
  exact mapPieces_congr (fun p hp => by rw [Function.comp_apply, normalize_strip hp]) s

namespace Relaid

theorem symm (h : Relaid s t) : Relaid t s := ⟨h.pieces.symm, h.colon.symm⟩

theorem of_tighten (h : tighten s = tighten t) : Relaid s t := by
  have hmem (s : Text) : ':' ∈ s ↔ ':' ∈ marks (tighten s) := by
    rw [marks_tighten, mem_marks]
    exact (and_iff_left (by decide)).symm
  refine ⟨?_, by rw [hmem s, h, ← hmem t]⟩
  rw [← mapPieces_normalize_tighten, h, mapPieces_normalize_tighten]

theorem isPiece (h : Relaid s t) (hs : IsPiece s) : IsPiece t := by
  have hiff {s : Text} : IsPiece (mapPieces normalize s) ↔ IsPiece s :=
    isPiece_mapPieces fun _ hp => isPiece_normalize hp
  exact hiff.1 (h.pieces ▸ hiff.2 hs)

theorem normalize_eq (h : Relaid s t) (hs : IsPiece s) : normalize s = normalize t := by
  have hpieces := h.pieces
  rwa [mapPieces_piece hs, mapPieces_piece (h.isPiece hs)] at hpieces

theorem tighten_known (h : Relaid s t) :
    tighten (Reading.known s) = tighten (Reading.known t) := by
  rw [Reading.known, Reading.known, Reading.tighten_substitute, Reading.tighten_substitute,
    tighten_normalize, tighten_normalize, h.pieces]

theorem occurs_localeStruct (h : Relaid s t) :
    occurs localeStruct (normalize s) = occurs localeStruct (normalize t) := by
  have hfragment : IsFragment localeStruct := isFragment_of_mem (by simp [systemTexts])
  have hiff (s : Text) : occurs localeStruct (normalize s) = true ↔
      localeStruct <:+: mapPieces normalize s := by
    rw [occurs_iff hfragment.ne_nil, ← tighten_normalize, hfragment.infix_tighten_iff]
  rw [Bool.eq_iff_iff, hiff, hiff, h.pieces]

end Relaid

/-- A spelling whose reading does not depend on its layout. -/
inductive Regular : Text → Prop
  /-- There are no parentheses and commas. -/
  | piece {s : Text} : IsPiece s → Regular s
  /-- It is a function type with plain blocks, whose parameters and returned type are regular. -/
  | function {s : Text} : isFunction (Reading.known s) = true → HasPlainBlock (Reading.known s) →
      (∀ parts, Parts.ofSpelling (Reading.known s) = .ok parts →
        ∀ f ∈ parts.fields, f ≠ [] → Regular f) →
      (∀ parts, Parts.ofSpelling (Reading.known s) = .ok parts → Regular parts.returns) →
      Regular s

theorem Regular.of_parts {known : Text} {parts : Parts} (hknown : Reading.known s = known)
    (hfunction : isFunction known = true) (hplain : HasPlainBlock known)
    (hparts : Parts.ofSpelling known = .ok parts)
    (hfields : ∀ f ∈ parts.fields, f ≠ [] → Regular f) (hreturns : Regular parts.returns) :
    Regular s := by
  subst hknown
  refine .function hfunction hplain (fun other hother => ?_) fun other hother => ?_
  all_goals
    obtain rfl := Except.ok.inj (hparts.symm.trans hother)
    assumption

/-! ## Resolution -/

theorem outcome_describeFunction_of_error {part : Text → Trace Text} {f : Failure}
    (h : Parts.ofSpelling s = .error f) :
    ((describeFunction part s).map Signature.descriptor).outcome = .error .malformed := by
  have hkind : f.kind = .malformed := by
    rw [Failure.kind, Failure.category, Parts.category_of_ofSpelling h]
    rfl
  rw [Trace.outcome_map, describeFunction, Trace.outcome_within, Trace.outcome_andThen, h]
  show Except.error f.kind = _
  rw [hkind]

/-- Lists that are alike are mapped to the same if their members are that are alike. -/
theorem mapM_congr_of_map {f g : Text → Except FailureKind Text} {k : Text → Text}
    {l l' : List Text} (hl : l.map k = l'.map k)
    (h : ∀ s ∈ l, ∀ t ∈ l', k s = k t → f s = g t) : l.mapM f = l'.mapM g := by
  induction l generalizing l' with
  | nil =>
    obtain rfl := List.map_eq_nil_iff.1 hl.symm
    rfl
  | cons s rest ih =>
    obtain ⟨t, rest', rfl, hst, hrest⟩ := List.map_eq_cons_iff.1 hl.symm
    have htail := ih hrest.symm fun s hs t ht =>
      h s (List.mem_cons_of_mem _ hs) t (List.mem_cons_of_mem _ ht)
    rw [List.mapM_cons, List.mapM_cons, h s (by simp) t (by simp) hst.symm, htail]

namespace Reading

variable (reg : Registry) (unwind : Bool)

theorem ofSpelling_of_colon (h : ':' ∈ s) : ofSpelling reg unwind s = .rejected .strayColon s := by
  rw [ofSpelling, if_pos (List.contains_iff_mem.2 h)]

theorem ofSpelling_of_empty (hcolon : ':' ∉ s) (h : normalize s = []) :
    ofSpelling reg unwind s = .rejected .emptyType s := by
  have hcolon : s.contains ':' = false := by simpa using hcolon
  rw [ofSpelling, hcolon]
  simp only [h, List.isEmpty_nil, Bool.false_eq_true, if_false, if_true]

theorem ofSpelling_of_locale (hcolon : ':' ∉ s) (h : occurs localeStruct (normalize s) = true) :
    ofSpelling reg unwind s = .descriptor "int".toList := by
  have hcolon : s.contains ':' = false := by simpa using hcolon
  obtain ⟨n, hn⟩ : ∃ n, normalize s = n := ⟨_, rfl⟩
  rw [hn] at h
  have hne : n.isEmpty = false := by
    cases n with
    | nil => cases h
    | cons c rest => rfl
  rw [ofSpelling, hcolon]
  simp only [hn, h, hne, Bool.false_eq_true, if_false, if_true]

end Reading

theorem Registry.outcome_descend_succ (reg : Registry) (config : Config) (levels : Nat)
    (chain : List Text) (s : Text) : (reg.descend config (levels + 1) chain s).outcome =
      ((Reading.ofSpelling reg config.unwind s).describe reg (reg.descend config levels)
        chain).outcome := by
  rw [descend, Trace.outcome_within]

theorem Parts.trimmed_of_mem_fields {parts : Parts} {f : Text} (h : ofSpelling s = .ok parts)
    (hf : f ∈ parts.fields) : Trimmed f := by
  have htrimmed {inner : Text} (hf : f ∈ topFields inner) : Trimmed f := by
    obtain ⟨g, -, rfl⟩ := List.mem_map.1 hf
    exact trimmed_strip g
  obtain ⟨-, _, inner, -, -, -, hreturns⟩ := ofSpelling_eq_ok_iff.1 h
  rcases ofReturns_eq_ok_iff.1 hreturns with ⟨-, rfl⟩ | ⟨_, _, _, _, -, -, -, rfl⟩
  · exact htrimmed hf
  · exact htrimmed hf

theorem map_tighten_filter {l : List Text} (h : ∀ f ∈ l, Trimmed f) :
    (l.filter (!·.isEmpty)).map tighten = (l.map tighten).filter (!·.isEmpty) := by
  rw [List.filter_map]
  congr 1
  refine List.filter_congr fun f hf => ?_
  have hiff : tighten f = [] ↔ f = [] := by
    rw [tighten_eq_nil_iff, ← marks_eq_nil_iff, (h f hf).marks_eq_nil_iff]
  rw [Function.comp_apply, Bool.eq_iff_iff]
  simp [hiff]

/-- Parts that are alike come out the same if what is relaid does. -/
theorem outcome_describeFunction_alike {part : Text → Trace Text} {parts parts' : Parts}
    (hs : Parts.ofSpelling s = .ok parts) (ht : Parts.ofSpelling t = .ok parts')
    (halike : parts.Alike parts')
    (hfields : ∀ f ∈ parts.fields, ∀ g ∈ parts'.fields, f ≠ [] → g ≠ [] → Relaid f g →
      (part f).outcome = (part g).outcome)
    (hreturns : Relaid parts.returns parts'.returns →
      (part parts.returns).outcome = (part parts'.returns).outcome) :
    ((describeFunction part s).map Signature.descriptor).outcome =
      ((describeFunction part t).map Signature.descriptor).outcome := by
  have hfilter : (parts.fields.filter (!·.isEmpty)).map tighten =
      (parts'.fields.filter (!·.isEmpty)).map tighten := by
    rw [map_tighten_filter fun f hf => Parts.trimmed_of_mem_fields hs hf, halike.fields,
      ← map_tighten_filter fun f hf => Parts.trimmed_of_mem_fields ht hf]
  have hparams : (parts.fields.filter (!·.isEmpty)).mapM (fun p => (part p).outcome) =
      (parts'.fields.filter (!·.isEmpty)).mapM fun p => (part p).outcome := by
    refine mapM_congr_of_map hfilter fun f hf g hg hfg => ?_
    obtain ⟨hf, hfne⟩ := List.mem_filter.1 hf
    obtain ⟨hg, hgne⟩ := List.mem_filter.1 hg
    exact hfields f hf g hg (by simpa using hfne) (by simpa using hgne) (.of_tighten hfg)
  rw [outcome_describeFunction hs, outcome_describeFunction ht, hparams,
    hreturns (.of_tighten halike.returns), halike.indirection]

/-- Function types with plain blocks come out the same in two layouts if what is relaid in them
does. -/
theorem outcome_describeFunction_relaid {part : Text → Trace Text} (h : Relaid s t)
    (hs : HasPlainBlock (Reading.known s)) (ht : HasPlainBlock (Reading.known t))
    (hparts : ∀ parts parts', Parts.ofSpelling (Reading.known s) = .ok parts →
      Parts.ofSpelling (Reading.known t) = .ok parts' →
      (∀ f ∈ parts.fields, ∀ g ∈ parts'.fields, f ≠ [] → g ≠ [] → Relaid f g →
        (part f).outcome = (part g).outcome) ∧
      (Relaid parts.returns parts'.returns →
        (part parts.returns).outcome = (part parts'.returns).outcome)) :
    ((describeFunction part (Reading.known s)).map Signature.descriptor).outcome =
      ((describeFunction part (Reading.known t)).map Signature.descriptor).outcome := by
  have hclosed := Reading.along_markerClosed_known s
  have hclosed' := Reading.along_markerClosed_known t
  cases hknown : Parts.ofSpelling (Reading.known s) with
  | ok parts =>
    obtain ⟨parts', hknown', halike⟩ :=
      Parts.exists_alike h.tighten_known.symm hclosed hclosed' hs ht hknown
    obtain ⟨hfields, hreturns⟩ := hparts parts parts' hknown hknown'
    exact outcome_describeFunction_alike hknown hknown' halike hfields hreturns
  | error f =>
    cases hknown' : Parts.ofSpelling (Reading.known t) with
    | ok parts' =>
      obtain ⟨parts, hok, -⟩ :=
        Parts.exists_alike h.tighten_known hclosed' hclosed ht hs hknown'
      rw [hknown] at hok
      cases hok
    | error f' =>
      rw [outcome_describeFunction_of_error hknown, outcome_describeFunction_of_error hknown']

namespace Registry

variable {reg : Registry}

/-- Spellings without parentheses and commas that differ in their layout come out the same. -/
theorem outcome_descend_relaid_piece (config : Config) (hs : IsPiece s) (h : Relaid s t)
    (levels : Nat) (chain : List Text) :
    (reg.descend config levels chain s).outcome = (reg.descend config levels chain t).outcome := by
  cases levels with
  | zero => rfl
  | succ levels =>
    rw [outcome_descend_succ, outcome_descend_succ]
    have hnormal := h.normalize_eq hs
    by_cases hcolon : ':' ∈ s
    · rw [Reading.ofSpelling_of_colon _ _ hcolon,
        Reading.ofSpelling_of_colon _ _ (h.colon.1 hcolon)]
      rfl
    have hcolon' : ':' ∉ t := mt h.colon.2 hcolon
    by_cases hempty : normalize t = []
    · rw [Reading.ofSpelling_of_empty _ _ hcolon (hnormal.trans hempty),
        Reading.ofSpelling_of_empty _ _ hcolon' hempty]
      rfl
    · rw [Reading.ofSpelling_congr reg _ hcolon hcolon' hnormal hempty]

/-- Function types that differ in their layout come out the same if they are described alike. -/
theorem outcome_descend_relaid_function (hreg : reg.Without '(') (config : Config)
    (hs : isFunction (Reading.known s) = true) (ht : isFunction (Reading.known t) = true)
    (h : Relaid s t) {levels : Nat} {chain : List Text}
    (hdescribe : ((Reading.function (Reading.known s)).describe reg (reg.descend config levels)
        chain).outcome =
      ((Reading.function (Reading.known t)).describe reg (reg.descend config levels)
        chain).outcome) :
    (reg.descend config (levels + 1) chain s).outcome =
      (reg.descend config (levels + 1) chain t).outcome := by
  rw [outcome_descend_succ, outcome_descend_succ]
  by_cases hcolon : ':' ∈ s
  · rw [Reading.ofSpelling_of_colon _ _ hcolon,
      Reading.ofSpelling_of_colon _ _ (h.colon.1 hcolon)]
    rfl
  have hcolon' : ':' ∉ t := mt h.colon.2 hcolon
  cases hlocale : occurs localeStruct (normalize s) with
  | true =>
    rw [Reading.ofSpelling_of_locale _ _ hcolon hlocale,
      Reading.ofSpelling_of_locale _ _ hcolon' (h.occurs_localeStruct ▸ hlocale)]
  | false =>
    rw [Reading.ofSpelling_of_isFunction_known hreg _ hcolon hlocale hs,
      Reading.ofSpelling_of_isFunction_known hreg _ hcolon' (h.occurs_localeStruct ▸ hlocale) ht,
      hdescribe]

/-- **Spellings that differ in their layout come out the same if both are regular.** -/
theorem outcome_descend_relaid (hreg : reg.Without '(') (config : Config)
    (hs : Regular s) (ht : Regular t) (h : Relaid s t) (levels : Nat) (chain : List Text) :
    (reg.descend config levels chain s).outcome = (reg.descend config levels chain t).outcome := by
  induction hs generalizing t levels with
  | piece hs => exact outcome_descend_relaid_piece config hs h levels chain
  | function hfunction hplain _ _ ihfields ihreturns =>
    cases ht with
    | piece ht =>
      have hknown := Reading.isPiece_known (h.symm.isPiece ht)
      rw [isFunction_of_not_mem (hknown.not_mem (by decide))] at hfunction
      cases hfunction
    | function hfunction' hplain' hfields' hreturns' =>
      cases levels with
      | zero => rfl
      | succ levels =>
        refine outcome_descend_relaid_function hreg config hfunction hfunction' h ?_
        rw [Reading.describe, Reading.describe]
        refine outcome_describeFunction_relaid h hplain hplain' fun parts parts' hp hp' => ⟨?_, ?_⟩
        · intro f hf g hg hfne hgne hfg
          exact ihfields parts hp f hf hfne (hfields' parts' hp' g hg hgne) hfg levels
        · exact fun hreturns => ihreturns parts hp (hreturns' parts' hp') hreturns levels

end Registry

end CSpelling

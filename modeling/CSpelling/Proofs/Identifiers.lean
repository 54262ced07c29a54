import CSpelling.Proofs.Annotations
import CSpelling.Proofs.Cuts

/-!
# Identifiers for names without a tag

A compiler describes an aggregate without a tag by its kind, the scopes around it and an annotation
in parentheses. `sanitize` legalises the annotation from its parenthesis up to the first closing
one, and finds that parenthesis where it was before the marking word went. So an identifier comes
out exactly if the word that goes is the one of the annotation, and no closing parenthesis stands
in the annotation itself (`isIdentifier_sanitize_iff`): what is not legalised otherwise is a
parenthesis, and normalising keeps every character but those of words and white space
(`mem_normalize_iff`).
-/

namespace CSpelling

open Text

variable {s t : Text} {c : Char}

/-! ## Parentheses that stay -/

/-- A parenthesis that is not legalised stays. -/
theorem mem_settleName (hc : c ∈ ['(', ')']) (h : c ∈ s) : c ∈ settleName s := by
  have hparens : ∀ d ∈ ['(', ')'], isWordChar d = false ∧ isBlank d = false ∧ d ≠ ':' ∧
      ∀ keyword ∈ [structKeyword, unionKeyword, enumKeyword], d ∉ keyword := by
    decide
  obtain ⟨hword, hblank, hcolon, hkeywords⟩ := hparens c hc
  have hlettered : c ∈ lettered s := List.mem_map.2 ⟨c, h, if_neg hcolon⟩
  have hspelling := (mem_normalize_iff hword hblank).2 hlettered
  unfold settleName
  generalize normalize _ = spelling at hspelling
  dsimp only
  cases hafter : afterKeyword? [structKeyword, unionKeyword, enumKeyword] spelling with
  | none => exact hspelling
  | some rest =>
    obtain ⟨keyword, hkeyword, hdrop⟩ := List.exists_of_findSome?_eq_some hafter
    rw [dropStart?_eq_some_iff.1 hdrop] at hspelling
    exact (List.mem_append.1 hspelling).resolve_left (hkeywords keyword hkeyword)

/-- If the word goes from the front, the parenthesis moves to where nothing is legalised. -/
theorem mem_take_removeFirst (hs : anonymousWord <:+: s) (t : Text) :
    '(' ∈ (removeFirst anonymousWord (s ++ '(' :: (anonymousWord ++ t))).take s.length := by
  obtain ⟨a, b, rfl⟩ := hs
  generalize htail : '(' :: (anonymousWord ++ t) = tail
  have hsplit : a ++ anonymousWord ++ b ++ tail = a ++ (anonymousWord ++ (b ++ tail)) := by
    simp only [List.append_assoc]
  obtain ⟨⟨before, after⟩, hcut⟩ : ∃ halves,
      cut anonymousWord (a ++ anonymousWord ++ b ++ tail) = some halves :=
    Option.isSome_iff_exists.1 ((occurs_iff (by decide)).2 ⟨a, b ++ tail, by simp⟩)
  have hlength := length_le_of_cut hcut hsplit
  have hwhole := eq_of_cut hcut
  -- The word that goes lies in the front, so the front is cut in the same way.
  have hprefix : before ++ anonymousWord <+: a ++ anonymousWord ++ b :=
    List.prefix_of_prefix_length_le ⟨after, hwhole.symm⟩ ⟨tail, rfl⟩ (by simp; omega)
  obtain ⟨z, hz⟩ := hprefix
  have hafter : after = z ++ tail := by
    rw [← hz, List.append_assoc] at hwhole
    exact (List.append_cancel_left hwhole).symm
  have htake : (before ++ anonymousWord ++ z).length = (before ++ z).length + 9 := by
    have hnine : anonymousWord.length = 9 := by decide
    simp only [List.length_append, hnine]
    omega
  rw [removeFirst, hcut]
  show '(' ∈ (before ++ after).take (a ++ anonymousWord ++ b).length
  rw [← hz, htake, hafter, ← htail, ← List.append_assoc, List.take_length_add_append]
  simp

/-! ## Described names -/

/-- The character may stand in an identifier. -/
def isIdentifierChar (c : Char) : Bool := c.isAlphanum || c = '_'

/-- The text is an identifier: there is something, in ASCII letters, digits and underscores. -/
structure IsIdentifier (s : Text) : Prop where
  /-- There is something. -/
  ne_nil : s ≠ []
  /-- All characters may stand in an identifier. -/
  chars : ∀ c ∈ s, isIdentifierChar c = true

instance (s : Text) : Decidable (IsIdentifier s) :=
  decidable_of_iff (s ≠ [] ∧ ∀ c ∈ s, isIdentifierChar c = true)
    ⟨fun h => ⟨h.1, h.2⟩, fun h => ⟨h.ne_nil, h.chars⟩⟩

theorem IsIdentifier.isWord (h : IsIdentifier s) : IsWord s :=
  ⟨h.ne_nil, fun c hc => Bool.or_eq_true_iff.2 (.inl (h.chars c hc))⟩

theorem IsIdentifier.not_mem (h : IsIdentifier s) (hc : isIdentifierChar c = false) : c ∉ s :=
  fun hmem => by simp [h.chars c hmem] at hc

/-- The scopes around an aggregate, outermost first. -/
def scopesText (owners : List Text) : Text := owners.flatMap fun owner => owner ++ [':', ':']

/-- The name by which a compiler describes an aggregate without a tag. -/
def describedName (kind : Option Aggregate) (owners : List Text) (text : Text) : Text :=
  kindText kind ++ scopesText owners ++ '(' :: (anonymousWord ++ (text ++ [')']))

variable {kind : Option Aggregate} {owners : List Text} {text : Text}

theorem not_mem_front (howners : ∀ owner ∈ owners, IsIdentifier owner) :
    '(' ∉ kindText kind ++ scopesText owners := by
  have hkind : '(' ∉ kindText kind := by
    cases kind with
    | none => exact List.not_mem_nil
    | some a => cases a <;> decide
  refine List.not_mem_append hkind fun hmem => ?_
  obtain ⟨owner, howner, hmem⟩ := List.mem_flatMap.1 hmem
  exact (List.mem_append.1 hmem).elim ((howners owner howner).not_mem (by decide)) (by decide)

theorem not_infix_scopesText (h : ∀ owner ∈ owners, ¬anonymousWord <:+: owner) :
    ¬anonymousWord <:+: scopesText owners := by
  induction owners with
  | nil => decide
  | cons owner rest ih =>
    have hcolon : ':' ∉ anonymousWord := by decide
    have hrest := ih fun o ho => h o (List.mem_cons_of_mem owner ho)
    have hsplit : scopesText (owner :: rest) = owner ++ ':' :: ([] ++ ':' :: scopesText rest) := by
      simp [scopesText]
    rw [hsplit]
    exact not_infix_append_cons hcolon (h owner List.mem_cons_self)
      (not_infix_append_cons hcolon (by decide) hrest)

/-- The marking word is in the front exactly if it is in an owner. -/
theorem infix_front_iff :
    anonymousWord <:+: kindText kind ++ scopesText owners ↔
      ∃ owner ∈ owners, anonymousWord <:+: owner := by
  constructor
  · intro h
    by_contra hnone
    push Not at hnone
    have hscopes := not_infix_scopesText hnone
    cases kind with
    | none => exact hscopes h
    | some a =>
      have hsplit : kindText (some a) ++ scopesText owners =
          a.keyword ++ ' ' :: scopesText owners := by
        simp [kindText]
      rw [hsplit] at h
      exact not_infix_append_cons (by decide) (by cases a <;> decide) hscopes h
  · rintro ⟨owner, howner, h⟩
    have howners : owner <:+: scopesText owners :=
      (List.prefix_append owner _).isInfix.trans
        (List.infix_of_mem_flatten (List.mem_map_of_mem howner))
    exact h.trans (howners.trans (List.suffix_append _ _).isInfix)

/-! ## Identifiers -/

/-- The owners, with letters for the colons between them. -/
def joinedOwners (owners : List Text) : Text := owners.flatMap fun owner => owner ++ ['D', 'D']

theorem lettered_front (howners : ∀ owner ∈ owners, IsIdentifier owner) :
    lettered (kindText kind ++ scopesText owners) = kindText kind ++ joinedOwners owners := by
  have hkind : lettered (kindText kind) = kindText kind := by
    cases kind with
    | none => rfl
    | some a => cases a <;> decide
  have hscopes : lettered (scopesText owners) = joinedOwners owners := by
    rw [lettered, scopesText, joinedOwners, List.map_flatMap]
    refine List.flatMap_congr fun owner howner => ?_
    show lettered (owner ++ [':', ':']) = owner ++ ['D', 'D']
    rw [lettered_append, lettered_of_not_mem ((howners owner howner).not_mem (by decide))]
    rfl
  rw [lettered_append, hkind, hscopes]

/-- The annotation alone is legalised: the name is the owners and what is in the parentheses. -/
theorem sanitize_describedName (kind : Option Aggregate)
    (howners : ∀ owner ∈ owners, IsIdentifier owner)
    (hfree : ∀ owner ∈ owners, ¬anonymousWord <:+: owner)
    (htext : ∀ c ∈ text, isIdentifierChar c = true ∨ isIllegal c = true) (hclose : ')' ∉ text) :
    let name := joinedOwners owners ++ '_' :: (text.map legal ++ ['_'])
    sanitize (describedName kind owners text) = name ∧ IsIdentifier name := by
  intro name
  have hunder : isIdentifierChar '_' = true := by decide
  have hinside : ∀ c ∈ '_' :: (text.map legal ++ ['_']), isIdentifierChar c = true := by
    intro c hc
    rcases List.mem_cons.1 hc with rfl | hc
    · exact hunder
    rcases List.mem_append.1 hc with hc | hc
    · obtain ⟨d, hd, rfl⟩ := List.mem_map.1 hc
      unfold legal
      split_ifs with hillegal
      · exact hunder
      · exact (htext d hd).resolve_right hillegal
    · rwa [List.mem_singleton.1 hc]
  have hname : IsIdentifier name := by
    refine ⟨by simp [name], fun c hc => ?_⟩
    rcases List.mem_append.1 hc with hc | hc
    · obtain ⟨owner, howner, hc⟩ := List.mem_flatMap.1 hc
      rcases List.mem_append.1 hc with hc | hc
      · exact (howners owner howner).chars c hc
      · exact (by decide : ∀ d ∈ ['D', 'D'], isIdentifierChar d = true) c hc
    · exact hinside c hc
  refine ⟨?_, hname⟩
  have hfront : ¬anonymousWord <:+: kindText kind ++ scopesText owners := fun h => by
    obtain ⟨owner, howner, hin⟩ := infix_front_iff.1 h
    exact hfree owner howner hin
  rw [describedName, sanitize_of_not_infix (not_mem_front howners) hfront,
    legalise_parenthesized hclose]
  have hcolon : ':' ∉ '_' :: (text.map legal ++ ['_']) := fun hmem =>
    absurd (hinside ':' hmem) (by decide)
  have hlast : name.getLast? = some '_' := by
    have hsplit : name = (joinedOwners owners ++ '_' :: text.map legal) ++ ['_'] := by simp [name]
    rw [hsplit, List.getLast?_concat]
  have hqualifiers : ∀ q ∈ qualifiers, q.getLast? ≠ some '_' := by decide
  refine settleName_word kind hname.isWord (fun hq => hqualifiers name hq hlast) ?_
  rw [lettered_append, lettered_front howners, lettered_of_not_mem hcolon, List.append_assoc]

/-- **When a described name becomes an identifier**: exactly if the marking word is in no owner and
no closing parenthesis is in the annotation. -/
theorem isIdentifier_sanitize_iff (kind : Option Aggregate) (owners : List Text)
    (howners : ∀ owner ∈ owners, IsIdentifier owner) (text : Text)
    (htext : ∀ c ∈ text, isIdentifierChar c = true ∨ isIllegal c = true) :
    IsIdentifier (sanitize (describedName kind owners text)) ↔
      (∀ owner ∈ owners, ¬anonymousWord <:+: owner) ∧ ')' ∉ text := by
  constructor
  · intro h
    have hfront : ¬anonymousWord <:+: kindText kind ++ scopesText owners := fun hin => by
      refine h.not_mem (c := '(') (by decide) ?_
      rw [describedName, sanitize_annotated (not_mem_front howners)]
      exact mem_settleName (by decide) (List.mem_append_left _ (mem_take_removeFirst hin _))
    refine ⟨fun owner howner hin => hfront (infix_front_iff.2 ⟨owner, howner, hin⟩), fun hmem => ?_⟩
    obtain ⟨before, after, rfl, hbefore⟩ := List.eq_append_cons_of_mem hmem
    have hsplit : '(' :: (before ++ ')' :: after ++ [')']) =
        ('(' :: before) ++ ')' :: (after ++ [')']) := by
      simp
    have hopen : ')' ∉ '(' :: before := by simp [hbefore]
    refine h.not_mem (c := ')') (by decide) ?_
    rw [describedName, sanitize_of_not_infix (not_mem_front howners) hfront, hsplit,
      legalise_append hopen]
    exact mem_settleName (by decide) (by simp)
  · rintro ⟨hfree, hclose⟩
    obtain ⟨heq, hname⟩ := sanitize_describedName kind howners hfree htext hclose
    rwa [heq]

/-- A union in a structure keeps its owner; one in a file whose name has parentheses, and one in a
structure with the marking word in its name, do not become identifiers. -/
theorem isIdentifier_sanitize_iff_places :
    sanitize (describedName (some .struct) ["siginfo_t".toList] " at a.h:119:2".toList) =
        "siginfo_tDD__at_a_h_119_2_".toList ∧
      IsIdentifier (sanitize
        (describedName (some .struct) ["siginfo_t".toList] " at a.h:119:2".toList)) ∧
      ¬IsIdentifier (sanitize (describedName (some .struct) [] " struct at a(1).c:1:1".toList)) ∧
      ¬IsIdentifier (sanitize
        (describedName (some .struct) ["anonymous_pair".toList] " at a.h:1:2".toList)) := by
  refine ⟨by decide +kernel, ?_, ?_, ?_⟩
  · exact (isIdentifier_sanitize_iff _ _ (by decide) _ (by decide)).2 ⟨by decide, by decide⟩
  · exact fun h => ((isIdentifier_sanitize_iff _ _ (by decide) _ (by decide)).1 h).2 (by decide)
  · exact fun h => ((isIdentifier_sanitize_iff _ _ (by decide) _ (by decide)).1 h).1
      "anonymous_pair".toList (by decide) (by decide)

end CSpelling

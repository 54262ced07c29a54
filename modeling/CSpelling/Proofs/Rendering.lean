import CSpelling.Proofs.Decorations
import CSpelling.Proofs.Scanning
import CSpelling.Proofs.Splitting

/-!
# Rendered declarators

What a declarator adds to the spelling of a type has matching parentheses, and its commas stand
inside of them (`isField_suffix`), whatever functions its parameters hold in turn. So the spelling
that a scan records for a function is split into what it was rendered from
(`ofSpelling_function`): the returned type with its stars, the stars of the block but for one,
and the spellings of the parameters.

The parts come out without white space at their ends, which a type with an empty tag or qualifier
has (`scan_of_blank_tag`).
-/

namespace CSpelling

open Text

/-- The character may stand in the spelling of a plain type. -/
def isTypeChar (c : Char) : Bool := isWordChar c || c = ' '

namespace Declarator

/-! ## Plain declarators -/

mutual

/-- Array sizes are integer constants or left out, and the types of parameters are spelled in
words. -/
def isPlain : Declarator → Bool
  | .absent => true
  | .name _ => true
  | .pointer inner => inner.isPlain
  | .array inner size => inner.isPlain && (size.isEmpty || (sizeLiteral? size).isSome)
  | .function inner parameters => inner.isPlain && arePlain parameters
  | .parenthesized inner => inner.isPlain
  | .decorated inner => inner.isPlain
  | .foreign inner => inner.isPlain

/-- All parameters are plain. -/
def arePlain : List Parameter → Bool
  | [] => true
  | parameter :: rest => isPlainParameter parameter && arePlain rest

/-- A parameter is plain if its type is spelled in words and its declarator is plain. -/
def isPlainParameter : Parameter → Bool
  | .variadic => true
  | .declared base declarator => base.all isTypeChar && declarator.isPlain

end

/-! ## Sizes -/

theorem isDigit_of_mem_numeral? {n : Nat} {digits : Text} (h : numeral? n = some digits) {c : Char}
    (hc : c ∈ digits) : c.isDigit = true := by
  simp only [numeral?, Option.ite_none_right_eq_some, Option.some.injEq] at h
  rw [← h.2] at hc
  exact Nat.isDigit_of_mem_toDigits (by decide) (by decide) hc

/-- The size of an array is written in digits, or it is left out. -/
theorem isDigit_of_mem_sizeText? {size digits : Text}
    (hsize : size.isEmpty || (sizeLiteral? size).isSome) (h : sizeText? size = some digits)
    {c : Char} (hc : c ∈ digits) : c.isDigit = true := by
  unfold sizeText? at h
  cases hliteral : sizeLiteral? size with
  | none =>
    rw [hliteral] at h hsize
    obtain rfl : size = [] := by simpa using hsize
    obtain rfl := Option.some.inj h
    cases hc
  | some literal =>
    rw [hliteral] at h
    obtain ⟨n, -, hn⟩ := Option.bind_eq_some_iff.1 h
    exact isDigit_of_mem_numeral? hn hc

/-! ## Fields -/

/-- The text is a field, and does not begin a marker. -/
structure IsArgument (s : Text) : Prop where
  /-- It is a field. -/
  field : IsField s
  /-- It does not begin with a star. -/
  head : s.head? ≠ some '*'

theorem ne_of_isTypeChar {c : Char} (h : isTypeChar c = true) :
    c ≠ '(' ∧ c ≠ ')' ∧ c ≠ ',' ∧ c ≠ '*' := by
  have hfalse : ∀ d ∈ ['(', ')', ',', '*'], isTypeChar d = false := by decide
  have hne (d : Char) (hd : d ∈ ['(', ')', ',', '*']) : c ≠ d := by
    rintro rfl
    simp [hfalse c hd] at h
  exact ⟨hne _ (by simp), hne _ (by simp), hne _ (by simp), hne _ (by simp)⟩

/-- A type in words with a field behind it is an argument. -/
theorem isArgument_withSuffix {base suffix : Text} (hbase : base.all isTypeChar = true)
    (hsuffix : IsField suffix) : IsArgument (withSuffix base suffix) := by
  have hchars (c : Char) (hc : c ∈ base) := ne_of_isTypeChar (List.all_eq_true.1 hbase c hc)
  have hfield : IsField base :=
    IsField.of_forall fun c hc => ⟨(hchars c hc).1, (hchars c hc).2.1, (hchars c hc).2.2.1⟩
  have hhead : base.head? ≠ some '*' := fun h => (hchars '*' (List.mem_of_head? h)).2.2.2 rfl
  unfold withSuffix
  split_ifs
  · exact ⟨hfield, hhead⟩
  · refine ⟨hfield.append hsuffix.cons_space, ?_⟩
    cases base with
    | nil => simp
    | cons c rest => simpa using hhead

mutual

/-- **What a plain declarator adds is a field.** -/
theorem isField_suffix (d : Declarator) {s : Text} (hd : d.isPlain = true)
    (hs : d.suffix? = some s) : IsField s := by
  cases d with
  | absent =>
    obtain rfl : [] = s := Option.some.inj hs
    exact IsField.of_forall (by simp)
  | name _ =>
    obtain rfl : [] = s := Option.some.inj hs
    exact IsField.of_forall (by simp)
  | pointer inner =>
    obtain ⟨before, hbefore, rfl⟩ := Option.map_eq_some_iff.1 hs
    exact (IsField.of_forall (s := ['*']) (by decide)).append (isField_suffix inner hd hbefore)
  | array inner size =>
    obtain ⟨hinner, hsize⟩ := Bool.and_eq_true_iff.1 hd
    obtain ⟨before, hbefore, hs⟩ := Option.bind_eq_some_iff.1 hs
    obtain ⟨digits, hdigits, hs⟩ := Option.bind_eq_some_iff.1 hs
    obtain rfl := Option.some.inj hs
    have hgroup : IsField ('[' :: digits ++ [']']) := by
      refine IsField.of_forall fun c hc => ?_
      rcases List.mem_append.1 hc with hc | hc
      · rcases List.mem_cons.1 hc with rfl | hc
        · decide
        · have hdigit := isDigit_of_mem_sizeText? hsize hdigits hc
          exact Decorations.of_isDigit (P := fun c => c ≠ '(' ∧ c ≠ ')' ∧ c ≠ ',') (by decide)
            hdigit
      · rw [List.mem_singleton.1 hc]
        decide
    simpa using (isField_suffix inner hinner hbefore).append hgroup
  | function inner parameters =>
    obtain ⟨hinner, hparameters⟩ := Bool.and_eq_true_iff.1 hd
    obtain ⟨before, hbefore, hs⟩ := Option.bind_eq_some_iff.1 hs
    obtain ⟨fields, hfields, hs⟩ := Option.bind_eq_some_iff.1 hs
    obtain rfl := Option.some.inj hs
    have hjoined := balanced_intercalate fun f hf =>
      (isArgument_texts parameters hparameters hfields f hf).field.balanced
    simpa [listSeparator] using
      (isField_suffix inner hinner hbefore).append (IsField.parenthesized hjoined)
  | parenthesized inner =>
    obtain ⟨before, hbefore, rfl⟩ := Option.map_eq_some_iff.1 hs
    exact IsField.parenthesized (isField_suffix inner hd hbefore).balanced
  | decorated inner => exact isField_suffix inner hd hs
  | foreign inner => exact isField_suffix inner hd hs

/-- The spellings of plain parameters are arguments. -/
theorem isArgument_texts (parameters : List Parameter) {fields : List Text}
    (hparameters : arePlain parameters = true)
    (hfields : parameterTexts? parameters = some fields) : ∀ f ∈ fields, IsArgument f := by
  cases parameters with
  | nil =>
    obtain rfl : [] = fields := Option.some.inj hfields
    simp
  | cons parameter rest =>
    obtain ⟨hparameter, hrest⟩ := Bool.and_eq_true_iff.1 hparameters
    obtain ⟨field, hfield, hfields⟩ := Option.bind_eq_some_iff.1 hfields
    obtain ⟨others, hothers, hfields⟩ := Option.bind_eq_some_iff.1 hfields
    obtain rfl := Option.some.inj hfields
    intro f hf
    rcases List.mem_cons.1 hf with rfl | hf
    · exact isArgument_text parameter hparameter hfield
    · exact isArgument_texts rest hrest hothers f hf

/-- The spelling of a plain parameter is an argument. -/
theorem isArgument_text (parameter : Parameter) {field : Text}
    (hparameter : isPlainParameter parameter = true)
    (hfield : parameterText? parameter = some field) : IsArgument field := by
  cases parameter with
  | variadic =>
    obtain rfl : "...".toList = field := Option.some.inj hfield
    exact ⟨IsField.of_forall (by decide), by decide⟩
  | declared base declarator =>
    obtain ⟨hbase, hdeclarator⟩ := Bool.and_eq_true_iff.1 hparameter
    obtain ⟨suffix, hsuffix, rfl⟩ := Option.map_eq_some_iff.1 hfield
    exact isArgument_withSuffix hbase (isField_suffix declarator hdeclarator hsuffix)

end

/-- Arguments make no marker with the parentheses around them. -/
theorem not_prefix_intercalate {fields : List Text} (h : ∀ f ∈ fields, IsArgument f) :
    ¬['*', ')'] <+: listSeparator.intercalate fields ++ [')'] := by
  intro hpre
  have hhead : (listSeparator.intercalate fields ++ [')']).head? = some '*' := by
    obtain ⟨rest, hrest⟩ := hpre
    rw [← hrest]
    rfl
  cases fields with
  | nil => exact absurd hhead (by decide)
  | cons field rest =>
    have hfield := (h field (by simp)).head
    cases field with
    | nil => cases rest <;> simp [List.intercalate_cons_cons, listSeparator] at hhead
    | cons c tail => cases rest <;> simp_all [List.intercalate_cons_cons]

/-! ## Functions -/

/-- Pointers around a declarator. -/
def pointers : Nat → Declarator → Declarator
  | 0, inner => inner
  | j + 1, inner => .pointer (pointers j inner)

/-- The name of a function, or the name of a pointer to a function in its parentheses. -/
def functionName (name : Text) : Nat → Declarator
  | 0 => .name name
  | k + 1 => .parenthesized (pointers (k + 1) (.name name))

/-- The trimmed spellings of parameters; an empty one stands for none. -/
def argumentFields : List Text → List Text
  | [] => [[]]
  | field :: rest => (field :: rest).map strip

theorem suffix?_pointers (j : Nat) (inner : Declarator) :
    (pointers j inner).suffix? = inner.suffix?.map (List.replicate j '*' ++ ·) := by
  induction j with
  | zero => simp [pointers]
  | succ j ih => rw [pointers, suffix?, ih, Option.map_map]; rfl

theorem declaredName_pointers (j : Nat) (inner : Declarator) :
    (pointers j inner).declaredName = inner.declaredName := by
  induction j with
  | zero => rfl
  | succ j ih => exact ih

/-- The stars of a block in their parentheses. -/
theorem suffix?_functionName (name : Text) (k : Nat) : (functionName name k).suffix? =
    some (if k = 0 then [] else '(' :: (List.replicate k '*' ++ [')'])) := by
  cases k with
  | zero => rfl
  | succ k => simp [functionName, suffix?, suffix?_pointers]

theorem topFields_arguments {fields : List Text} (h : ∀ f ∈ fields, IsArgument f) :
    topFields (listSeparator.intercalate fields) = argumentFields fields := by
  cases fields with
  | nil => rfl
  | cons field rest => exact topFields_intercalate fun f hf => (h f hf).field

variable {base : Text}

/-- A type with a word in it, or with a star behind it, is not blank. -/
theorem strip_stars_ne_nil {j : Nat} (h : base.any isWordChar = true ∨ 0 < j) :
    strip (base ++ ' ' :: List.replicate j '*') ≠ [] := by
  have hmark : ∃ c ∈ base ++ ' ' :: List.replicate j '*', isBlank c = false := by
    rcases h with hword | hj
    · obtain ⟨c, hc, hword⟩ := List.any_eq_true.1 hword
      refine ⟨c, List.mem_append_left _ hc, Bool.eq_false_iff.2 fun hblank => ?_⟩
      simp [not_isWordChar_of_isBlank hblank] at hword
    · exact ⟨'*', by simp [Nat.pos_iff_ne_zero.1 hj], isBlank_star⟩
  obtain ⟨c, hc⟩ := hmark
  have hstrip := mem_marks.2 hc
  rw [← marks_strip] at hstrip
  exact List.ne_nil_of_mem (mem_marks.1 hstrip).1

/-- A type with stars behind it, up to a space at its end. -/
theorem strip_stars (base : Text) (j : Nat) :
    strip (base ++ ' ' :: List.replicate j '*') = strip (Decorations.starred base j) := by
  cases j with
  | zero => exact strip_append_gap isGap_space base
  | succ j => rfl

/-- **The spelling of a function is split into what it was rendered from**: the returned type with
its stars, all stars but one of the parentheses around the name, and the parameters. -/
theorem ofSpelling_function (hbase : base.all isTypeChar = true)
    {j k : Nat} (hsome : base.any isWordChar = true ∨ 0 < j + k) {parameters : List Parameter}
    {fields : List Text} (hparameters : arePlain parameters = true)
    (hfields : parameterTexts? parameters = some fields) {name suffix : Text}
    (hsuffix : (pointers j (.function (functionName name k) parameters)).suffix? = some suffix) :
    Parts.ofSpelling (withSuffix base suffix) =
      .ok ⟨List.replicate (k - 1) '*', argumentFields fields,
        strip (Decorations.starred base j)⟩ := by
  have hall := isArgument_texts parameters hparameters hfields
  have hbalanced : Balanced (listSeparator.intercalate fields) :=
    balanced_intercalate fun f hf => (hall f hf).field.balanced
  have hmarker := not_prefix_intercalate hall
  have htext : suffix = List.replicate j '*' ++
      ((if k = 0 then [] else '(' :: (List.replicate k '*' ++ [')'])) ++
        '(' :: (listSeparator.intercalate fields ++ [')'])) := by
    rw [suffix?_pointers, suffix?, suffix?_functionName, hfields] at hsuffix
    exact (Option.some.inj hsuffix).symm.trans (by simp [listSeparator])
  have hwhole : withSuffix base suffix = base ++ ' ' :: suffix := by
    rw [withSuffix, if_neg]
    simp [htext]
  rw [hwhole, htext, ← topFields_arguments hall, ← strip_stars]
  cases k with
  | zero =>
    have hclose : (strip (base ++ ' ' :: List.replicate j '*')).getLast? ≠ some ')' := by
      intro hlast
      have hmem := mem_of_mem_strip (List.mem_of_getLast? hlast)
      rcases List.mem_append.1 hmem with hmem | hmem
      · exact (ne_of_isTypeChar (List.all_eq_true.1 hbase _ hmem)).2.1 rfl
      · simp [List.mem_replicate] at hmem
    simpa using Parts.ofSpelling_closed hbalanced hmarker (strip_stars_ne_nil hsome) hclose
  | succ k =>
    have hblock : ∀ c ∈ List.replicate (k + 1) '*', c ≠ '(' ∧ c ≠ ')' := by
      intro c hc
      rw [List.eq_of_mem_replicate hc]
      decide
    have hstars : strip ((List.replicate (k + 1) '*').erase '*') = List.replicate k '*' := by
      have hmark : ∀ c ∈ List.replicate k '*', isBlank c = false := fun c hc => by
        rw [List.eq_of_mem_replicate hc]
        exact isBlank_star
      rw [List.erase_replicate, if_pos (by simp)]
      exact strip_of_trimmed
        ⟨fun c hc => hmark c (List.mem_of_head? hc), fun c hc => hmark c (List.mem_of_getLast? hc)⟩
    have h := Parts.ofSpelling_blocked hbalanced hmarker hblock isGap_nil
      (base ++ ' ' :: List.replicate j '*')
    rw [hstars] at h
    simpa using h

/-! ## Recorded functions -/

/-- **What a scan records for a function is split into what stands in the tree.** Let a declaration
have a type spelled in words, and a declarator of pointers around a function, which is named
directly or through pointers in parentheses. Unless nothing but white space stands in front of the
parameters, the recorded spelling has these parts: the type with its stars, the stars in the
parentheses but for one, and the spellings of the parameters. All parts are trimmed. -/
theorem ofSpelling_recorded (src : Source) (root : Node) (decls : List Declaration)
    (hscan : src.scan root = some decls) (node type d : Node) (hnode : node ∈ root.preorder)
    (hkind : Source.DeclaresObjects node) (htype : node.child? .type = some type)
    (hd : d ∈ node.childrenWith .declarator) (j k : Nat) (name : Text)
    (parameters : List Parameter)
    (hshape : ofNode src d = pointers j (.function (functionName name k) parameters))
    (hparameters : arePlain parameters = true)
    (hbase : (src.baseAmong node.children type).all isTypeChar = true)
    (hsome : (src.baseAmong node.children type).any isWordChar = true ∨ 0 < j + k) :
    ∃ suffix kind fields, (ofNode src d).suffix? = some suffix ∧
      Source.declare (src.baseAmong node.children type) kind d (ofNode src d) suffix ∈ decls ∧
      parameterTexts? parameters = some fields ∧
      Parts.ofSpelling (withSuffix (src.baseAmong node.children type) suffix) =
        .ok ⟨List.replicate (k - 1) '*', argumentFields fields,
          strip (Decorations.starred (src.baseAmong node.children type) j)⟩ := by
  obtain ⟨suffix, kind, hsuffix, hmem⟩ := Source.exists_recorded hscan hnode hkind htype hd
  rw [hshape] at hsuffix
  obtain ⟨fields, hfields⟩ : ∃ fields, parameterTexts? parameters = some fields := by
    rw [suffix?_pointers, suffix?, suffix?_functionName] at hsuffix
    cases hfields : parameterTexts? parameters with
    | none => simp [hfields] at hsuffix
    | some fields => exact ⟨fields, rfl⟩
  exact ⟨suffix, kind, fields, by rw [hshape, hsuffix], hmem, hfields,
    ofSpelling_function hbase hsome hparameters hfields hsuffix⟩

/-- A pointer to a pointer to a function that takes a function. -/
def callbackSource : Source := ⟨"input.c".toList, "char *(**f)(int (*)(char), ...);".toList⟩

/-- The type of `callbackSource`. -/
def callbackType : Node := .onLine .primitiveType (some .type) 0 4 []

/-- The declarator of `callbackSource`. -/
def callbackDeclarator : Node :=
  .onLine .pointer (some .declarator) 5 31 [
    .onLine .function (some .declarator) 6 31 [
      .onLine .parenthesized (some .declarator) 6 11 [
        .onLine .pointer none 7 10 [
          .onLine .pointer (some .declarator) 8 10 [
            .onLine .name (some .declarator) 9 10 []]]],
      .onLine .other (some .parameters) 11 31 [
        .onLine .parameter none 12 25 [
          .onLine .primitiveType (some .type) 12 15 [],
          .onLine .function (some .declarator) 16 25 [
            .onLine .parenthesized (some .declarator) 16 19 [
              .onLine .pointer none 17 18 []],
            .onLine .other (some .parameters) 19 25 [
              .onLine .parameter none 20 24 [
                .onLine .primitiveType (some .type) 20 24 []]]]],
        .onLine .variadic none 27 30 []]]]

/-- The declaration that `callbackSource` consists of. -/
def callbackNode : Node := .onLine .declaration none 0 32 [callbackType, callbackDeclarator]

/-- The spelling of `callbackSource` is split into a star, two parameters and a pointer. -/
theorem ofSpelling_recorded_callback :
    ∃ suffix kind fields, (ofNode callbackSource callbackDeclarator).suffix? = some suffix ∧
      Source.declare "char".toList kind callbackDeclarator
        (ofNode callbackSource callbackDeclarator) suffix ∈
          [⟨"f".toList, .variable, "char *(**)(int (*)(char), ...)".toList, ⟨1, 5, 1, 31⟩⟩] ∧
      parameterTexts? [.declared "int".toList (.function (.parenthesized (.pointer .absent))
        [.declared "char".toList .absent]), .variadic] = some fields ∧
      Parts.ofSpelling (withSuffix "char".toList suffix) =
        .ok ⟨['*'], argumentFields fields, "char *".toList⟩ :=
  ofSpelling_recorded callbackSource callbackNode _ (by rfl) callbackNode callbackType
    callbackDeclarator (by simp [callbackNode, Node.onLine, Node.preorder]) (.inl rfl) rfl
    (by simp [callbackNode, callbackType, callbackDeclarator, Node.onLine, Node.childrenWith])
    1 2 "f".toList
    [.declared "int".toList (.function (.parenthesized (.pointer .absent))
      [.declared "char".toList .absent]), .variadic] (by rfl) (by decide +kernel)
    (by decide +kernel) (.inr (by decide))

/-- A function that returns a structure with an empty tag. -/
def blankTagSource : Source := ⟨"input.c".toList, "struct f(int);".toList⟩

/-- The type of `blankTagSource`. -/
def blankTagType : Node :=
  .onLine (.aggregate .struct) (some .type) 0 6 [.onLine .name (some .name) 6 6 []]

/-- The declarator of `blankTagSource`. -/
def blankTagDeclarator : Node :=
  .onLine .function (some .declarator) 7 13 [
    .onLine .name (some .declarator) 7 8 [],
    .onLine .other (some .parameters) 8 13 [
      .onLine .parameter none 9 12 [.onLine .primitiveType (some .type) 9 12 []]]]

/-- The declaration that `blankTagSource` consists of. -/
def blankTagNode : Node := .onLine .declaration none 0 14 [blankTagType, blankTagDeclarator]

/-- The returned type comes out without the white space that it was recorded with. -/
theorem scan_of_blank_tag :
    blankTagSource.scan blankTagNode =
        some [⟨"f".toList, .function, "struct  (int)".toList, ⟨1, 7, 1, 13⟩⟩] ∧
      blankTagSource.baseAmong blankTagNode.children blankTagType = "struct ".toList ∧
      "struct ".toList.all isTypeChar = true ∧
      ofNode blankTagSource blankTagDeclarator =
        .function (.name "f".toList) [.declared "int".toList .absent] ∧
      Parts.ofSpelling "struct  (int)".toList ≠ .ok ⟨[], ["int".toList], "struct ".toList⟩ := by
  refine ⟨by rfl, by rfl, by decide +kernel, by rfl, by decide +kernel⟩

end Declarator

end CSpelling

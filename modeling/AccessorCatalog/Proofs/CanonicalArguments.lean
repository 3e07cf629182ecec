/-
# Arguments as they are written

An argument in canonical form (`Argument.InCanonicalForm`) is a type, with an array suffix or not, a
name and a default value; the name and the default value may be missing.  It is read back from the
field of an argument list that it is written as (`Argument.InCanonicalForm.isField`), with a space
in front of the default value or without: the normalizer puts one behind a decoration.

A field is cut at its `=`, and in front of that its words outside brackets are a type and a name.
Why the last word is the name is the same for each form of a declaration (`IsDeclared`): it starts
with no builtin type and ends in no decoration.  Fields that are joined are found again at the
commas (`splitArguments_join`).
-/
import AccessorCatalog.Proofs.CanonicalTypes
import AccessorCatalog.Proofs.Declarators
import AccessorCatalog.Proofs.SpreadBrackets

namespace AccessorCatalog.Declaration

open Text (isBlank isWord IsSpaced Depth Whole)
open ClassName (IsIdentifier)
open Source (fits isStar behindStar spread IsCanonical)

/-! ## 1. Canonical form -/

/-- The array suffix of an argument: a size in square brackets, or nothing. -/
def IsArraySuffix (suffix : Text) : Prop :=
  suffix = [] ∨ ∃ size, (∀ c ∈ size, isWord c = true) ∧ suffix = '[' :: (size ++ [']'])

/-- A default value: a minus or not, then word characters and dots. -/
def IsDefault (value : Text) : Prop :=
  ∃ sign digits, sign ∈ [[], ['-']] ∧ (∀ c ∈ digits, isWord c = true ∨ c = '.') ∧
    value = sign ++ digits

/-- An argument in canonical form.  With a name, its type may have an array suffix. -/
structure Argument.InCanonicalForm (a : Argument) : Prop where
  type : (a.name = [] ∧ IsType a.type) ∨
    (∃ type suffix, IsType type ∧ IsArraySuffix suffix ∧ a.type = type ++ suffix) ∧
      IsIdentifier a.name ∧ a.name ≠ "const".toList ∧ startsWithBuiltin a.name = false
  not_void : a.type ≠ "void".toList
  value : ∀ value ∈ a.default?, IsDefault value

variable {s t decl type name suffix value gap : Text} {signs ends : Text} {c d : Char}

/-! ## 2. Tidy types and names -/

/-- A canonical text has no blank that a tidy type does not have. -/
theorem tighten_of_fits {before : Option Char} (chain : t.IsChain fun c d => fits c d = true)
    (blanks : ∀ c ∈ t, isBlank c = true → c = ' ')
    (start : before = some '<' → ∀ c ∈ t.head?, isBlank c = false) : tighten before t = t := by
  induction t generalizing before with
  | nil => rfl
  | cons c t ih =>
    have rest : tighten (some c) t = t := by
      refine ih (List.isChain_cons.mp chain).2
        (fun d mem => blanks d (List.mem_cons_of_mem c mem)) ?_
      rintro ⟨⟩ d first
      refine Bool.eq_false_iff.mpr fun blank => ?_
      obtain rfl := blanks d (List.mem_cons_of_mem _ (List.mem_of_head? first)) blank
      exact absurd ((List.isChain_cons.mp chain).1 ' ' first) (by decide)
    rw [tighten, rest]
    refine if_neg fun goes => ?_
    obtain ⟨blank, loose⟩ := Bool.and_eq_true_iff.mp goes
    obtain rfl := blanks c List.mem_cons_self blank
    rcases Bool.or_eq_true_iff.mp loose with angle | loose
    · exact absurd (start (by simpa using angle) ' ' rfl) (by decide)
    · -- a space has a word behind it
      obtain _ | ⟨d, t⟩ := t
      · cases loose
      have word : isWord d = true := Source.fits_space (List.isChain_cons_cons.mp chain).1
      have signs : d ∉ ['*', '&', '['] := not_mem_of_isWord _ word (by decide)
      exact signs (by simpa [startsLoose, or_assoc] using loose)

theorem tidyType_of_stretch (h : Stretch signs ends t)
    (blanks : ∀ e ∈ signs, isBlank e = true → e = ' ')
    (solid : ∀ e ∈ ends, isBlank e = false) : tidyType t = t := by
  have spaced := h.isSpaced blanks solid
  rw [tidyType_eq spaced]
  exact tighten_of_fits h.chain spaced.space nofun

theorem isChain_of_isWord (word : ∀ c ∈ t, isWord c = true) :
    t.IsChain fun c d => fits c d = true :=
  Text.isChain_of_forall fun c mem d _ => fits_of_isWord (word c mem) d

/-- A word with a space in front, behind a stretch. -/
theorem Stretch.append_name (h : Stretch signs ends t) (filled : t ≠ [])
    (endings : ∀ e ∈ ends, e ∈ [']', '>', '*', '&']) (space : ' ' ∈ signs) (some_name : name ≠ [])
    (word : ∀ c ∈ name, isWord c = true) : Stretch signs ends (t ++ ' ' :: name) := by
  obtain ⟨d, name, rfl⟩ := List.exists_cons_of_ne_nil some_name
  refine h.append filled (fun c mem => ?_) ?_ ?_ (fun c last => .inl ?_) (.of_plain fun c mem => ?_)
  · rcases List.mem_cons.mp mem with rfl | mem
    · exact .inr space
    · exact .inl (word c mem)
  · exact List.isChain_cons_cons.mpr ⟨word d List.mem_cons_self, isChain_of_isWord word⟩
  · rintro c last _ ⟨⟩
    exact fits_space_behind ((h.last c last).imp_right (endings c))
  · rw [List.getLast?_cons_cons] at last
    exact word c (List.mem_of_getLast? last)
  · rcases List.mem_cons.mp mem with rfl | mem
    · decide
    · exact Depth.not_mem_of_isWord (word c mem)

/-! ## 3. Declarations of arguments -/

/-- What is written of an argument without its default value, and how it is read. -/
structure IsDeclared (decl type name : Text) : Prop where
  stretch : Stretch ('[' :: ']' :: typeSigns) [']', '>', '*', '&'] decl
  filled : decl ≠ []
  whole : Whole (· == ',') decl
  split : splitTypeAndName (Text.topWords decl) = (type, name)
  tidy : tidyType type = type
  scalar : splitArraySuffix name = (name, [])

/-- A type by itself. -/
theorem IsType.isDeclared (type : IsType t) : IsDeclared t t [] where
  stretch := type.typelike.mono (by decide) (by decide)
  filled := type.ne_nil
  whole := type.whole
  split := type.splitTypeAndName
  tidy := tidyType_of_stretch type.typelike (by decide) (by decide)
  scalar := rfl

/-- A type with an array suffix. -/
theorem IsType.stretch_append (h : IsType type) (array : IsArraySuffix suffix) :
    Stretch ('[' :: ']' :: typeSigns) [']', '>', '*', '&'] (type ++ suffix) := by
  have wide : Stretch ('[' :: ']' :: typeSigns) [']', '>', '*', '&'] type :=
    h.typelike.mono (by decide) (by decide)
  rcases array with rfl | ⟨size, word, rfl⟩
  · rwa [List.append_nil]
  have square : ('[' :: (size ++ [']'])).IsChain fun c d => fits c d = true :=
    isChain_enclose (isChain_of_isWord word) (fun c first => word c (List.mem_of_head? first))
      (fun c last => fits_of_isWord (word c (List.mem_of_getLast? last)) ']') (by decide)
      (by decide) (.singleton ']')
  have size_balanced : Text.Balanced size := .of_word word
  refine wide.append h.ne_nil (fun c mem => ?_) square ?_ (fun c last => .inr ?_)
    (size_balanced.enclose Text.pair_square)
  · simp only [List.mem_append, List.mem_cons, List.not_mem_nil, or_false] at mem
    rcases mem with rfl | mem | rfl
    · exact .inr (by decide)
    · exact .inl (word c mem)
    · exact .inr (by decide)
  · rintro c last _ ⟨⟩
    exact fits_stop (wide.solid_last (by decide) c last) (by decide)
  · obtain rfl : c = ']' := by simpa [List.getLast?_cons] using last.symm
    decide

theorem isWord_ne_comma (c : Char) (word : isWord c = true) : (c == ',') = false :=
  beq_eq_false_iff_ne.mpr (Text.ne_of_isWord word (by decide))

theorem IsArraySuffix.whole (array : IsArraySuffix suffix) : Whole (· == ',') suffix := by
  rcases array with rfl | ⟨size, word, rfl⟩
  · exact Text.whole_of_word (by simp) isWord_ne_comma
  · have size_balanced : Text.Balanced size := .of_word word
    exact size_balanced.whole_enclose Text.pair_square (by decide)

/-- A name is no type, if it is not that of a builtin one. -/
theorem isTypeWord_of_identifier (identifier : IsIdentifier name) (no_const : name ≠ "const".toList)
    (no_builtin : startsWithBuiltin name = false) : isTypeWord name = false := by
  have no_sign {e : Char} (no_word : isWord e = false) : Text.endsWith [e] name = false := by
    refine Bool.eq_false_iff.mpr fun ends => ?_
    have inside := (List.isSuffixOf_iff_suffix.mp ends).subset (List.mem_singleton.mpr rfl)
    exact Text.ne_of_isWord (identifier.word e inside) no_word rfl
  rw [isTypeWord, no_sign (by decide), no_sign (by decide), beq_eq_false_iff_ne.mpr no_const,
    no_builtin]
  rfl

/-- A type and a name. -/
theorem IsType.isDeclared_name (h : IsType type) (array : IsArraySuffix suffix)
    (identifier : IsIdentifier name)
    (no_const : name ≠ "const".toList) (no_builtin : startsWithBuiltin name = false) :
    IsDeclared (type ++ suffix ++ ' ' :: name) (type ++ suffix) name where
  stretch := (h.stretch_append array).append_name (by simp [h.ne_nil]) (by decide) (by decide)
    identifier.filled identifier.word
  filled := by simp
  whole := by
    have space : Whole (· == ',') [' '] := by decide
    have behind := space.append (Text.whole_of_word identifier.word isWord_ne_comma)
    exact (h.whole.append array.whole).append behind
  split := by
    have stretch := h.stretch_append array
    have spaced : IsSpaced (type ++ suffix) := stretch.isSpaced (by decide) (by decide)
    have joined := spaced.join_topWords
    have letters : Whole isBlank name :=
      Text.whole_of_word identifier.word fun _ => Text.isBlank_of_isWord
    have some_words : Text.topWords (type ++ suffix) ≠ [] := by
      intro empty
      rw [empty] at joined
      exact List.append_ne_nil_of_left_ne_nil h.ne_nil suffix joined.symm
    have no_const_first : Text.topWords (type ++ suffix) ≠ ["const".toList] := by
      intro only
      rw [only] at joined
      refine h.append_ne_const (fun c first => ?_) (joined.symm.trans (by simp [Text.join]))
      rcases array with rfl | ⟨size, -, rfl⟩
      · cases first
      · cases first
        decide
    have typed := isTypeWord_of_identifier identifier no_const no_builtin
    rw [Text.topWords_append (by decide) (stretch.balanced.closed {}),
      Text.topWords_of_clear identifier.filled letters.clear,
      splitTypeAndName_append some_words typed no_const_first, joined]
  tidy := tidyType_of_stretch (h.stretch_append array) (by decide) (by decide)
  scalar := splitArraySuffix_of_plain fun mem =>
    Text.ne_of_isWord (identifier.word _ mem) (by decide) rfl

/-- A default value behind its sign, or nothing. -/
def defaultText : Option Text → Text
  | some value => '=' :: value
  | none => []

/-- **An argument is written as a declaration and a default value.** -/
theorem Argument.InCanonicalForm.exists_decl {a : Argument} (h : a.InCanonicalForm) :
    ∃ decl, a.render = decl ++ defaultText a.default? ∧ IsDeclared decl a.type a.name := by
  obtain ⟨type, name, default?⟩ := a
  have written : (Argument.mk type name default?).render =
      type ++ (if name.isEmpty then [] else ' ' :: name) ++ defaultText default? := by
    cases default? <;> rfl
  rcases h.type with ⟨rfl, typed⟩ |
    ⟨⟨base, suffix, typed, array, rfl⟩, identifier, no_const, no_builtin⟩
  · exact ⟨type, by rw [written]; simp, typed.isDeclared⟩
  · refine ⟨base ++ suffix ++ ' ' :: name, ?_,
      typed.isDeclared_name array identifier no_const no_builtin⟩
    have some_name : name.isEmpty = false := by simpa using identifier.filled
    rw [written, some_name]
    rfl

/-! ## 4. Decoding an argument -/

theorem IsDefault.chars (h : IsDefault value) : ∀ c ∈ value, isWord c = true ∨ c ∈ ['-', '.'] := by
  obtain ⟨sign, digits, sign_form, plain, rfl⟩ := h
  intro c mem
  rcases List.mem_append.mp mem with mem | mem
  · simp only [List.mem_cons, List.not_mem_nil, or_false] at sign_form
    rcases sign_form with rfl | rfl
    · cases mem
    · exact .inr (by rw [List.mem_singleton.mp mem]; decide)
  · exact (plain c mem).imp_right fun dot => by rw [dot]; decide

/-- A default value holds no sign but a minus and dots. -/
theorem IsDefault.not_mem (h : IsDefault value) (no_word : isWord c = false)
    (other : c ∉ ['-', '.']) :
    c ∉ value := by
  intro mem
  rcases h.chars c mem with word | sign
  · rw [no_word] at word
    cases word
  · exact other sign

theorem IsDefault.canonicalSpacing_eq (h : IsDefault value) :
    Source.canonicalSpacing value = value := by
  have solid : ∀ c ∈ value, c ∉ [' ', ',', '*', '&', '(', '=', '['] := by
    intro c mem listed
    have no_sign :
        ∀ e ∈ [' ', ',', '*', '&', '(', '=', '['], isWord e = false ∧ e ∉ ['-', '.'] := by
      decide
    exact h.not_mem (no_sign c listed).1 (no_sign c listed).2 mem
  simp only [List.mem_cons, List.not_mem_nil, or_false, not_or] at solid
  have canonical : IsCanonical value := by
    refine ⟨fun c mem => (h.chars c mem).imp_right fun sign => ?_, ?_, fun c first => ?_,
      fun c last => ?_⟩
    · have listed : ∀ e ∈ ['-', '.'], e ∈ Source.signs := by decide
      exact listed c sign
    · refine Text.isChain_of_forall fun c c_mem d d_mem => ?_
      exact fits_of_plain (by simp [solid c c_mem]) (by simp [solid d d_mem])
    · simp [isStar, solid c (List.mem_of_head? first)]
    · simp [isStar, solid c (List.mem_of_getLast? last)]
  rw [canonical.canonicalSpacing_eq]
  refine Source.spread_eq_self fun d mem c => ?_
  exact Source.behindStar_of_not_mem (by simp [solid d mem]) c

/-- Without a parenthesis there is no callback. -/
theorem callback?_of_not_mem (absent : '(' ∉ t) : callback? t = none := by
  have unnamed {u : Text} (absent : '(' ∉ u) : callbackName? u = none := by
    cases u with
    | nil => rfl
    | cons d u =>
      have other : '(' ≠ d := fun same => absent (by rw [same]; exact List.mem_cons_self)
      simp [callbackName?, Text.afterPrefix?, other]
  rw [callback?]
  split
  · rfl
  · next n head => rw [unnamed fun mem => absent (List.mem_of_mem_drop mem)]

variable {default? : Option Text}

theorem defaultText_cons (first : c ∈ (defaultText default?).head?) : c = '=' := by
  cases default? with
  | none => cases first
  | some v =>
    cases first
    rfl

theorem defaultText_chars (value : ∀ value ∈ default?, IsDefault value) :
    ∀ c ∈ defaultText default?, isWord c = true ∨ c ∈ ['=', '-', '.'] := by
  intro c mem
  cases default? with
  | none => cases mem
  | some v =>
    rcases List.mem_cons.mp mem with rfl | mem
    · exact .inr (by decide)
    · exact ((value v rfl).chars c mem).imp_right (List.mem_cons_of_mem '=')

/-- No decoration stands in front of a letter. -/
theorem replaceMatches_decorationBeforeName (h : IsDeclared decl type name)
    (value : ∀ value ∈ default?, IsDefault value) (gap_form : gap ∈ [[], [' ']])
    (image : Text → Text) :
    Text.replaceMatches decorationBeforeName image (decl ++ gap ++ defaultText default?) =
      decl ++ gap ++ defaultText default? := by
  have no_star : ∀ c ∈ gap ++ defaultText default?, isStar c = false := by
    intro c mem
    rcases List.mem_append.mp mem with mem | mem
    · simp only [List.mem_cons, List.not_mem_nil, or_false] at gap_form
      rcases gap_form with rfl | rfl
      · cases mem
      · rw [List.mem_singleton.mp mem]
        decide
    · have signs : ∀ e ∈ ['=', '-', '.'], isStar e = false := by decide
      exact (defaultText_chars value c mem).elim Source.isStar_of_isWord (signs c)
  have chain : (decl ++ (gap ++ defaultText default?)).IsChain
      fun c d => isStar c = true → Text.isAsciiLetter d = false := by
    refine List.isChain_append.mpr ⟨h.stretch.chain.imp fun c d fit star => ?_, ?_,
      fun c _ d first _ => ?_⟩
    · have none_letter : ∀ e ∈ ' ' :: '*' :: Source.stops, Text.isAsciiLetter e = false := by decide
      rcases Source.fits_star star fit with rfl | stop | ⟨-, rfl⟩
      · decide
      · exact none_letter d (by simp [stop])
      · decide
    · refine Text.isChain_of_forall fun c c_mem d _ star => ?_
      rw [no_star c c_mem] at star
      cases star
    · rw [List.head?_append] at first
      simp only [List.mem_cons, List.not_mem_nil, or_false] at gap_form
      rcases Option.or_eq_some_iff.mp first with first | ⟨-, first⟩
      · rcases gap_form with rfl | rfl
        · cases first
        · cases first
          decide
      · rw [defaultText_cons first]
        decide
  rw [List.append_assoc]
  refine Text.replaceMatches_eq_self_of_none none fun s c u cut => ?_
  rw [cut] at chain
  obtain _ | ⟨d, u⟩ := u
  · rfl
  have next := (List.isChain_cons_cons.mp (chain.suffix (List.suffix_append s _))).1
  rw [decorationBeforeName]
  refine if_neg fun both => ?_
  obtain ⟨star, letter⟩ := Bool.and_eq_true_iff.mp both
  rw [next star] at letter
  cases letter

/-- The default value stands behind the first `=`. -/
theorem splitDefault_field (h : IsDeclared decl type name)
    (value : ∀ value ∈ default?, IsDefault value) (gap_form : gap ∈ [[], [' ']])
    (no_gap : default? = none → gap = []) :
    splitDefault (decl ++ gap ++ defaultText default?) = (decl, default?) := by
  have trimmed := (h.stretch.isSpaced (by decide) (by decide)).trim
  have no_sign : '=' ∉ decl := h.stretch.not_mem (by decide) (by decide)
  cases default? with
  | none =>
    rw [no_gap rfl, List.append_nil, defaultText, List.append_nil, splitDefault,
      Text.cutFirst?_of_not_mem no_sign]
    dsimp only
    rw [trimmed]
  | some v =>
    have blank : ∀ b ∈ gap, b = ' ' := by
      simp only [List.mem_cons, List.not_mem_nil, or_false] at gap_form
      rcases gap_form with rfl | rfl <;> simp
    have absent : ¬ ['='] <:+: decl ++ gap ++ ['='].dropLast := by
      intro found
      have inside : '=' ∈ decl ++ gap := by simpa using found.subset (List.mem_singleton.mpr rfl)
      rcases List.mem_append.mp inside with mem | mem
      · exact no_sign mem
      · exact absurd (blank _ mem) (by decide)
    have cut := Text.cutFirst?_append absent v
    rw [List.append_assoc, List.singleton_append] at cut
    have default_form := value v rfl
    have solid : ∀ c ∈ v, isBlank c = false := by
      intro c mem
      have signs : ∀ e ∈ ['-', '.'], isBlank e = false := by decide
      exact (default_form.chars c mem).elim Text.isBlank_of_isWord (signs c)
    have no_open : ¬ " (".toList <:+: v := fun inside =>
      default_form.not_mem (c := '(') (by decide) (by decide) (inside.subset (by decide))
    rw [defaultText, splitDefault, cut]
    dsimp only
    rw [Text.trim_append_blanks fun b mem => by rw [blank b mem]; decide, trimmed,
      Source.trim_of_solid solid, default_form.canonicalSpacing_eq, Source.replace_eq_self no_open]

/-- **An argument is read back**, with a space in front of its default value or without. -/
theorem decodeArgument_field (h : IsDeclared decl type name)
    (value : ∀ value ∈ default?, IsDefault value) (gap_form : gap ∈ [[], [' ']])
    (no_gap : default? = none → gap = []) (decode : Text → Except ParseError Signature) :
    decodeArgument decode (decl ++ gap ++ defaultText default?) = .ok ⟨type, name, default?⟩ := by
  have no_open : '(' ∉ decl := h.stretch.not_mem (by decide) (by decide)
  rw [decodeArgument, replaceMatches_decorationBeforeName h value gap_form,
    splitDefault_field h value gap_form no_gap]
  dsimp only
  rw [callback?_of_not_mem no_open, h.split]
  dsimp only
  rw [h.scalar, List.append_nil, h.tidy]

/-! ## 5. Argument lists -/

/-- The signs of an argument, and those that one may end with. -/
def fieldSigns : Text :=
  ['=', '-', '.', '[', ']'] ++ typeSigns

def fieldEnds : Text :=
  ['=', '-', '.', ']', '>', '*', '&']

theorem stretch_field (h : IsDeclared decl type name)
    (value : ∀ value ∈ default?, IsDefault value) :
    Stretch fieldSigns fieldEnds (decl ++ defaultText default?) := by
  have wide : Stretch fieldSigns fieldEnds decl := h.stretch.mono (by decide) (by decide)
  have chars := defaultText_chars value
  have signs : ∀ e ∈ ['=', '-', '.'], e ∈ fieldSigns ∧ e ∈ fieldEnds ∧ e ∉ Depth.brackets ∧
      e ∉ [' ', ',', '*', '&', '('] := by decide
  have plain : ∀ c ∈ defaultText default?, c ∉ [' ', ',', '*', '&', '('] := by
    intro c mem
    exact (chars c mem).elim (fun word => not_mem_of_isWord _ word (by decide)) fun sign =>
      (signs c sign).2.2.2
  refine wide.append h.filled (fun c mem => ?_) ?_ (fun c last d first => ?_) (fun c last => ?_)
    (.of_plain fun c mem => ?_)
  · exact (chars c mem).imp_right fun sign => (signs c sign).1
  · refine Text.isChain_of_forall fun c c_mem d d_mem => ?_
    have left := plain c c_mem
    have right := plain d d_mem
    simp only [List.mem_cons, List.not_mem_nil, or_false, not_or] at left right
    exact fits_of_plain (by simp [left]) (by simp [right])
  · rw [defaultText_cons first]
    exact fits_stop (h.stretch.solid_last (by decide) c last) (by decide)
  · exact (chars c (List.mem_of_getLast? last)).imp_right fun sign => (signs c sign).2.1
  · exact (chars c mem).elim Depth.not_mem_of_isWord fun sign => (signs c sign).2.2.1

/-- A space goes between a decoration at the end of a declaration and the default value. -/
theorem spread_field (h : IsDeclared decl type name)
    (value : ∀ value ∈ default?, IsDefault value) :
    ∃ gap ∈ [[], [' ']], (default? = none → gap = []) ∧
      spread (behindStar ['=']) (decl ++ defaultText default?) =
        decl ++ gap ++ defaultText default? := by
  have still {t : Text} (no_sign : '=' ∉ t) : ∀ d ∈ t, ∀ c, behindStar ['='] c d = [] := by
    intro d mem
    refine Source.behindStar_of_not_mem fun listed => no_sign ?_
    rwa [← List.mem_singleton.mp listed]
  have no_sign : '=' ∉ decl := h.stretch.not_mem (by decide) (by decide)
  have kept : spread (behindStar ['=']) decl = decl := Source.spread_eq_self (still no_sign)
  cases default? with
  | none => exact ⟨[], by simp, fun _ => rfl, by simpa [defaultText] using kept⟩
  | some v =>
    obtain ⟨front, l, rfl⟩ := List.eq_nil_or_concat decl |>.resolve_left h.filled
    rw [List.concat_eq_append] at kept
    have gaps : Source.Gaps (behindStar ['=']) := Source.gaps_behindStar (by decide)
    have none_there : '=' ∉ v := (value v rfl).not_mem (by decide) (by decide)
    have behind : spread (behindStar ['=']) ('=' :: v) = '=' :: v :=
      Source.spread_solid (still none_there) '='
    have whole : spread (behindStar ['=']) (front ++ l :: '=' :: v) =
        front ++ [l] ++ behindStar ['='] l '=' ++ '=' :: v := by
      rw [Source.spread_append, kept, behind]
    refine ⟨behindStar ['='] l '=', ?_, by simp, by simpa [defaultText] using whole⟩
    rcases gaps.one l '=' with gap | gap <;> simp [gap]

/-- What an argument list holds of an argument. -/
structure IsField (a : Argument) (field : Text) : Prop where
  filled : field ≠ []
  spaced : IsSpaced field
  whole : Whole (· == ',') field
  decoded : ∀ decode, decodeArgument decode field = .ok a

theorem Argument.InCanonicalForm.isField {a : Argument} (h : a.InCanonicalForm) :
    IsField a (spread (behindStar ['=']) a.render) := by
  obtain ⟨decl, written, declared⟩ := h.exists_decl
  obtain ⟨gap, gap_form, no_gap, spread⟩ := spread_field declared h.value
  rw [written, spread]
  have chars := defaultText_chars h.value
  have signs :
      ∀ e ∈ ['=', '-', '.'], isBlank e = false ∧ e ∉ Depth.brackets ∧ (e == ',') = false := by
    decide
  have default_spaced : IsSpaced (defaultText a.default?) := .of_solid fun c mem =>
    (chars c mem).elim Text.isBlank_of_isWord fun sign => (signs c sign).1
  have default_whole : Whole (· == ',') (defaultText a.default?) := by
    refine Text.whole_of_plain fun c mem => ?_
    rcases chars c mem with word | sign
    · exact ⟨Depth.not_mem_of_isWord word, by simpa using Text.ne_of_isWord word (by decide)⟩
    · exact (signs c sign).2
  have spaced := declared.stretch.isSpaced (by decide) (by decide)
  simp only [List.mem_cons, List.not_mem_nil, or_false] at gap_form
  refine ⟨by simp [declared.filled], ?_, ?_, fun decode =>
    decodeArgument_field declared h.value (by simpa using gap_form) no_gap decode⟩
  · rcases gap_form with rfl | rfl
    · rw [List.append_nil]
      exact spaced.append default_spaced
    · have some_default : defaultText a.default? ≠ [] := by
        cases default_form : a.default? with
        | none => exact absurd (no_gap default_form) (by simp)
        | some v => simp [defaultText]
      rw [List.append_assoc]
      exact spaced.append_space default_spaced declared.filled some_default
  · have gap_whole : Whole (· == ',') gap := by
      rcases gap_form with rfl | rfl <;> decide
    exact (declared.whole.append gap_whole).append default_whole

variable {fields : List Text}

/-- Spaces in front of default values stay where they are when fields are joined. -/
theorem spread_join (filled : ∀ field ∈ fields, field ≠ []) :
    spread (behindStar ['=']) (Text.join ", ".toList fields) =
      Text.join ", ".toList (fields.map (spread (behindStar ['=']))) := by
  induction fields with
  | nil => rfl
  | cons field fields ih =>
    cases fields with
    | nil => simp [Text.join]
    | cons next fields =>
      have rest := ih fun f mem => filled f (List.mem_cons_of_mem field mem)
      rw [List.map_cons] at rest
      have comma : ", ".toList = [',', ' '] := rfl
      rw [List.map_cons, List.map_cons, Source.join_cons_cons, Source.join_cons_cons, ← rest, comma,
        Source.spread_append_of, Source.spread_append_of]
      · rfl
      · rintro c - _ ⟨⟩
        exact Source.behindStar_of_not_mem (by decide) c
      · intro c last d _
        rw [List.getLast?_append] at last
        cases last
        exact Source.behindStar_eq_nil rfl

theorem isSpaced_join (pieces : ∀ field ∈ fields, IsSpaced field ∧ field ≠ []) :
    IsSpaced (Text.join ", ".toList fields) := by
  induction fields with
  | nil => exact .of_solid (by simp [Text.join])
  | cons field fields ih =>
    obtain ⟨spaced, filled⟩ := pieces field List.mem_cons_self
    cases fields with
    | nil => simpa [Text.join] using spaced
    | cons next fields =>
      have rest := ih fun f mem => pieces f (List.mem_cons_of_mem field mem)
      have some_rest := Source.join_ne_nil (pieces next (by simp)).2 ", ".toList fields
      have comma : IsSpaced [','] := .of_solid (by decide)
      have whole := (spaced.append comma).append_space rest (by simp) some_rest
      rw [Source.join_cons_cons]
      simpa using whole

/-- **Fields that are joined are found again.** -/
theorem splitArguments_join (pieces : ∀ field ∈ fields, IsSpaced field ∧ Whole (· == ',') field)
    (filled : fields ≠ []) : splitArguments (Text.join ", ".toList fields) = fields := by
  obtain ⟨field, fields, rfl⟩ := List.exists_cons_of_ne_nil filled
  have comma : ", ".toList = ',' :: [' '] := rfl
  have cut : Text.splitTop ',' (Text.join (',' :: [' ']) (field :: fields)) =
      field :: fields.map ([' '] ++ ·) :=
    Text.splitTop_join (by decide) (by decide) fun f mem => (pieces f mem).2
  rw [splitArguments, comma, cut, List.map_cons, List.map_map,
    (pieces field List.mem_cons_self).1.trim]
  refine congrArg (field :: ·) ?_
  refine (List.map_congr_left fun f mem => ?_).trans (List.map_id fields)
  have space : ∀ b ∈ [' '], isBlank b = true := by decide
  have spaced := (pieces f (List.mem_cons_of_mem field mem)).1
  exact (Text.trim_blanks_append space).trans spaced.trim

end AccessorCatalog.Declaration

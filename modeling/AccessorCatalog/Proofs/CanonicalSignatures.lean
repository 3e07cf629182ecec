/-
# Decoding undoes rendering

A signature in canonical form (`Signature.InCanonicalForm`) is read back from what is written of it:
`decodeMethod_render`.

The text goes through the normalizer and the passes over brackets, which leave it as it is but for a
space in front of the parenthesis and one between a decoration and a default value
(`IsApplied.declarator_eq`).  The words in front of the parenthesis are those of the return type and
the name (`splitAtArguments?_head`, `splitReturnAndName_head`), and what is inside comes apart at
the commas outside brackets, one argument at a time (`fields_eq`, `mapM_decodeArgument`).
-/
import AccessorCatalog.Proofs.CanonicalArguments
import AccessorCatalog.Proofs.Fallible

namespace AccessorCatalog.Declaration

open Text (isBlank isWord IsSpaced Depth Whole)
open ClassName (IsIdentifier)
open Source (fits isStar behindStar spread IsCanonical)

/-! ## 1. Canonical form -/

/-- A signature in canonical form.  Its name is none of the words that declarations are read by. -/
structure Signature.InCanonicalForm (s : Signature) : Prop where
  returnType : s.returnType = [] ∨ IsType s.returnType
  name : IsIdentifier s.name
  no_keyword : s.name ∉ "throw".toList :: specifiers
  no_operator : ClassName.isOperator s.name = false
  args : ∀ a ∈ s.args, a.InCanonicalForm
  qualifier : s.qualifier ∈ [[], "const".toList]

variable {t name : Text} {c : Char}

/-! ## 2. Words in front of the arguments -/

theorem words_append (s t : Text) : Text.words (s ++ ' ' :: t) = Text.words s ++ Text.words t := by
  rw [Text.words, Source.splitWhere_append (by decide), List.filter_append]
  rfl

theorem words_of_solid (filled : t ≠ []) (solid : ∀ c ∈ t, isBlank c = false) :
    Text.words t = [t] := by
  rw [Text.words, Source.splitWhere_of_forall solid]
  simp [filled]

/-- The first word of a text starts with its first character. -/
theorem words_cons (solid : isBlank c = false) (t : Text) :
    ∃ w ws, Text.words (c :: t) = (c :: w) :: ws := by
  obtain ⟨w, ws, pieces⟩ := List.exists_cons_of_ne_nil (Text.splitWhere_ne_nil isBlank t)
  refine ⟨w, ws.filter fun w => !w.isEmpty, ?_⟩
  rw [Text.words, Text.splitWhere, solid, pieces]
  rfl

/-- The argument list starts at the first word that starts with a parenthesis. -/
theorem splitAtArguments?_append {head words : List Text} {word : Text}
    (plain : ∀ w ∈ head, Text.startsWith ['('] w = false)
    (opens : Text.startsWith ['('] word = true)
    (before : Option Text) (closed : ∀ w ∈ head.getLast?.or before, leavesAngleOpen w = false) :
    splitAtArguments? before (head ++ word :: words) = some (head, word :: words) := by
  induction head generalizing before with
  | nil =>
    unfold splitAtArguments?
    cases before with
    | none => simp [opens]
    | some w => simp [opens, closed w rfl]
  | cons w head ih =>
    have rest :
        splitAtArguments? (some w) (head ++ word :: words) = some (head, word :: words) := by
      refine ih (fun v mem => plain v (List.mem_cons_of_mem w mem)) (some w) fun v last =>
        closed v ?_
      cases head with
      | nil => exact last
      | cons v' head => exact last
    unfold splitAtArguments?
    simp [plain w List.mem_cons_self, rest]

/-- The last word in front of the arguments is the name. -/
theorem splitReturnAndName_append {words : List Text}
    (plain : ∀ w ∈ words, ClassName.isOperator w = false)
    (name_plain : ClassName.isOperator name = false) :
    splitReturnAndName (words ++ [name]) = (Text.join [' '] words, name) := by
  have all : ∀ w ∈ words ++ [name], (!ClassName.isOperator w) = true := by
    intro w mem
    rcases List.mem_append.mp mem with mem | mem
    · rw [plain w mem]
      rfl
    · rw [List.mem_singleton.mp mem, name_plain]
      rfl
  have whole : (words ++ [name]).takeWhile (fun w => !ClassName.isOperator w) = words ++ [name] :=
    List.takeWhile_eq_self_iff.mpr all
  unfold splitReturnAndName
  dsimp only
  rw [whole, if_neg (Nat.lt_irrefl _), List.dropLast_concat, List.getLastD_eq_getLast?,
    List.getLast?_concat]
  rfl

/-- No specifier and no attribute is dropped in front of a type. -/
theorem withoutSpecifiers_of_head {words : List Text} (first : ∀ w ∈ words.head?, w ∉ specifiers)
    (plain : ∀ w ∈ words, '[' ∉ w) : withoutSpecifiers words = words := by
  cases words with
  | nil => rfl
  | cons w words =>
    have no_attribute : Text.startsWith "[[".toList w = false := by
      refine Bool.eq_false_iff.mpr fun starts => plain w List.mem_cons_self ?_
      exact (List.isPrefixOf_iff_prefix.mp starts).subset (by decide)
    have no_specifier : specifiers.contains w = false := by simpa using first w rfl
    refine List.dropWhile_cons_of_neg ?_
    rw [no_specifier, no_attribute]
    decide

theorem infix_of_mem_words {w : Text} (mem : w ∈ Text.words t) : w <:+: t :=
  Source.infix_of_mem_splitWhere (List.mem_of_mem_filter mem)

/-- What is written in front of the name. -/
def returnText (type : Text) : Text :=
  if type.isEmpty then [] else type ++ [' ']

/-- The arguments as they are written. -/
def argsText (args : List Argument) : Text :=
  Text.join ", ".toList (args.map Argument.render)

/-- What is written behind the arguments. -/
def qualifierText (qualifier : Text) : Text :=
  if qualifier.isEmpty then [] else ' ' :: qualifier

variable {m : Signature}

namespace Signature.InCanonicalForm

/-- **The words in front of the arguments** are those of the return type and the name. -/
theorem words_head (h : m.InCanonicalForm) :
    Text.words (returnText m.returnType ++ m.name) = Text.words m.returnType ++ [m.name] := by
  have solid : ∀ c ∈ m.name, isBlank c = false :=
    fun c mem => Text.isBlank_of_isWord (h.name.word c mem)
  have one := words_of_solid h.name.filled solid
  by_cases untyped : m.returnType = []
  · rw [untyped]
    exact one
  · have typed : m.returnType.isEmpty = false := by simpa using untyped
    rw [returnText, typed]
    have joint := words_append m.returnType m.name
    rw [one] at joint
    simpa using joint

theorem isSpaced_returnType (h : m.InCanonicalForm) : IsSpaced m.returnType := by
  rcases h.returnType with untyped | type
  · exact untyped ▸ .of_solid (by simp)
  · exact type.typelike.isSpaced (by decide) (by decide)

theorem not_mem_returnType (h : m.InCanonicalForm) (no_word : isWord c = false)
    (other : c ∉ typeSigns) :
    c ∉ m.returnType := by
  rcases h.returnType with untyped | type
  · rw [untyped]
    exact List.not_mem_nil
  · exact type.typelike.not_mem no_word other

theorem head_not_specifier (h : m.InCanonicalForm) :
    ∀ w ∈ (Text.words m.returnType ++ [m.name]).head?, w ∉ specifiers := by
  intro w first specifier
  cases words : Text.words m.returnType with
  | nil =>
    rw [words] at first
    cases first
    exact h.no_keyword (List.mem_cons_of_mem _ specifier)
  | cons v rest =>
    rw [words] at first
    cases first
    have joined := h.isSpaced_returnType.join_words
    rw [words] at joined
    rcases h.returnType with untyped | type
    · rw [untyped] at words
      cases words
    · cases rest with
      | nil =>
        refine type.not_specifier (u := []) specifier ?_ nofun
        rw [← joined]
        simp [Text.join]
      | cons next rest =>
        rw [Source.join_cons_cons, List.append_assoc] at joined
        refine type.not_specifier specifier joined.symm ?_
        rintro _ ⟨⟩
        decide

/-- The words in front of the arguments are read as the return type and the name. -/
theorem splitReturnAndName_head (h : m.InCanonicalForm) :
    splitReturnAndName (withoutSpecifiers (Text.words m.returnType ++ [m.name])) =
      (m.returnType, m.name) := by
  have joined := h.isSpaced_returnType.join_words
  have no_operator : ∀ w ∈ Text.words m.returnType, ClassName.isOperator w = false := by
    rcases h.returnType with untyped | type
    · rw [untyped]
      nofun
    · exact (NoOperator.of_type type).isOperator_of_mem_words h.isSpaced_returnType
  have no_square : ∀ w ∈ Text.words m.returnType ++ [m.name], '[' ∉ w := by
    intro w mem square
    rcases List.mem_append.mp mem with mem | mem
    · exact h.not_mem_returnType (by decide) (by decide) ((infix_of_mem_words mem).subset square)
    · rw [List.mem_singleton.mp mem] at square
      exact Text.ne_of_isWord (h.name.word '[' square) (by decide) rfl
  rw [withoutSpecifiers_of_head h.head_not_specifier no_square,
    splitReturnAndName_append no_operator h.no_operator, joined]

/-! ## 3. The text of a signature -/

theorem stretch_args (h : m.InCanonicalForm) : Stretch fieldSigns fieldEnds (argsText m.args) := by
  refine Stretch.join (fun text mem => ?_) (by decide) (by decide)
  obtain ⟨a, a_mem, rfl⟩ := List.mem_map.mp mem
  obtain ⟨decl, written, declared⟩ := (h.args a a_mem).exists_decl
  rw [written]
  exact ⟨stretch_field declared (h.args a a_mem).value, by simp [declared.filled]⟩

theorem stretch_head (h : m.InCanonicalForm) : Typelike (returnText m.returnType ++ m.name) := by
  by_cases untyped : m.returnType = []
  · rw [untyped]
    refine ⟨fun c mem => .inl (h.name.word c mem), isChain_of_isWord h.name.word,
      fun c first => h.name.word c (List.mem_of_head? first),
      fun c last => .inl (h.name.word c (List.mem_of_getLast? last)), .of_word h.name.word⟩
  · have typed : m.returnType.isEmpty = false := by simpa using untyped
    have type : IsType m.returnType := h.returnType.resolve_left untyped
    rw [returnText, typed]
    simpa using type.typelike.append_name untyped (by decide) (by decide) h.name.filled h.name.word

theorem isCanonical (h : m.InCanonicalForm) :
    IsCanonical (returnText m.returnType ++ m.name ++
      '(' :: (argsText m.args ++ ')' :: qualifierText m.qualifier)) := by
  have head := h.stretch_head
  have args := h.stretch_args
  have tails : ∀ q ∈ [[], "const".toList],
      (∀ c ∈ ')' :: qualifierText q, isWord c = true ∨ c ∈ Source.signs) ∧
      ((')' :: qualifierText q).IsChain fun c d => fits c d = true) ∧
      ∀ c ∈ (')' :: qualifierText q).getLast?, c ≠ ' ' ∧ c ≠ ',' ∧ isStar c = false := by decide
  obtain ⟨tail_part, tail_chain, tail_last⟩ := tails _ h.qualifier
  have list : ('(' :: (argsText m.args ++ ')' :: qualifierText m.qualifier)).IsChain fun c d =>
      fits c d = true :=
    isChain_enclose args.chain args.first
      (fun c last => fits_stop (args.solid_last (by decide) c last) (by decide)) (by decide)
      (by decide) tail_chain
  refine ⟨fun c mem => ?_, List.isChain_append.mpr ⟨head.chain, list, ?_⟩, fun c first => ?_,
    fun c last => ?_⟩
  · have type_signs : ∀ e ∈ typeSigns, e ∈ Source.signs := by decide
    have field_signs : ∀ e ∈ fieldSigns, e ∈ Source.signs := by decide
    rcases List.mem_append.mp mem with mem | mem
    · exact (head.part c mem).imp_right (type_signs c)
    · rcases List.mem_cons.mp mem with rfl | mem
      · exact .inr (by decide)
      · rcases List.mem_append.mp mem with mem | mem
        · exact (args.part c mem).imp_right (field_signs c)
        · exact tail_part c mem
  · rintro c last _ ⟨⟩
    obtain ⟨front, e, name, word⟩ := h.name.exists_concat
    rw [name, ← List.append_assoc, List.getLast?_concat] at last
    cases last
    exact fits_of_isWord word '('
  · obtain ⟨d, rest, cut⟩ := List.exists_cons_of_ne_nil
      (List.append_ne_nil_of_right_ne_nil (returnText m.returnType) h.name.filled)
    rw [cut] at first
    cases first
    have word : isWord c = true := head.first c (by rw [cut]; rfl)
    have signs := not_mem_of_isWord [' ', '=', '*', '&'] word (by decide)
    simp only [List.mem_cons, List.not_mem_nil, or_false, not_or] at signs
    simp [isStar, signs]
  · refine tail_last c ?_
    rw [List.getLast?_append, List.getLast?_cons, List.getLast?_append, List.getLast?_cons] at last
    rw [List.getLast?_cons]
    simpa using last

/-- The parentheses of a signature are the only ones, and stand behind the name. -/
theorem isApplied (h : m.InCanonicalForm) :
    IsApplied (returnText m.returnType) m.name (argsText m.args) (qualifierText m.qualifier) where
  canonical := h.isCanonical
  filled := h.name.filled
  word := h.name.word
  unmarked := by
    constructor
    · exact fun same => h.no_keyword (by rw [same]; exact List.mem_cons_self)
    · intro same
      have operator := h.no_operator
      rw [same] at operator
      exact absurd operator (by decide)
  apart c last := by
    by_cases untyped : m.returnType = []
    · rw [untyped] at last
      cases last
    · have typed : m.returnType.isEmpty = false := by simpa using untyped
      rw [returnText, typed] at last
      obtain rfl : c = ' ' := by simpa using last.symm
      decide
  pre_plain c mem := by
    have no_word : ∀ e ∈ ['(', '[', '='], isWord e = false ∧ e ∉ typeSigns := by decide
    intro listed
    exact h.stretch_head.not_mem (no_word c listed).1 (no_word c listed).2
      (List.mem_append_left _ mem)
  args_plain := h.stretch_args.not_mem (by decide) (by decide)
  tail_plain := by
    have all : ∀ q ∈ [[], "const".toList], ∀ c ∈ qualifierText q, c ∉ ['(', ')', '[', '='] := by
      decide
    exact all _ h.qualifier

/-- **A signature is written without spaces at its ends.** -/
theorem render_eq (h : m.InCanonicalForm) :
    m.render = returnText m.returnType ++ m.name ++
      '(' :: (argsText m.args ++ ')' :: qualifierText m.qualifier) := by
  have trimmed := h.isApplied.canonical.isSpaced.trim
  have space : ∀ b ∈ [' '], isBlank b = true := by decide
  have lead : ∃ lead, (∀ b ∈ lead, isBlank b = true) ∧
      m.returnType ++ [' '] = lead ++ returnText m.returnType := by
    cases typed : m.returnType.isEmpty with
    | true => exact ⟨[' '], space, by simp_all [returnText]⟩
    | false => exact ⟨[], by simp, by simp [returnText, typed]⟩
  have behind : ∃ behind, (∀ b ∈ behind, isBlank b = true) ∧
      ' ' :: m.qualifier = qualifierText m.qualifier ++ behind := by
    cases qualified : m.qualifier.isEmpty with
    | true => exact ⟨[' '], space, by simp_all [qualifierText]⟩
    | false => exact ⟨[], by simp, by simp [qualifierText, qualified]⟩
  obtain ⟨lead, lead_blank, front⟩ := lead
  obtain ⟨behind, behind_blank, back⟩ := behind
  have whole : m.returnType ++ ' ' :: Signature.applied m.name (m.args.map Argument.render) ++
      ' ' :: m.qualifier = lead ++ (returnText m.returnType ++ m.name ++
        '(' :: (argsText m.args ++ ')' :: qualifierText m.qualifier) ++ behind) := by
    rw [← List.singleton_append, ← List.append_assoc m.returnType, front, back]
    simp [Signature.applied, argsText]
  rw [Signature.render, whole, Text.trim_blanks_append lead_blank,
    Text.trim_append_blanks behind_blank, trimmed]

/-! ## 4. Decoding -/

/-- The arguments are read back, one by one. -/
theorem mapM_decodeArgument (h : m.InCanonicalForm) (decode : Text → Except ParseError Signature) :
    (m.args.map fun a => spread (behindStar ['=']) a.render).mapM (decodeArgument decode) =
      .ok m.args := by
  refine mapM_eq_ok_iff.mpr (List.forall₂_map_left_iff.mpr ?_)
  refine List.forall₂_same.mpr fun a mem => ?_
  exact (h.args a mem).isField.decoded decode

/-- The fields of the argument list. -/
theorem fields_eq (h : m.InCanonicalForm) :
    (let inside := insideParentheses
        (Text.words ('(' :: (spread (behindStar ['=']) (argsText m.args) ++ [')'])))
      if inside.isEmpty then [] else splitArguments inside) =
      m.args.map fun a => spread (behindStar ['=']) a.render := by
  have fields (f : Text) (mem : f ∈ m.args.map fun a => spread (behindStar ['=']) a.render) :
      ∃ a ∈ m.args, IsField a f := by
    obtain ⟨a, a_mem, rfl⟩ := List.mem_map.mp mem
    exact ⟨a, a_mem, (h.args a a_mem).isField⟩
  have rendered : ∀ text ∈ m.args.map Argument.render, text ≠ [] := by
    intro text mem
    obtain ⟨a, a_mem, rfl⟩ := List.mem_map.mp mem
    obtain ⟨decl, written, declared⟩ := (h.args a a_mem).exists_decl
    rw [written]
    simp [declared.filled]
  have joined : spread (behindStar ['=']) (argsText m.args) =
      Text.join ", ".toList (m.args.map fun a => spread (behindStar ['=']) a.render) := by
    rw [argsText, spread_join rendered, List.map_map]
    rfl
  rw [joined]
  have spaced := isSpaced_join fun f mem => by
    obtain ⟨a, -, field⟩ := fields f mem
    exact ⟨field.spaced, field.filled⟩
  have enclosed : IsSpaced ('(' :: (Text.join ", ".toList
      (m.args.map fun a => spread (behindStar ['=']) a.render) ++ [')'])) :=
    (IsSpaced.of_solid (t := ['(']) (by decide)).append (spaced.append (.of_solid (by decide)))
  dsimp only
  rw [insideParentheses, enclosed.join_words, List.drop_one, List.tail_cons, List.dropLast_concat,
    spaced.trim]
  cases list : m.args with
  | nil => rfl
  | cons a args =>
    rw [list] at fields
    have some_inside :=
      Source.join_ne_nil (fields _ List.mem_cons_self).choose_spec.2.filled ", ".toList
      (args.map fun a => spread (behindStar ['=']) a.render)
    rw [if_neg (by simpa using some_inside)]
    refine splitArguments_join (fun f mem => ?_) (by simp)
    obtain ⟨b, -, field⟩ := fields f mem
    exact ⟨field.spaced, field.whole⟩

theorem isVoidList_args (h : m.InCanonicalForm) : isVoidList m.args = false := by
  unfold isVoidList
  split
  · next only list =>
    have plain : (only.type == "void".toList) = false := by
      simpa using (h.args only (by simp [list])).not_void
    rw [plain]
    rfl
  · rfl

theorem splitAtArguments?_head (h : m.InCanonicalForm) (inside : Text) :
    splitAtArguments? none
      (Text.words (returnText m.returnType ++ m.name ++ ' ' :: '(' :: inside)) =
      some (Text.words m.returnType ++ [m.name], Text.words ('(' :: inside)) := by
  have no_open : ∀ w ∈ Text.words m.returnType ++ [m.name], Text.startsWith ['('] w = false := by
    intro w mem
    refine Bool.eq_false_iff.mpr fun starts => ?_
    have inside := (List.isPrefixOf_iff_prefix.mp starts).subset (List.mem_singleton.mpr rfl)
    rcases List.mem_append.mp mem with mem | mem
    · exact h.not_mem_returnType (by decide) (by decide) ((infix_of_mem_words mem).subset inside)
    · rw [List.mem_singleton.mp mem] at inside
      exact Text.ne_of_isWord (h.name.word '(' inside) (by decide) rfl
  have no_angle : '<' ∉ m.name := fun mem => Text.ne_of_isWord (h.name.word '<' mem) (by decide) rfl
  have closed : leavesAngleOpen m.name = false := by
    simp [leavesAngleOpen, List.count_eq_zero_of_not_mem no_angle]
  obtain ⟨w, ws, list⟩ := words_cons (c := '(') (by decide) inside
  rw [words_append, h.words_head, list]
  refine splitAtArguments?_append no_open (by simp [Text.startsWith]) none fun v last => ?_
  obtain rfl : m.name = v := by simpa using last
  exact closed

theorem readQualifier_tail (h : m.InCanonicalForm) :
    readQualifier (qualifierText m.qualifier) = m.qualifier := by
  have all : ∀ q ∈ [[], "const".toList], readQualifier (qualifierText q) = q := by decide +kernel
  exact all _ h.qualifier

theorem tidyType_returnType (h : m.InCanonicalForm) : tidyType m.returnType = m.returnType := by
  rcases h.returnType with untyped | type
  · rw [untyped]
    exact tidyType_of_stretch (Stretch.nil : Stretch typeSigns [] []) (by decide) (by decide)
  · exact tidyType_of_stretch type.typelike (by decide) (by decide)

/-- **Decoding undoes rendering**, whatever callbacks are read with: there is none. -/
theorem decodeMethodWith_render (h : m.InCanonicalForm)
    (decode : Text → Except ParseError Signature) :
    decodeMethodWith decode m.render = .ok m := by
  have applied := h.isApplied
  have some_head : Text.words m.returnType ++ [m.name] ≠ [] := by simp
  have unmarked : Text.replace callOperatorMark "operator()".toList m.name = m.name := by
    refine Source.replace_eq_self fun inside => ?_
    exact Text.ne_of_isWord (h.name.word '@' (inside.subset (by decide))) (by decide) rfl
  have named : m.name.isEmpty = false := by simpa using h.name.filled
  have fields := h.fields_eq
  dsimp only at fields
  unfold decodeMethodWith
  rw [h.render_eq, applied.cutLast?_spreadBrackets]
  dsimp only
  rw [applied.declarator_eq, h.splitAtArguments?_head]
  obtain ⟨v, vs, head⟩ := List.exists_cons_of_ne_nil some_head
  rw [head]
  dsimp only
  rw [← head, fields, h.mapM_decodeArgument, h.splitReturnAndName_head]
  refine bind_eq_ok_iff.mpr ⟨m.args, rfl, ?_⟩
  dsimp only
  rw [unmarked, named, h.isVoidList_args, h.tidyType_returnType, h.readQualifier_tail]
  rfl

theorem parenthesis_mem_render (h : m.InCanonicalForm) : '(' ∈ m.render := by
  rw [h.render_eq]
  simp

end Signature.InCanonicalForm

/-- What is read whatever callbacks are read with is read. -/
theorem decodeMethod_of_decodeMethodWith (parenthesis : '(' ∈ t)
    (read : ∀ decode, decodeMethodWith decode t = .ok m) : decodeMethod t = .ok m := by
  obtain ⟨depth, parentheses⟩ : ∃ depth, t.count '(' = depth + 1 :=
    Nat.exists_eq_add_one.mpr (List.count_pos_iff.mpr parenthesis)
  rw [decodeMethod, parentheses, decodeMethodWithin]
  exact read _

/-- **Decoding undoes rendering**: a signature in canonical form is read back from its text. -/
theorem decodeMethod_render (h : m.InCanonicalForm) : decodeMethod m.render = .ok m :=
  decodeMethod_of_decodeMethodWith h.parenthesis_mem_render h.decodeMethodWith_render

/-- A method with a template, an array and a default value. -/
def densestTrack : Signature where
  returnType := "const std::map<unsigned int, reco::Track*>&".toList
  name := "densest".toList
  args := [⟨"Vertex*".toList, [], none⟩, ⟨"double[3]".toList, "bins".toList, none⟩,
    ⟨"const float&".toList, "cut".toList, some "-1.5".toList⟩]
  qualifier := "const".toList

theorem isType_trackMap : IsType "const std::map<unsigned int, reco::Track*>&".toList := by
  have named {s t : Text} (left : IsIdentifier s) (right : IsIdentifier t)
      (plain : s ++ "::".toList ++ t ∉ "const".toList :: specifiers)
      (no_operator : ClassName.isOperator (s ++ "::".toList ++ t) = false) :
        IsTypeName (s ++ "::".toList ++ t) :=
    .inr ⟨ReturnType.isQualified_pair left right, plain, no_operator⟩
  have index : IsType ([] ++ "unsigned int".toList ++ []) :=
    .plain (by decide) (.inl (by decide +kernel)) (.inl (by simp))
  have track : IsType ([] ++ ("reco".toList ++ "::".toList ++ "Track".toList) ++ ['*']) :=
    .plain (by decide) (named ⟨by decide, by decide, by decide⟩ ⟨by decide, by decide, by decide⟩
      (by decide) (by decide)) (.inl (by decide))
  have whole : IsType ("const ".toList ++ ("std".toList ++ "::".toList ++ "map".toList) ++
      '<' :: (Text.join ", ".toList ["unsigned int".toList, "reco::Track*".toList] ++
        '>' :: ['&'])) := by
    refine .template (by decide)
      (named ⟨by decide, by decide, by decide⟩ ⟨by decide, by decide, by decide⟩
      (by decide) (by decide)) ?_ (.inr rfl)
    simpa using ⟨index, track⟩
  exact whole

theorem inCanonicalForm_densestTrack : densestTrack.InCanonicalForm where
  returnType := .inr isType_trackMap
  name := ⟨by decide, by decide, by decide⟩
  no_keyword := by decide +kernel
  no_operator := by decide
  args := by
    have name {t : Text} (identifier : IsIdentifier t) (plain : t ∉ "const".toList :: specifiers)
        (no_operator : ClassName.isOperator t = false) : IsTypeName t :=
      .inr ⟨identifier.isQualified, plain, no_operator⟩
    have vertex : IsType ([] ++ "Vertex".toList ++ ['*']) :=
      .plain (by decide) (name ⟨by decide, by decide, by decide⟩ (by decide) (by decide))
        (.inl (by decide))
    have double : IsType ([] ++ "double".toList ++ []) :=
      .plain (by decide) (.inl (by decide +kernel)) (.inl (by simp))
    have float : IsType ("const ".toList ++ "float".toList ++ ['&']) :=
      .plain (by decide) (.inl (by decide +kernel)) (.inr rfl)
    have typed : Argument.InCanonicalForm ⟨"Vertex*".toList, [], none⟩ :=
      ⟨.inl ⟨rfl, vertex⟩, by decide, nofun⟩
    have array : Argument.InCanonicalForm ⟨"double[3]".toList, "bins".toList, none⟩ := by
      have three : IsArraySuffix "[3]".toList := .inr ⟨['3'], by decide, rfl⟩
      exact ⟨.inr ⟨⟨_, _, double, three, rfl⟩, ⟨by decide, by decide, by decide⟩, by decide,
        by decide +kernel⟩, by decide, nofun⟩
    have defaulted :
        Argument.InCanonicalForm ⟨"const float&".toList, "cut".toList, some "-1.5".toList⟩ := by
      refine ⟨.inr ⟨⟨_, _, float, .inl rfl, rfl⟩, ⟨by decide, by decide, by decide⟩, by decide,
        by decide +kernel⟩, by decide, ?_⟩
      rintro _ ⟨⟩
      exact ⟨['-'], "1.5".toList, by decide, by decide, rfl⟩
    exact List.forall_mem_cons.mpr ⟨typed, List.forall_mem_cons.mpr
      ⟨array, List.forall_mem_cons.mpr ⟨defaulted, nofun⟩⟩⟩
  qualifier := by decide

theorem decodeMethod_render_densestTrack :
    densestTrack.InCanonicalForm ∧ decodeMethod densestTrack.render = .ok densestTrack :=
  ⟨inCanonicalForm_densestTrack, decodeMethod_render inCanonicalForm_densestTrack⟩

end AccessorCatalog.Declaration

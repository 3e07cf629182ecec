/-
# Types as they are written

A type in canonical form is `const` or nothing, a name, template arguments in the same form, and
stars or one reference (`IsType`).  Whatever reads declarations looks at types from outside: at
neighbours and brackets (`Stretch`, for a type `Typelike`), at the words that a blank cuts them into
(`NoOperator`, `IsType.not_specifier`), at the last word outside brackets
(`IsType.splitTypeAndName`).  Neighbours and operators are one induction over types each; the rest
is seen at the name in front, since what stands behind it is in brackets (`IsType.exists_parts`).
-/
import Mathlib.Data.List.Infix
import AccessorCatalog.Proofs.CanonicalText
import AccessorCatalog.Proofs.ReturnTypes

namespace AccessorCatalog.Declaration

open Text (isBlank isWord IsSpaced Depth Whole Balanced)
open Source (fits isStar stops)

/-! ## 1. Types -/

/-- The name of a type: a builtin type, or a qualified name that is no keyword of a declaration. -/
def IsTypeName (base : Text) : Prop :=
  base ∈ builtinSpellings ∨
    ClassName.IsQualified base ∧ base ∉ "const".toList :: specifiers ∧
      ClassName.isOperator base = false

/-- What stands behind a type: stars, or one reference. -/
def IsDecoration (back : Text) : Prop :=
  (∀ c ∈ back, c = '*') ∨ back = ['&']

theorem IsDecoration.chars {back : Text} (h : IsDecoration back) :
    ∀ c ∈ back, c = '*' ∨ c = '&' := by
  intro c mem
  rcases h with stars | rfl
  · exact .inl (stars c mem)
  · exact .inr (List.mem_singleton.mp mem)

/-- A type in canonical form. -/
inductive IsType : Text → Prop where
  | plain {front base back : Text} : front ∈ ReturnType.beginnings → IsTypeName base →
      IsDecoration back → IsType (front ++ base ++ back)
  | template {front base back : Text} {args : List Text} : front ∈ ReturnType.beginnings →
      IsTypeName base → (∀ arg ∈ args, IsType arg) → IsDecoration back →
      IsType (front ++ base ++ '<' :: (Text.join ", ".toList args ++ '>' :: back))

/-! ## 2. Neighbours and brackets -/

variable {s t front base back : Text} {c d : Char}

/-- The signs of a type. -/
def typeSigns : Text :=
  [' ', '*', '&', ',', '<', '>', ':']

/-- What a stretch of a declaration looks like from outside: word characters and signs, a word
character in front, and a word character or a sign of a class at the end. -/
structure Stretch (signs ends : Text) (t : Text) : Prop where
  part : ∀ c ∈ t, isWord c = true ∨ c ∈ signs
  chain : t.IsChain fun c d => fits c d = true
  first : ∀ c ∈ t.head?, isWord c = true
  last : ∀ c ∈ t.getLast?, isWord c = true ∨ c ∈ ends
  balanced : Balanced t

/-- A type, or a list of types, from outside. -/
abbrev Typelike :=
  Stretch typeSigns ['>', '*', '&']

/-- Neighbours of which neither asks for anything fit. -/
theorem fits_of_plain (left : c ∉ [' ', ',', '*', '&']) (right : d ∉ [' ', '*', '&', '(']) :
    fits c d = true := by
  simp only [List.mem_cons, List.not_mem_nil, or_false, not_or] at left right
  simp [fits, isStar, left, right]

theorem not_mem_of_isWord (cls : Text) (word : isWord c = true)
    (no_word : ∀ e ∈ cls, isWord e = false) :
    c ∉ cls :=
  fun mem => Text.ne_of_isWord word (no_word c mem) rfl

/-- Anything may stand behind a word character. -/
theorem fits_of_isWord (word : isWord c = true) (d : Char) : fits c d = true := by
  have signs := not_mem_of_isWord [' ', ',', '*', '&', '(', '<', '[', '=', '-'] word (by decide)
  simp only [List.mem_cons, List.not_mem_nil, or_false, not_or] at signs
  simp [fits, isStar, signs, word]

/-- Behind anything but a space and a comma may stand what may stand behind a decoration. -/
theorem fits_stop (solid : c ∉ [' ', ',']) (stop : d ∈ stops) : fits c d = true := by
  by_cases star : c = '*' ∨ c = '&'
  · rcases star with rfl | rfl <;> simp [fits, isStar, stop]
  · have plain : ∀ e ∈ stops, e ∉ [' ', '*', '&', '('] := by decide
    refine fits_of_plain ?_ (plain d stop)
    simp only [List.mem_cons, List.not_mem_nil, or_false, not_or] at solid star ⊢
    exact ⟨solid.1, solid.2, star.1, star.2⟩

/-- Behind what may end a type may stand a space. -/
theorem fits_space_behind (ending : isWord c = true ∨ c ∈ [']', '>', '*', '&']) :
    fits c ' ' = true := by
  rcases ending with word | sign
  · exact fits_of_isWord word ' '
  · have all : ∀ e ∈ [']', '>', '*', '&'], fits e ' ' = true := by decide
    exact all c sign

/-- Brackets around neighbours that fit. -/
theorem isChain_enclose {left right : Char} {behind : Text}
    (chain : t.IsChain fun c d => fits c d = true)
    (first : ∀ c ∈ t.head?, isWord c = true) (last : ∀ c ∈ t.getLast?, fits c right = true)
    (left_plain : left ∉ [' ', ',', '*', '&']) (right_plain : right ∉ [' ', '*', '&', '('])
    (chain_behind : (right :: behind).IsChain fun c d => fits c d = true) :
    (left :: (t ++ right :: behind)).IsChain fun c d => fits c d = true := by
  refine List.isChain_cons.mpr ⟨fun d here => ?_, List.isChain_append.mpr ⟨chain, chain_behind, ?_⟩⟩
  · rw [List.head?_append] at here
    rcases Option.or_eq_some_iff.mp here with here | ⟨-, here⟩
    · exact fits_of_plain left_plain (not_mem_of_isWord _ (first d here) (by decide))
    · cases here
      exact fits_of_plain left_plain right_plain
  · rintro c here _ ⟨⟩
    exact last c here

/-- The name of a type: words and colons, in single spaces. -/
structure Namelike (t : Text) : Prop where
  filled : t ≠ []
  part : ∀ c ∈ t, isWord c = true ∨ c = ':' ∨ c = ' '
  chain : t.IsChain fun c d => fits c d = true
  first : ∀ c ∈ t.head?, isWord c = true
  last : ∀ c ∈ t.getLast?, isWord c = true

instance (t : Text) : Decidable (Namelike t) :=
  decidable_of_iff (t ≠ [] ∧ (∀ c ∈ t, isWord c = true ∨ c = ':' ∨ c = ' ') ∧
      (t.IsChain fun c d => fits c d = true) ∧ (∀ c ∈ t.head?, isWord c = true) ∧
      ∀ c ∈ t.getLast?, isWord c = true)
    ⟨fun ⟨a, b, c, d, e⟩ => ⟨a, b, c, d, e⟩, fun ⟨a, b, c, d, e⟩ => ⟨a, b, c, d, e⟩⟩

theorem namelike_builtin : ∀ base ∈ builtinSpellings, Namelike base := by
  decide +kernel

theorem namelike_qualified (h : ClassName.IsQualified base) : Namelike base where
  filled := h.ne_nil
  part c mem := (h.chars c mem).imp_right .inl
  chain := by
    have plain : ∀ c ∈ base, c ∉ [' ', ',', '*', '&', '('] := by
      intro c mem
      rcases h.chars c mem with word | rfl
      · exact not_mem_of_isWord _ word (by decide)
      · decide
    refine Text.isChain_of_forall fun c c_mem d d_mem => ?_
    have left := plain c c_mem
    have right := plain d d_mem
    simp only [List.mem_cons, List.not_mem_nil, or_false, not_or] at left right
    exact fits_of_plain (by simp [left]) (by simp [right])
  first c first := by
    obtain ⟨d, rest, rfl, word, -⟩ := h.exists_cons
    cases first
    exact word
  last c last := by
    obtain ⟨start, d, rfl, word⟩ := h.exists_concat
    rw [List.getLast?_concat] at last
    cases last
    exact word

/-- With `const` in front or not, a name is one. -/
theorem namelike_head (front_form : front ∈ ReturnType.beginnings) (named : IsTypeName base) :
    Namelike (front ++ base) := by
  have name : Namelike base := named.elim (namelike_builtin base) fun h => namelike_qualified h.1
  simp only [ReturnType.beginnings, List.mem_cons, List.not_mem_nil, or_false] at front_form
  rcases front_form with rfl | rfl
  · exact name
  · obtain ⟨c, rest, rfl⟩ := List.exists_cons_of_ne_nil name.filled
    have word : isWord c = true := name.first c rfl
    refine ⟨by simp, fun d mem => ?_, List.isChain_append.mpr ⟨by decide, name.chain, ?_⟩, ?_, ?_⟩
    · have letters : ∀ d ∈ "const ".toList, isWord d = true ∨ d = ':' ∨ d = ' ' := by decide
      exact (List.mem_append.mp mem).elim (letters d) (name.part d)
    · rintro _ ⟨⟩ _ ⟨⟩
      exact word
    · rintro _ ⟨⟩
      decide
    · intro d last
      rw [List.getLast?_append, List.getLast?_cons] at last
      exact name.last d (by rw [List.getLast?_cons]; simpa using last)

/-- A name has no bracket. -/
theorem Namelike.plain (h : Namelike t) : ∀ c ∈ t, c ∉ Depth.brackets := by
  intro c mem
  rcases h.part c mem with word | rfl | rfl
  · exact Depth.not_mem_of_isWord word
  · decide
  · decide

theorem Namelike.typelike (h : Namelike t) : Typelike t where
  part c mem := by
    rcases h.part c mem with word | rfl | rfl
    · exact .inl word
    · exact .inr (by decide)
    · exact .inr (by decide)
  chain := h.chain
  first := h.first
  last c last := .inl (h.last c last)
  balanced := .of_plain h.plain

namespace Stretch

variable {signs ends : Text}

theorem nil : Stretch signs ends [] :=
  ⟨by simp, .nil, by simp, by simp, .of_plain (by simp)⟩

theorem mono {signs' ends' : Text} (h : Stretch signs ends t) (more : ∀ e ∈ signs, e ∈ signs')
    (more_ends : ∀ e ∈ ends, e ∈ ends') : Stretch signs' ends' t where
  part c mem := (h.part c mem).imp_right (more c)
  chain := h.chain
  first := h.first
  last c last := (h.last c last).imp_right (more_ends c)
  balanced := h.balanced

theorem not_mem (h : Stretch signs ends t) (no_word : isWord c = false) (other : c ∉ signs) :
    c ∉ t := by
  intro mem
  rcases h.part c mem with word | sign
  · rw [no_word] at word
    cases word
  · exact other sign

theorem append (h : Stretch signs ends s) (filled : s ≠ [])
    (part : ∀ c ∈ t, isWord c = true ∨ c ∈ signs) (chain : t.IsChain fun c d => fits c d = true)
    (joint : ∀ c ∈ s.getLast?, ∀ d ∈ t.head?, fits c d = true)
    (last : ∀ c ∈ t.getLast?, isWord c = true ∨ c ∈ ends) (balanced : Balanced t) :
    Stretch signs ends (s ++ t) where
  part c mem := (List.mem_append.mp mem).elim (h.part c) (part c)
  chain := List.isChain_append.mpr ⟨h.chain, chain, joint⟩
  first c first := by
    obtain ⟨d, rest, rfl⟩ := List.exists_cons_of_ne_nil filled
    exact h.first c first
  last c here := by
    rw [List.getLast?_append] at here
    rcases Option.or_eq_some_iff.mp here with here | ⟨-, here⟩
    · exact last c here
    · exact h.last c here
  balanced := h.balanced.append balanced

theorem solid_last (h : Stretch signs ends t) (solid : ∀ e ∈ ends, e ∉ [' ', ',']) :
    ∀ c ∈ t.getLast?, c ∉ [' ', ','] := by
  intro c last
  rcases h.last c last with word | listed
  · exact not_mem_of_isWord _ word (by decide)
  · exact solid c listed

/-- Decorations behind a name or a bracket. -/
theorem append_decoration (h : Typelike t) (solid : ∀ c ∈ t.getLast?, isWord c = true ∨ c = '>')
    (filled : t ≠ []) (decoration : IsDecoration back) : Typelike (t ++ back) := by
  have stars := decoration.chars
  refine h.append filled (fun c mem => ?_) ?_ (fun c last d first => ?_) (fun c last => ?_)
    (.of_plain fun c mem => ?_)
  · rcases stars c mem with rfl | rfl <;> exact .inr (by decide)
  · rcases decoration with stars | rfl
    · refine Text.isChain_of_forall fun c c_mem d d_mem => ?_
      rw [stars c c_mem, stars d d_mem]
      decide
    · exact .singleton _
  · rcases solid c last with word | rfl
    · exact fits_of_isWord word d
    · rcases stars d (List.mem_of_head? first) with rfl | rfl <;> decide
  · rcases stars c (List.mem_of_getLast? last) with rfl | rfl <;> exact .inr (by decide)
  · rcases stars c mem with rfl | rfl <;> decide

/-- Stretches with a comma and a space between them. -/
theorem join {args : List Text} (pieces : ∀ arg ∈ args, Stretch signs ends arg ∧ arg ≠ [])
    (listed : ∀ e ∈ [',', ' '], e ∈ signs) (solid : ∀ e ∈ ends, e ∉ [' ', ',']) :
    Stretch signs ends (Text.join ", ".toList args) := by
  induction args with
  | nil => exact nil
  | cons arg args ih =>
    obtain ⟨piece, filled⟩ := pieces arg List.mem_cons_self
    cases args with
    | nil => simpa [Text.join] using piece
    | cons next args =>
      have rest := ih fun a mem => pieces a (List.mem_cons_of_mem arg mem)
      have some_rest := Source.join_ne_nil (pieces next (by simp)).2 ", ".toList args
      have comma : ", ".toList = [',', ' '] := rfl
      rw [Source.join_cons_cons, comma]
      rw [comma] at rest some_rest
      generalize Text.join [',', ' '] (next :: args) = tail at rest some_rest
      obtain ⟨d, tail, rfl⟩ := List.exists_cons_of_ne_nil some_rest
      have word : isWord d = true := rest.first d rfl
      rw [List.append_assoc]
      refine piece.append filled (fun c mem => ?_) ?_ ?_ (fun c last => rest.last c ?_)
        ((Balanced.of_plain (by decide)).append rest.balanced)
      · rcases List.mem_append.mp mem with mem | mem
        · exact .inr (listed c mem)
        · exact rest.part c mem
      · exact List.isChain_cons_cons.mpr ⟨by decide, List.isChain_cons_cons.mpr ⟨word, rest.chain⟩⟩
      · rintro c last _ ⟨⟩
        exact fits_stop (piece.solid_last solid c last) (by decide)
      · rw [List.getLast?_append, List.getLast?_cons] at last
        rw [List.getLast?_cons]
        simpa using last

/-- A name with arguments in brackets. -/
theorem append_brackets (h : Typelike s) (filled : s ≠ [])
    (word : ∀ c ∈ s.getLast?, isWord c = true)
    (inner : Typelike t) : Typelike (s ++ '<' :: (t ++ ['>'])) := by
  have brackets : ('<' :: (t ++ ['>'])).IsChain fun c d => fits c d = true :=
    isChain_enclose inner.chain inner.first
      (fun c last => fits_stop (inner.solid_last (by decide) c last) (by decide)) (by decide)
      (by decide) (.singleton '>')
  refine h.append filled (fun c mem => ?_) brackets ?_ (fun c last => ?_)
    (inner.balanced.enclose Text.pair_angle)
  · simp only [List.mem_append, List.mem_cons, List.not_mem_nil, or_false] at mem
    rcases mem with rfl | mem | rfl
    · exact .inr (by decide)
    · exact inner.part c mem
    · exact .inr (by decide)
  · rintro c last _ ⟨⟩
    exact fits_of_isWord (word c last) '<'
  · obtain rfl : c = '>' := by simpa [List.getLast?_cons] using last.symm
    exact .inr (by decide)

end Stretch

theorem IsType.ne_nil (type : IsType t) : t ≠ [] := by
  cases type with
  | plain front_form named =>
    exact List.append_ne_nil_of_left_ne_nil (namelike_head front_form named).filled _
  | template => simp

/-- **A type looks like one.** -/
theorem IsType.typelike (type : IsType t) : Typelike t := by
  induction type with
  | plain front_form named decoration =>
    have head := namelike_head front_form named
    exact head.typelike.append_decoration
      (fun c last => .inl (head.last c last)) head.filled decoration
  | @template front base back args front_form named types decoration ih =>
    have head := namelike_head front_form named
    have inner : Typelike (Text.join ", ".toList args) :=
      Stretch.join (fun arg mem => ⟨ih arg mem, (types arg mem).ne_nil⟩) (by decide) (by decide)
    have core := head.typelike.append_brackets head.filled head.last inner
    have ends : ∀ c ∈ (front ++ base ++ '<' :: (Text.join ", ".toList args ++ ['>'])).getLast?,
        isWord c = true ∨ c = '>' := by
      intro c last
      exact .inr (by simpa [List.getLast?_cons] using last.symm)
    have whole := core.append_decoration ends (by simp) decoration
    simpa using whole

/-! ## 3. Words of a type -/

/-- Whether a text starts with an operator is seen in front of a sign. -/
theorem isOperator_append (break_behind : ∀ c ∈ t.head?, Text.isAlphanumeric c = false ∧ c ≠ '_') :
    ClassName.isOperator (s ++ t) = ClassName.isOperator s := by
  have letters : ∀ c ∈ "operator".toList, Text.isAlphanumeric c = true := by decide
  unfold ClassName.isOperator
  cases here : Text.afterPrefix? "operator".toList s with
  | some rest =>
    obtain rfl := Text.afterPrefix?_eq_some.mp here
    have whole :
        Text.afterPrefix? "operator".toList ("operator".toList ++ rest ++ t) = some (rest ++ t) :=
      Text.afterPrefix?_eq_some.mpr (List.append_assoc _ _ _)
    rw [whole]
    cases rest with
    | cons c rest => rfl
    | nil =>
      cases t with
      | nil => rfl
      | cons c t => simp [break_behind c rfl]
  | none =>
    have nowhere : Text.afterPrefix? "operator".toList (s ++ t) = none := by
      rw [Option.eq_none_iff_forall_not_mem]
      intro rest found
      rcases List.append_eq_append_iff.mp (Text.afterPrefix?_eq_some.mp found) with
        ⟨more, whole, behind⟩ | ⟨more, rfl, -⟩
      · -- the rest of the keyword would stand behind the break
        cases more with
        | nil =>
          have found : Text.afterPrefix? "operator".toList s = some [] :=
            Text.afterPrefix?_eq_some.mpr (by rw [whole, List.append_nil, List.append_nil])
          rw [here] at found
          cases found
        | cons c more =>
          have letter := letters c (by simp [whole])
          rw [(break_behind c (by rw [behind]; rfl)).1] at letter
          cases letter
      · rw [Text.afterPrefix?_eq_some.mpr rfl] at here
        cases here
    rw [nowhere]

/-- No operator stands behind a space. -/
def NoOperator (t : Text) : Prop :=
  ∀ s u, t = s ++ ' ' :: u → ClassName.isOperator u = false

namespace NoOperator

theorem of_not_mem (no_space : ' ' ∉ t) : NoOperator t := by
  rintro s u rfl
  simp at no_space

theorem cons (other : c ≠ ' ') (h : NoOperator t) : NoOperator (c :: t) := by
  intro s u cut
  cases s with
  | nil => exact absurd (List.cons.inj cut).1 other
  | cons d s => exact h s u (List.cons.inj cut).2

theorem tail (h : NoOperator (' ' :: t)) : NoOperator t :=
  fun s u cut => h (' ' :: s) u (by rw [cut]; rfl)

theorem append (hs : NoOperator s) (ht : NoOperator t)
    (break_behind : ∀ c ∈ t.head?, Text.isAlphanumeric c = false ∧ c ≠ '_') :
      NoOperator (s ++ t) := by
  intro a u cut
  rcases List.append_eq_append_iff.mp cut with ⟨b, rfl, behind⟩ | ⟨b, rfl, behind⟩
  · exact ht b u behind
  · cases b with
    | nil => exact ht [] u behind.symm
    | cons c b =>
      obtain ⟨rfl, rfl⟩ := List.cons.inj behind
      exact (isOperator_append break_behind).trans (hs a b rfl)

/-- A name has no operator in front. -/
theorem of_head (front_form : front ∈ ReturnType.beginnings) (named : IsTypeName base) :
    NoOperator (' ' :: (front ++ base)) := by
  have name : NoOperator (' ' :: base) := by
    rcases named with listed | ⟨qualified, -, plain⟩
    · have none_inside :
          ∀ base ∈ builtinSpellings, ∀ u ∈ base.tails, ClassName.isOperator u = false := by
        decide +kernel
      intro s u cut
      refine none_inside base listed u ((List.mem_tails _ _).mpr ?_)
      cases s with
      | nil =>
        obtain ⟨-, rfl⟩ := List.cons.inj cut
        exact List.suffix_rfl
      | cons c s =>
        obtain ⟨-, rfl⟩ := List.cons.inj cut
        exact (List.suffix_cons ' ' u).trans (List.suffix_append s _)
    · intro s u cut
      cases s with
      | nil =>
        obtain ⟨-, rfl⟩ := List.cons.inj cut
        exact plain
      | cons c s =>
        obtain ⟨-, rfl⟩ := List.cons.inj cut
        exact absurd (by simp) (qualified.not_mem (c := ' ') (by decide) (by decide))
  simp only [ReturnType.beginnings, List.mem_cons, List.not_mem_nil, or_false] at front_form
  rcases front_form with rfl | rfl
  · exact name
  · have keyword : NoOperator (' ' :: "const".toList) := by
      intro s u cut
      cases s with
      | nil =>
        obtain ⟨-, rfl⟩ := List.cons.inj cut
        decide
      | cons c s =>
        have inside : ' ' ∈ "const".toList := by
          rw [(List.cons.inj cut).2]
          simp
        exact absurd inside (by decide)
    exact keyword.append name (by rintro _ ⟨⟩; decide)

theorem of_decoration (decoration : IsDecoration back) :
    NoOperator back ∧ ∀ c ∈ back.head?, Text.isAlphanumeric c = false ∧ c ≠ '_' := by
  have stars := decoration.chars
  constructor
  · refine of_not_mem fun mem => ?_
    rcases stars ' ' mem with same | same <;> cases same
  · intro c first
    rcases stars c (List.mem_of_head? first) with rfl | rfl <;> decide

/-- None stands in front of a type in a list. -/
theorem join {args : List Text} (types : ∀ arg ∈ args, NoOperator (' ' :: arg)) :
    NoOperator (' ' :: Text.join ", ".toList args) := by
  induction args with
  | nil =>
    intro s u cut
    obtain ⟨-, rfl⟩ : s = [] ∧ u = [] := by
      cases s with
      | nil => simpa [Text.join] using cut.symm
      | cons c s => simp [Text.join] at cut
    rfl
  | cons arg args ih =>
    have type := types arg List.mem_cons_self
    cases args with
    | nil => simpa [Text.join] using type
    | cons next args =>
      have rest := ih fun a mem => types a (List.mem_cons_of_mem arg mem)
      have comma : ", ".toList = [',', ' '] := rfl
      rw [Source.join_cons_cons, comma]
      rw [comma] at rest
      have behind : NoOperator (',' :: ' ' :: Text.join [',', ' '] (next :: args)) :=
        rest.cons (by decide)
      have whole := type.append behind (by rintro _ ⟨⟩; decide)
      simpa using whole

/-- **No word of a type is an operator.** -/
theorem of_type (type : IsType t) : NoOperator (' ' :: t) := by
  induction type with
  | plain front_form named decoration =>
    obtain ⟨plain, starts⟩ := of_decoration decoration
    exact (of_head front_form named).append plain starts
  | @template front base back args front_form named types decoration ih =>
    have close : NoOperator ('>' :: back) := (of_decoration decoration).1.cons (by decide)
    have inner :=
      ((join ih).tail.append close (by rintro _ ⟨⟩; decide)).cons (by decide : '<' ≠ ' ')
    exact (of_head front_form named).append inner (by rintro _ ⟨⟩; decide)

theorem isOperator_of_mem_words (h : NoOperator (' ' :: t)) (spaced : IsSpaced t) :
    ∀ w ∈ Text.words t, ClassName.isOperator w = false := by
  -- with a space in front of each, the words are the text with a space in front
  have joined : ∀ ws : List Text, ws ≠ [] → ws.flatMap (' ' :: ·) = ' ' :: Text.join [' '] ws := by
    intro ws filled
    induction ws with
    | nil => exact absurd rfl filled
    | cons w ws ih =>
      cases ws with
      | nil => simp [Text.join]
      | cons next ws =>
        rw [List.flatMap_cons, ih (by simp), Source.join_cons_cons]
        simp
  intro w mem
  have whole := joined (Text.words t) (List.ne_nil_of_mem mem)
  rw [spaced.join_words] at whole
  obtain ⟨before, behind, cut⟩ := List.append_of_mem mem
  rw [cut, List.flatMap_append, List.flatMap_cons] at whole
  have plain : ClassName.isOperator (w ++ behind.flatMap (' ' :: ·)) = false := h _ _ whole.symm
  rwa [isOperator_append] at plain
  intro c first
  cases behind with
  | nil => cases first
  | cons next behind =>
    cases first
    decide

end NoOperator

theorem Stretch.isSpaced {signs ends : Text} (h : Stretch signs ends t)
    (blanks : ∀ e ∈ signs, isBlank e = true → e = ' ') (solid : ∀ e ∈ ends, isBlank e = false) :
    IsSpaced t where
  space c mem blank := by
    rcases h.part c mem with word | sign
    · rw [Text.isBlank_of_isWord word] at blank
      cases blank
    · exact blanks c sign blank
  single := by
    refine List.IsChain.imp_of_mem_imp (fun c d c_mem _ fit blank => ?_) h.chain
    rcases h.part c c_mem with word | sign
    · rw [Text.isBlank_of_isWord word] at blank
      cases blank
    · obtain rfl := blanks c sign blank
      exact Text.isBlank_of_isWord (Source.fits_space fit)
  first c first := Text.isBlank_of_isWord (h.first c first)
  last c last := by
    rcases h.last c last with word | sign
    · exact Text.isBlank_of_isWord word
    · exact solid c sign

/-! ## 4. The first word -/

/-- A type is a name and something that neither goes on with it nor stands apart. -/
theorem IsType.exists_parts (type : IsType t) : ∃ front ∈ ReturnType.beginnings, ∃ base tail,
    t = front ++ base ++ tail ∧ IsTypeName base ∧
      (∀ p : Char → Bool, p '<' = false → p '*' = false → p '&' = false → Whole p tail) ∧
      ∀ c ∈ tail.head?, isWord c = false ∧ isBlank c = false := by
  have whole_back {back : Text} (decoration : IsDecoration back) {p : Char → Bool}
      (star : p '*' = false) (reference : p '&' = false) : Whole p back := by
    refine Text.whole_of_plain fun c mem => ?_
    rcases decoration.chars c mem with rfl | rfl
    · exact ⟨by decide, star⟩
    · exact ⟨by decide, reference⟩
  cases type with
  | @plain front base back front_form named decoration =>
    refine ⟨front, front_form, base, back, rfl, named, fun p _ => whole_back decoration,
      fun c first => ?_⟩
    rcases decoration.chars c (List.mem_of_head? first) with rfl | rfl <;> decide
  | @template front base back args front_form named types decoration =>
    have inner : Typelike (Text.join ", ".toList args) :=
      Stretch.join
        (fun arg mem => ⟨(types arg mem).typelike, (types arg mem).ne_nil⟩) (by decide) (by decide)
    refine ⟨front, front_form, base, _, rfl, named, fun p angle star reference => ?_, ?_⟩
    · have brackets := inner.balanced.whole_enclose Text.pair_angle angle
      simpa using brackets.append (whole_back decoration star reference)
    · rintro _ ⟨⟩
      decide

theorem takeWhile_isWord {v u : Text} (letters : ∀ c ∈ v, isWord c = true)
    (behind : ∀ c ∈ u.head?, isWord c = false) : (v ++ u).takeWhile isWord = v := by
  rw [List.takeWhile_append_of_pos letters]
  cases u with
  | nil => simp
  | cons c u => simp [behind c rfl]

/-- The first word of a builtin spelling is no specifier. -/
theorem takeWhile_builtin {tail : Text} (listed : base ∈ builtinSpellings)
    (behind : ∀ c ∈ tail.head?, isWord c = false) :
    (base ++ tail).takeWhile isWord ∉ specifiers := by
  have none_first : ∀ base ∈ builtinSpellings, base.takeWhile isWord ∉ specifiers := by
    decide +kernel
  have same : (base ++ tail).takeWhile isWord = base.takeWhile isWord := by
    cases tail with
    | nil => rw [List.append_nil]
    | cons c tail => exact Source.takeWhile_append_stop (behind c rfl) base tail
  rw [same]
  exact none_first base listed

/-- The first word of a qualified name is all of it, or a colon stands behind it. -/
theorem qualified_eq_or_colon {tail v u : Text} (qualified : ClassName.IsQualified base)
    (behind : ∀ c ∈ tail.head?, isWord c = false) (cut : base ++ tail = v ++ u)
    (first : (base ++ tail).takeWhile isWord = v) : base = v ∨ u.head? = some ':' := by
  obtain ⟨word, rest, rfl, identifier, colon⟩ := qualified.exists_first
  have no_word : ∀ c ∈ (rest ++ tail).head?, isWord c = false := by
    intro c first
    cases rest with
    | nil => exact behind c first
    | cons d rest =>
      cases first
      rw [colon c rfl]
      decide
  rw [List.append_assoc, takeWhile_isWord identifier.word no_word] at first
  subst first
  rw [List.append_assoc, List.append_cancel_left_eq] at cut
  cases rest with
  | nil => exact .inl (List.append_nil word)
  | cons d rest =>
    rw [← cut, ← colon d rfl]
    exact .inr rfl

/-- **No specifier is the first word of a type.** -/
theorem IsType.not_specifier (type : IsType t) {v u : Text} (specifier : v ∈ specifiers)
    (cut : t = v ++ u) :
    ¬ ∀ c ∈ u.head?, isBlank c = true := by
  intro blank
  have letters : ∀ v ∈ specifiers, ∀ c ∈ v, isWord c = true := by decide +kernel
  have first : t.takeWhile isWord = v := by
    rw [cut]
    exact takeWhile_isWord (letters v specifier) fun c first =>
      Text.isWord_of_isBlank (blank c first)
  obtain ⟨front, front_form, base, tail, rfl, named, -, behind⟩ := type.exists_parts
  have no_word : ∀ c ∈ tail.head?, isWord c = false := fun c mem => (behind c mem).1
  simp only [ReturnType.beginnings, List.mem_cons, List.not_mem_nil, or_false] at front_form
  rcases front_form with rfl | rfl
  · rw [List.nil_append] at first cut
    rcases named with listed | ⟨qualified, plain, -⟩
    · rw [← first] at specifier
      exact takeWhile_builtin listed no_word specifier
    · rcases qualified_eq_or_colon qualified no_word cut first with rfl | colon
      · exact plain (List.mem_cons_of_mem _ specifier)
      · exact absurd (blank ':' colon) (by decide)
  · rw [show "const ".toList = "const".toList ++ [' '] from rfl, List.append_assoc,
      List.append_assoc, takeWhile_isWord (by decide) (by rintro _ ⟨⟩; decide)] at first
    rw [← first] at specifier
    exact absurd specifier (by decide)

/-- The commas of a type stand in brackets. -/
theorem IsType.whole (type : IsType t) : Whole (· == ',') t := by
  obtain ⟨front, front_form, base, tail, rfl, named, wholes, -⟩ := type.exists_parts
  have head := namelike_head front_form named
  refine Whole.append (Text.whole_of_plain fun c mem => ⟨head.plain c mem, ?_⟩)
    (wholes _ (by decide) (by decide) (by decide))
  rcases head.part c mem with word | rfl | rfl
  · simpa using Text.ne_of_isWord word (by decide)
  · decide
  · decide

/-- A type is not the keyword alone. -/
theorem IsType.append_ne_const (type : IsType t) {suffix : Text}
    (behind : ∀ c ∈ suffix.head?, isWord c = false) : t ++ suffix ≠ "const".toList := by
  intro whole
  have letters : ∀ c ∈ t ++ suffix, isWord c = true := by
    rw [whole]
    decide
  have none_behind (u : Text) (within : ∀ c ∈ u, c ∈ t ++ suffix)
      (starts : ∀ c ∈ u.head?, isWord c = false) : u = [] := by
    cases u with
    | nil => rfl
    | cons c u =>
      have word := letters c (within c List.mem_cons_self)
      rw [starts c rfl] at word
      cases word
  obtain ⟨front, front_form, base, tail, rfl, named, -, starts⟩ := type.exists_parts
  obtain rfl := none_behind suffix (fun c mem => by simp [mem]) behind
  obtain rfl := none_behind tail (fun c mem => by simp [mem]) fun c first => (starts c first).1
  simp only [ReturnType.beginnings, List.mem_cons, List.not_mem_nil, or_false] at front_form
  rcases front_form with rfl | rfl
  · have same : base = "const".toList := by simpa using whole
    rcases named with listed | ⟨-, plain, -⟩
    · have other : ∀ base ∈ builtinSpellings, base ≠ "const".toList := by decide +kernel
      exact other base listed same
    · exact plain (by rw [same]; exact List.mem_cons_self)
  · have space := letters ' ' (by simp)
    exact absurd space (by decide)

/-! ## 5. Words outside brackets -/

/-- The last word of a text. -/
theorem exists_last_word (t : Text) : ' ' ∉ t ∨ ∃ pre w, t = pre ++ ' ' :: w ∧ ' ' ∉ w := by
  by_cases space : ' ' ∈ t
  · obtain ⟨w, pre, cut, no_space⟩ := List.eq_append_cons_of_mem (List.mem_reverse.mpr space)
    refine .inr ⟨pre.reverse, w.reverse, ?_, by simpa using no_space⟩
    rw [← List.reverse_reverse t, cut]
    simp
  · exact .inl space

/-- The last word of a name is that of a builtin type, or all there is behind `const`. -/
theorem last_word_of_head (front_form : front ∈ ReturnType.beginnings) (named : IsTypeName base)
    {pre w : Text} (cut : front ++ base = pre ++ ' ' :: w) (no_space : ' ' ∉ w) :
    w ∈ builtinSpellings ∨ pre = "const".toList := by
  have in_base {pre : Text} (cut : base = pre ++ ' ' :: w) : w ∈ builtinSpellings := by
    rcases named with listed | ⟨qualified, -, -⟩
    · have last_builtin : ∀ base ∈ builtinSpellings, ∀ w ∈ base.tails, ' ' :: w <:+ base → ' ' ∉ w →
          w ∈ builtinSpellings := by decide +kernel
      have ends : ' ' :: w <:+ base := ⟨pre, cut.symm⟩
      exact last_builtin base listed w
        ((List.mem_tails _ _).mpr ((List.suffix_cons ' ' w).trans ends)) ends
        no_space
    · exact absurd (by simp [cut]) (qualified.not_mem (c := ' ') (by decide) (by decide))
  simp only [ReturnType.beginnings, List.mem_cons, List.not_mem_nil, or_false] at front_form
  rcases front_form with rfl | rfl
  · exact .inl (in_base cut)
  · have parts : "const".toList ++ ' ' :: base = pre ++ ' ' :: w := cut
    rcases List.append_eq_append_iff.mp parts with ⟨more, rfl, behind⟩ | ⟨more, whole, behind⟩
    · cases more with
      | nil => exact .inr (List.append_nil _)
      | cons c more => exact .inl (in_base (List.cons.inj behind).2)
    · cases more with
      | nil => exact .inr (by rw [whole, List.append_nil])
      | cons c more =>
        obtain ⟨rfl, -⟩ := List.cons.inj behind
        have inside : ' ' ∈ "const".toList := by
          rw [whole]
          simp
        exact absurd inside (by decide)

theorem splitTypeAndName_of_type {words : List Text}
    (typed : 2 ≤ words.length → isTypeWord (words.getLastD []) = true ∨
      words.head? = some "const".toList ∧ words.length = 2) :
    splitTypeAndName words = (Text.join [' '] words, []) := by
  obtain _ | ⟨first, _ | ⟨second, words⟩⟩ := words
  · rfl
  · simp [splitTypeAndName, Text.join]
  · rw [splitTypeAndName]
    · refine if_pos ?_
      rcases typed (by simp) with last | ⟨first, two⟩
      · rw [last, Bool.true_or]
      · rw [List.head?_cons, Option.some.injEq] at first
        obtain rfl : words = [] := by simpa using two
        simp [first]
    · simp

theorem splitTypeAndName_append {words : List Text} {name : Text} (filled : words ≠ [])
    (typed : isTypeWord name = false) (other : words ≠ ["const".toList]) :
    splitTypeAndName (words ++ [name]) = (Text.join [' '] words, name) := by
  obtain ⟨first, words, rfl⟩ := List.exists_cons_of_ne_nil filled
  have last : ((first :: words) ++ [name]).getLastD [] = name := by
    rw [List.getLastD_eq_getLast?, List.getLast?_concat]
    rfl
  have more : ¬ (first == "const".toList && ((first :: words) ++ [name]).length == 2) = true := by
    intro both
    simp only [List.length_append, List.length_cons, List.length_nil, Bool.and_eq_true,
      beq_iff_eq] at both
    obtain rfl : words = [] := List.length_eq_zero_iff.mp (by omega)
    exact other (by rw [both.1])
  rw [List.cons_append] at last more ⊢
  rw [splitTypeAndName]
  · rw [last, typed, Bool.false_or, if_neg more, ← List.cons_append, List.dropLast_concat]
  · simp

/-- A type is one word, or its last word is that of a builtin type, or it is `const` in front of one
word. -/
theorem IsType.topWords_eq (type : IsType t) :
    Text.topWords t = [t] ∨ ∃ words last, Text.topWords t = words ++ [last] ∧
      (startsWithBuiltin last = true ∨ words = ["const".toList]) := by
  have spaced := type.typelike.isSpaced (by decide) (by decide)
  obtain ⟨front, front_form, base, tail, rfl, named, wholes, starts⟩ := type.exists_parts
  have whole : Whole isBlank tail := wholes isBlank (by decide) (by decide) (by decide)
  have head := namelike_head front_form named
  have solid {w : Text} (within : ∀ c ∈ w, c ∈ front ++ base) (no_space : ' ' ∉ w) :
      Whole isBlank w := by
    refine Text.whole_of_plain fun c mem => ⟨head.plain c (within c mem), ?_⟩
    rcases head.part c (within c mem) with word | rfl | rfl
    · exact Text.isBlank_of_isWord word
    · decide
    · exact absurd mem no_space
  rcases exists_last_word (front ++ base) with no_space | ⟨pre, w, cut, no_space⟩
  · have one := (solid (fun c mem => mem) no_space).append whole
    exact .inl (Text.topWords_of_clear (List.append_ne_nil_of_left_ne_nil head.filled _) one.clear)
  · have closed : Depth.read {} pre = {} :=
      Depth.read_of_plain (fun c mem => head.plain c (by rw [cut]; simp [mem])) {}
    have last := (solid (w := w) (fun c mem => by rw [cut]; simp [mem]) no_space).append whole
    have filled : w ≠ [] := by
      rintro rfl
      have ends := head.last ' ' (by rw [cut]; simp)
      exact absurd ends (by decide)
    have words : Text.topWords (front ++ base ++ tail) = Text.topWords pre ++ [w ++ tail] := by
      rw [cut, List.append_assoc, List.cons_append, Text.topWords_append (by decide) closed,
        Text.topWords_of_clear (List.append_ne_nil_of_left_ne_nil filled _) last.clear]
    refine .inr ⟨_, _, words, ?_⟩
    rcases last_word_of_head front_form named cut no_space with builtin | rfl
    · have trimmed : Text.trim (w ++ tail) = w ++ tail := by
        rw [cut, List.append_assoc, List.cons_append] at spaced
        exact spaced.of_append.2.2.trim
      have head_builtin : hasBuiltinHead (w ++ tail) = true := by
        refine hasBuiltinHead_iff.mpr ⟨w, builtin, tail, rfl, ?_⟩
        cases tail with
        | nil => rfl
        | cons c tail => exact (starts c rfl).1
      exact .inl (by rw [startsWithBuiltin, trimmed, head_builtin])
    · exact .inr (by decide)

/-- **A type by itself names no argument.** -/
theorem IsType.splitTypeAndName (type : IsType t) :
    splitTypeAndName (Text.topWords t) = (t, []) := by
  have spaced := type.typelike.isSpaced (by decide) (by decide)
  rw [splitTypeAndName_of_type, spaced.join_topWords]
  intro several
  rcases type.topWords_eq with one | ⟨words, last, cut, builtin | rfl⟩
  · rw [one] at several
    simp at several
  · left
    rw [cut]
    simp [isTypeWord, builtin]
  · right
    rw [cut]
    exact ⟨rfl, rfl⟩

end AccessorCatalog.Declaration

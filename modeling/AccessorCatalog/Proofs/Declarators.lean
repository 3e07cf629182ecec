/-
# Declarators that share a type

`int *p, q[2], r=3` declares three members.  Every declarator behind the first is decoded as if it
stood alone behind a type that is read off the first member: its type without decorations at the end
and without array suffix.  So it matters what is left of the type in front.

* An initialiser goes before anything is read (`IsLeading.plainDeclarator_append`), and so a
  declarator behind a type is a member of that type with the decorations and the array suffix of the
  declarator (`decodeMember_front`);
* what the others share is the type in front, tidied, with the decorations of the first declarator
  if an array suffix stands behind them (`sharedType_eq`);
* a type that is tidy already is read as the type it was (`tighten_tighten_append`), and tidying
  brings no storage specifier to its front (`StartsWithSpecifier.of_tighten`).

Hence `decodeMembers_declarators`: every declarator is decoded behind the leading type and what the
first one leaves on it, `Declarator.carried`.  The residual is exactly that: decorations are taken
off before the array suffix is, and so those of an array of pointers stay
(`decodeMembers_pointers`).
-/
import Mathlib.Data.List.TakeDrop
import AccessorCatalog.Proofs.Fallible
import AccessorCatalog.Proofs.QualifiedNames
import AccessorCatalog.Proofs.TidyTypes

namespace AccessorCatalog.Declaration

open Text (isBlank isWord IsSpaced Depth Whole Clear)

/-! ## 1. Declarators -/

/-- A declarator in its parts: decorations, a name, the sizes of an array and an initialiser. -/
structure Declarator where
  stars : Text
  name : Text
  sizes : List Text
  initialiser : Text

namespace Declarator

/-- The array suffix: every size in square brackets. -/
def suffix (d : Declarator) : Text :=
  d.sizes.flatMap fun size => '[' :: (size ++ [']'])

/-- The declarator without its initialiser. -/
def body (d : Declarator) : Text :=
  d.stars ++ d.name ++ d.suffix

/-- The declarator as it is written. -/
def text (d : Declarator) : Text :=
  d.body ++ d.initialiser

/-- What the first declarator of a declaration leaves on the type for the others: its decorations,
if an array suffix stands behind them. -/
def carried (d : Declarator) : Text :=
  if d.sizes = [] then [] else d.stars

/-- The size of an array: brackets match, and there is no brace. -/
structure IsSize (size : Text) : Prop where
  spaced : IsSpaced size
  balanced : Text.Balanced size
  no_brace : '\x7b' ∉ size

/-- An initialiser: nothing, or a sign with a value, which may hold commas in brackets. -/
def IsInitialiser (t : Text) : Prop :=
  t = [] ∨ ∃ gap sign value, t = gap ++ sign :: value ∧ (∀ b ∈ gap, isBlank b = true) ∧
    (sign = '=' ∨ sign = '\x7b') ∧ Whole (· == ',') value

/-- A declarator in which each part is what it is called. -/
structure IsPlain (d : Declarator) : Prop where
  stars : ∀ c ∈ d.stars, c = '*' ∨ c = '&'
  name : ClassName.IsIdentifier d.name
  sizes : ∀ size ∈ d.sizes, IsSize size
  initialiser : IsInitialiser d.initialiser

variable {d : Declarator}

namespace IsPlain

/-- The decorations and the name hold no bracket. -/
theorem front_plain (h : d.IsPlain) {p : Char → Bool} (plain : p '*' = false ∧ p '&' = false)
    (no_word : ∀ c, isWord c = true → p c = false) :
    ∀ c ∈ d.stars ++ d.name, c ∉ Depth.brackets ∧ p c = false := by
  intro c mem
  rcases List.mem_append.mp mem with mem | mem
  · rcases h.stars c mem with rfl | rfl
    · exact ⟨by decide, plain.1⟩
    · exact ⟨by decide, plain.2⟩
  · exact ⟨Depth.not_mem_of_isWord (h.name.word c mem), no_word c (h.name.word c mem)⟩

/-- What holds of the sizes in their brackets holds of the array suffix. -/
theorem suffix_induction (h : d.IsPlain) {P : Text → Prop} (nil : P [])
    (append : ∀ {s t}, P s → P t → P (s ++ t))
    (enclosed : ∀ size, IsSize size → P ('[' :: (size ++ [']']))) :
    P d.suffix := by
  have sizes := h.sizes
  unfold suffix
  generalize d.sizes = listed at sizes ⊢
  induction listed with
  | nil => exact nil
  | cons size listed ih =>
    obtain ⟨here, rest⟩ := List.forall_mem_cons.mp sizes
    rw [List.flatMap_cons]
    exact append (enclosed size here) (ih rest)

/-- Outside brackets, a declarator without its initialiser holds decorations and word characters. -/
theorem whole_body (h : d.IsPlain) {p : Char → Bool} (plain : p '*' = false ∧ p '&' = false)
    (no_word : ∀ c, isWord c = true → p c = false) (square : p '[' = false) : Whole p d.body := by
  refine (Text.whole_of_plain (h.front_plain plain no_word)).append ?_
  refine h.suffix_induction (Text.whole_of_plain (by simp)) Whole.append fun size form => ?_
  exact form.balanced.whole_enclose Text.pair_square square

theorem whole_body_sign (h : d.IsPlain) {sep : Char} (no_word : isWord sep = false)
    (plain : sep ∉ ['*', '&', '[']) : Whole (· == sep) d.body := by
  simp only [List.mem_cons, List.not_mem_nil, or_false, not_or] at plain
  refine h.whole_body ?_ (fun c word => ?_) ?_
  · simp [Ne.symm plain.1, Ne.symm plain.2.1]
  · simpa using Text.ne_of_isWord word no_word
  · simp [Ne.symm plain.2.2]

theorem isSpaced_suffix (h : d.IsPlain) : IsSpaced d.suffix := by
  refine h.suffix_induction (.of_solid (by simp)) IsSpaced.append fun size form => ?_
  have open_bracket : IsSpaced ['['] := .of_solid (List.forall_mem_singleton.mpr (by decide))
  have close : IsSpaced [']'] := .of_solid (List.forall_mem_singleton.mpr (by decide))
  simpa using (open_bracket.append form.spaced).append close

theorem isBlank_stars (h : d.IsPlain) : ∀ c ∈ d.stars, isBlank c = false := by
  intro c mem
  rcases h.stars c mem with rfl | rfl <;> decide

theorem isSpaced_body (h : d.IsPlain) : IsSpaced d.body :=
  ((IsSpaced.of_solid h.isBlank_stars).append
    (.of_solid fun c mem => Text.isBlank_of_isWord (h.name.word c mem))).append h.isSpaced_suffix

theorem body_ne_nil (h : d.IsPlain) : d.body ≠ [] := by
  simp [body, h.name.filled]

theorem no_brace_body (h : d.IsPlain) : '\x7b' ∉ d.body := by
  intro mem
  rw [body, List.mem_append, List.mem_append] at mem
  rcases mem with (mem | mem) | mem
  · rcases h.stars _ mem with same | same <;> cases same
  · exact Text.ne_of_isWord (h.name.word _ mem) (by decide) rfl
  · obtain ⟨size, listed, inside⟩ := List.mem_flatMap.mp mem
    have brace := (h.sizes size listed).no_brace
    simp [brace] at inside

/-- An array suffix is in brackets. -/
theorem suffix_eq (h : d.sizes ≠ []) : ∃ inside, d.suffix = '[' :: (inside ++ [']']) := by
  obtain ⟨front, size, cut⟩ := List.eq_nil_or_concat d.sizes |>.resolve_left h
  rw [suffix, cut, List.concat_eq_append, List.flatMap_append]
  cases front with
  | nil => exact ⟨size, by simp⟩
  | cons first front =>
    exact ⟨first ++ [']'] ++ front.flatMap (fun size => '[' :: (size ++ [']'])) ++ '[' :: size,
      by simp⟩

/-- It ends with a word character or with the close of a bracket. -/
theorem getLast_body (h : d.IsPlain) :
    ∃ front c, d.body = front ++ [c] ∧ (isWord c = true ∨ c = ']') := by
  by_cases scalar : d.sizes = []
  · obtain ⟨front, c, cut, word⟩ := h.name.exists_concat
    exact ⟨d.stars ++ front, c, by simp [body, suffix, scalar, cut], .inl word⟩
  · obtain ⟨inside, cut⟩ := suffix_eq scalar
    exact ⟨d.stars ++ d.name ++ '[' :: inside, ']', by simp [body, cut], .inr rfl⟩

end IsPlain
end Declarator

/-! ## 2. Leading types -/

/-- What stands in front of a declarator: words in single spaces whose brackets are closed, without
a brace and, outside brackets, without `=` and without a lone colon. -/
structure IsLeading (t : Text) : Prop where
  filled : t ≠ []
  spaced : IsSpaced t
  closed : Depth.read {} t = {}
  no_brace : '\x7b' ∉ t
  no_sign : Clear (· == '=') {} t
  no_colon : Text.cutAtColon? t = none

namespace IsLeading

variable {s t : Text}

/-- A piece behind it without any of that makes it longer. -/
theorem append (h : IsLeading s) (spaced : IsSpaced (s ++ t)) (no_brace : '\x7b' ∉ t)
    (no_sign : Whole (· == '=') t) (no_colon : Clear (· == ':') {} t) : IsLeading (s ++ t) where
  filled := by simp [h.filled]
  spaced := spaced
  closed := by rw [Depth.read_append, h.closed, no_sign.closed]
  no_brace := by simp [h.no_brace, no_brace]
  no_sign := Text.clear_append.mpr ⟨h.no_sign, by rw [h.closed]; exact no_sign.clear⟩
  no_colon := cutAtColonFrom_append h.no_colon (by
    rw [h.closed]
    exact cutAtColonFrom_of_clear no_colon)

theorem append_stars {stars : Text} (h : IsLeading s) (plain : ∀ c ∈ stars, c = '*' ∨ c = '&') :
    IsLeading (s ++ stars) := by
  have whole (sep : Char) (other : sep ∉ ['*', '&']) : Whole (· == sep) stars := by
    refine Text.whole_of_plain fun c mem => ?_
    rcases plain c mem with rfl | rfl
    · exact ⟨by decide, by simpa using fun same => other (by simp [← same])⟩
    · exact ⟨by decide, by simpa using fun same => other (by simp [← same])⟩
  refine h.append (h.spaced.append (.of_solid fun c mem => ?_)) ?_ (whole '=' (by decide))
    (whole ':' (by decide)).clear
  · rcases plain c mem with rfl | rfl <;> decide
  · intro mem
    rcases plain _ mem with same | same <;> cases same

theorem append_body {d : Declarator} (h : IsLeading s) (plain : d.IsPlain) :
    IsLeading (s ++ ' ' :: d.body) := by
  have space {p : Char → Bool} (no_space : p ' ' = false) : Whole p [' '] :=
    Text.whole_of_plain (List.forall_mem_singleton.mpr ⟨by decide, no_space⟩)
  refine h.append (h.spaced.append_space plain.isSpaced_body h.filled plain.body_ne_nil) ?_
    ((space (by decide)).append (plain.whole_body_sign (by decide) (by decide)))
    ((space (by decide)).append (plain.whole_body_sign (by decide) (by decide))).clear
  simp [plain.no_brace_body]

/-- Without a word in front of it, it is one still. -/
theorem of_append (h : IsLeading (s ++ ' ' :: t)) (closed : Depth.read {} s = {}) :
    IsLeading t := by
  have space : Depth.feed {} ' ' = {} := rfl
  obtain ⟨-, filled, spaced⟩ := h.spaced.of_append
  refine ⟨filled, spaced, ?_, fun mem => h.no_brace (by simp [mem]), ?_, ?_⟩
  · have whole := h.closed
    rwa [Depth.read_append, closed, Depth.read_cons, space] at whole
  · have behind := (Text.clear_append.mp h.no_sign).2
    rw [closed, Text.clear_cons, space] at behind
    exact behind.2
  · have behind := cutAtColonFrom_behind h.no_colon
    rw [Depth.read_append, closed] at behind
    exact cutAtColonFrom_congr (by simp) behind

theorem tighten (h : IsLeading t) : IsLeading (tighten none t) where
  filled empty := by
    have first := head_tighten h.spaced.first none
    rw [empty] at first
    exact h.filled (List.head?_eq_none_iff.mp first.symm)
  spaced := isSpaced_tighten h.spaced
  closed := by rw [read_tighten, h.closed]
  no_brace mem := h.no_brace ((tighten_sublist none t).subset mem)
  no_sign := clear_tighten h.no_sign none
  no_colon := cutAtColonFrom_tighten h.spaced.single (.inl rfl) h.no_colon

/-! ## 3. Without initialiser -/

theorem dropEnd_append_cons {p : Char → Bool} {c : Char} (stop : p c = false) (s t : Text) :
    Text.dropEnd p (s ++ c :: t) = s ++ c :: Text.dropEnd p t := by
  rw [Text.dropEnd, List.reverse_append, List.reverse_cons, List.append_assoc,
    List.singleton_append, Source.dropWhile_append_stop stop]
  simp [Text.dropEnd]

/-- With a space behind it or not, it holds nothing that a declarator is cut at. -/
theorem append_gap (h : IsLeading s) {gap : Text} (gap_form : gap ∈ [[], [' ']]) :
    Whole (· == '=') (s ++ gap) ∧ '\x7b' ∉ s ++ gap ∧ Text.cutAtColon? (s ++ gap) = none := by
  have blank : ∀ c ∈ gap, c = ' ' := by
    simp only [List.mem_cons, List.not_mem_nil, or_false] at gap_form
    rcases gap_form with rfl | rfl <;> simp
  have whole (sep : Char) (other : sep ≠ ' ') : Whole (· == sep) gap :=
    Text.whole_of_plain fun c mem => by
      rw [blank c mem]
      exact ⟨by decide, by simpa using other.symm⟩
  refine ⟨Whole.append ⟨h.closed, h.no_sign⟩ (whole '=' (by decide)), fun mem => ?_,
    cutAtColonFrom_append h.no_colon ?_⟩
  · rcases List.mem_append.mp mem with mem | mem
    · exact h.no_brace mem
    · cases blank _ mem
  · rw [h.closed]
    exact cutAtColonFrom_of_clear (whole ':' (by decide)).clear

/-- It is cut off in front of either sign of an initialiser. -/
theorem cut_initialiser {sign : Char} (sign_form : sign = '=' ∨ sign = '\x7b')
    (whole : Whole (· == '=') s) (no_brace : '\x7b' ∉ s) (value : Text) :
    Text.beforeChar '\x7b' (Text.beforeTop '=' (s ++ sign :: value)) = s := by
  rcases sign_form with rfl | rfl
  · rw [Text.beforeTop_append (by decide) whole, Text.beforeChar_of_not_mem no_brace]
  · obtain ⟨piece, pieces, split⟩ :=
      List.exists_cons_of_ne_nil (Text.splitTopFrom_ne_nil (· == '=') {} value)
    have goes_on :
        Text.splitTopFrom (· == '=') {} ('\x7b' :: value) = ('\x7b' :: piece) :: pieces := by
      rw [Text.splitTopFrom, if_neg (by decide), show Depth.feed {} '\x7b' = {} from rfl, split,
        Text.consFirst]
    rw [Text.beforeTop, Text.splitTop, Text.splitTopWhere,
      Text.splitTopFrom_clear_append whole.clear, whole.closed, goes_on, List.modifyHead_cons,
      List.headD_cons, Text.beforeChar, Source.takeWhile_append_stop (by decide)]
    exact Text.beforeChar_of_not_mem no_brace

/-- Without an initialiser, everything stays. -/
theorem plainDeclarator_eq_self (h : IsLeading s) (last : ∀ c ∈ s.getLast?, c ≠ ';') :
    plainDeclarator s = s := by
  obtain ⟨front, c, cut⟩ := List.eq_nil_or_concat s |>.resolve_left h.filled
  rw [List.concat_eq_append] at cut
  have whole : Text.dropEnd (· == ';') s = s := by
    have stop : (c == ';') = false := by simpa using last c (by simp [cut])
    rw [cut]
    exact dropEnd_append_cons (p := (· == ';')) stop front []
  have single : singleBlanks s = s := h.spaced.replaceMatches_blankRun none
  have colon : Text.cutAtColon? s = none := h.no_colon
  unfold plainDeclarator
  dsimp only
  rw [h.spaced.trim, whole, single, Text.beforeTop_of_clear h.no_sign,
    Text.beforeChar_of_not_mem h.no_brace, colon]

/-- Of the blanks in front of a solid character one stays, if there are any. -/
theorem exists_singleBlanks (h : IsLeading s) {gap : Text} (blank : ∀ b ∈ gap, isBlank b = true)
    {c : Char} (solid : isBlank c = false) (t : Text) :
    ∃ gap' ∈ [[], [' ']], ∃ v, singleBlanks (s ++ (gap ++ c :: t)) = s ++ gap' ++ c :: v := by
  unfold singleBlanks Text.replaceMatches
  rw [h.spaced.replaceMatches_blankRun_append]
  by_cases filled : gap = []
  · rw [filled, List.nil_append, Text.replaceMatches_blankRun_solid solid]
    exact ⟨[], by simp, _, by rw [List.append_nil]⟩
  · rw [Text.replaceMatches_blankRun_gap blank filled solid,
      Text.replaceMatches_blankRun_solid solid]
    exact ⟨[' '], by simp, _, by rw [List.append_assoc]; rfl⟩

/-- An initialiser goes, with the blanks in front of it but for one. -/
theorem plainDeclarator_append (h : IsLeading s) (last : ∀ c ∈ s.getLast?, c ≠ ';') {i : Text}
    (init : Declarator.IsInitialiser i) :
    ∃ gap ∈ [[], [' ']], plainDeclarator (s ++ i) = s ++ gap := by
  rcases init with rfl | ⟨gap, sign, value, rfl, blank, sign_form, -⟩
  · exact ⟨[], by simp, by rw [List.append_nil, h.plainDeclarator_eq_self last]⟩
  · have solid : isBlank sign = false := by rcases sign_form with rfl | rfl <;> decide
    have stop : (sign == ';') = false := by rcases sign_form with rfl | rfl <;> decide
    have start : Text.trimStart (s ++ (gap ++ sign :: value)) = s ++ (gap ++ sign :: value) := by
      obtain ⟨b, rest, cut⟩ := List.exists_cons_of_ne_nil h.filled
      have first := h.spaced.first b (by rw [cut]; rfl)
      rw [cut, Text.trimStart, Text.dropStart, List.cons_append,
        List.dropWhile_cons_of_neg (by simp [first])]
    have ends {p : Char → Bool} (keeps : p sign = false) (v : Text) :
        Text.dropEnd p (s ++ (gap ++ sign :: v)) = s ++ (gap ++ sign :: Text.dropEnd p v) := by
      rw [← List.append_assoc, dropEnd_append_cons keeps, List.append_assoc]
    obtain ⟨gap', gap_form, v, single⟩ :=
      h.exists_singleBlanks blank solid (Text.dropEnd (· == ';') (Text.dropEnd isBlank value))
    obtain ⟨whole, no_brace, colon⟩ := h.append_gap gap_form
    unfold plainDeclarator
    dsimp only
    rw [Text.trim, start, Text.trimEnd, ends solid, ends stop, single,
      cut_initialiser sign_form whole no_brace, colon]
    exact ⟨gap', gap_form, rfl⟩

end IsLeading

/-! ## 4. Specifiers in front -/

variable {s t : Text} {d : Declarator} {specs : List Text}

/-- A specifier is the first word of a text. -/
def StartsWithSpecifier (t : Text) : Prop :=
  ∃ v ∈ memberSpecifiers, ∃ rest, t = v ++ rest ∧ ∀ c ∈ rest.head?, isBlank c = true

/-- Specifiers, each with a space behind it. -/
def front (specs : List Text) : Text :=
  specs.flatMap (· ++ [' '])

/-- A specifier is a word of letters. -/
theorem specifier_letters : ∀ v ∈ memberSpecifiers, v ≠ [] ∧ ∀ c ∈ v, isWord c = true := by
  decide +kernel

theorem topWords_specifier {v : Text} (specifier : v ∈ memberSpecifiers) : Text.topWords v = [v] :=
  Text.topWords_of_clear (specifier_letters v specifier).1
    (Text.whole_of_word (specifier_letters v specifier).2 fun _ => Text.isBlank_of_isWord).clear

/-- The specifiers in front are the first words. -/
theorem topWords_front (specifiers : ∀ v ∈ specs, v ∈ memberSpecifiers) (t : Text) :
    Text.topWords (front specs ++ t) = specs ++ Text.topWords t := by
  induction specs with
  | nil => rfl
  | cons v specs ih =>
    have letters := (specifier_letters v (specifiers v List.mem_cons_self)).2
    have closed :=
      (Text.whole_of_word (p := isBlank) letters fun _ => Text.isBlank_of_isWord).closed
    have first := Text.topWords_append (b := ' ') (by decide) closed (front specs ++ t)
    rw [topWords_specifier (specifiers v List.mem_cons_self),
      ih fun w mem => specifiers w (List.mem_cons_of_mem v mem)] at first
    simpa [front] using first

/-- A text without a specifier in front has another first word. -/
theorem exists_topWords (h : IsLeading t) (plain : ¬ StartsWithSpecifier t) :
    ∃ w ws, Text.topWords t = w :: ws ∧ memberSpecifiers.contains w = false := by
  have joined := h.spaced.join_topWords
  cases words : Text.topWords t with
  | nil =>
    rw [words] at joined
    exact absurd joined.symm h.filled
  | cons w ws =>
    refine ⟨w, ws, rfl, Bool.eq_false_iff.mpr fun listed => plain ?_⟩
    rw [words] at joined
    refine ⟨w, by simpa using listed, ?_⟩
    cases ws with
    | nil => exact ⟨[], by simpa [Text.join] using joined.symm, by simp⟩
    | cons next ws =>
      rw [Source.join_cons_cons, List.append_assoc] at joined
      exact ⟨_, joined.symm, by rintro _ ⟨⟩; decide⟩

/-- **What stands in front of a declarator is specifiers and a type.** -/
theorem exists_specifiers (h : IsLeading t) (typed : ∃ w ∈ Text.topWords t, w ∉ memberSpecifiers) :
    ∃ specs type, (∀ v ∈ specs, v ∈ memberSpecifiers) ∧ t = front specs ++ type ∧ IsLeading type ∧
      ¬ StartsWithSpecifier type := by
  induction hn : t.length using Nat.strongRecOn generalizing t with
  | ind n ih =>
    subst hn
    by_cases starts : StartsWithSpecifier t
    · obtain ⟨v, specifier, rest, rfl, blank⟩ := starts
      have letters := (specifier_letters v specifier).2
      have closed :=
        (Text.whole_of_word (p := isBlank) letters fun _ => Text.isBlank_of_isWord).closed
      obtain ⟨w, mem, other⟩ := typed
      cases rest with
      | nil =>
        rw [List.append_nil, topWords_specifier specifier, List.mem_singleton] at mem
        exact absurd (mem ▸ specifier) other
      | cons b rest =>
        obtain rfl : b = ' ' := h.spaced.space b (by simp) (blank b rfl)
        rw [Text.topWords_append (by decide) closed, topWords_specifier specifier] at mem
        have typed : ∃ w ∈ Text.topWords rest, w ∉ memberSpecifiers := by
          rcases List.mem_cons.mp mem with rfl | mem
          · exact absurd specifier other
          · exact ⟨w, mem, other⟩
        obtain ⟨specs, type, specifiers, cut, leading, plain⟩ :=
          ih rest.length (by simp; omega) (h.of_append closed) typed rfl
        refine ⟨v :: specs, type, by simpa [specifier] using specifiers, ?_, leading, plain⟩
        simp [front, cut]
    · exact ⟨[], t, by simp, rfl, h, starts⟩

/-! ## 5. One declarator behind a type -/

theorem splitDecorations_body (h : d.IsPlain) :
    splitDecorations d.body = (d.stars, d.name ++ d.suffix) := by
  obtain ⟨c, rest, name, word, -⟩ := h.name.exists_cons
  have stars : ∀ e ∈ d.stars, (e == '*' || e == '&') = true := by
    intro e mem
    rcases h.stars e mem with rfl | rfl <;> decide
  have stop : (c == '*' || c == '&') = false := by
    have star : c ≠ '*' := Text.ne_of_isWord word (by decide)
    have reference : c ≠ '&' := Text.ne_of_isWord word (by decide)
    simp [star, reference]
  rw [splitDecorations, List.span_eq_takeWhile_dropWhile, Declarator.body, name, List.append_assoc,
    List.cons_append, Source.takeWhile_append_stop stop, Source.dropWhile_append_stop stop,
    List.takeWhile_eq_self_iff.mpr stars, List.dropWhile_eq_nil_iff.mpr stars]
  rfl

theorem splitArraySuffix_of_plain (h : '[' ∉ t) : splitArraySuffix t = (t, []) := by
  rw [splitArraySuffix, Text.cutFirst?_of_not_mem h]

theorem splitArraySuffix_append (h : '[' ∉ s) (inside : Text) :
    splitArraySuffix (s ++ '[' :: (inside ++ [']'])) = (s, '[' :: (inside ++ [']'])) := by
  have first :
      Text.cutFirst? ['['] (s ++ '[' :: (inside ++ [']'])) = some (s, inside ++ [']']) := by
    have absent : ¬ ['['] <:+: s ++ ['['].dropLast := fun found =>
      h (by simpa using found.subset List.mem_cons_self)
    have cut := Text.cutFirst?_append absent (inside ++ [']'])
    rwa [List.append_assoc] at cut
  have last :
      Text.cutLast? [']'] (s ++ '[' :: (inside ++ [']'])) = some (s ++ '[' :: inside, []) := by
    simp [Text.cutLast?, Text.cutFirst?, Text.afterPrefix?]
  rw [splitArraySuffix, first, last]
  dsimp only
  rw [if_pos (by simp), List.drop_left]
  simp

theorem splitArraySuffix_body (h : d.IsPlain) :
    splitArraySuffix (d.name ++ d.suffix) = (d.name, d.suffix) := by
  have no_square : '[' ∉ d.name := fun mem => Text.ne_of_isWord (h.name.word _ mem) (by decide) rfl
  by_cases scalar : d.sizes = []
  · rw [Declarator.suffix, scalar, List.flatMap_nil, List.append_nil]
    exact splitArraySuffix_of_plain no_square
  · obtain ⟨inside, suffix⟩ := Declarator.IsPlain.suffix_eq scalar
    rw [suffix]
    exact splitArraySuffix_append no_square inside

/-- The words of a declaration outside brackets: the specifiers, those of the type, and the
declarator. -/
theorem topWords_member (specifiers : ∀ v ∈ specs, v ∈ memberSpecifiers) (h : IsLeading t)
    (hd : d.IsPlain) {gap : Text} (gap_form : gap ∈ [[], [' ']]) :
    Text.topWords (front specs ++ t ++ ' ' :: d.body ++ gap) =
      specs ++ (Text.topWords t ++ [d.body]) := by
  have whole : Whole isBlank d.body :=
    hd.whole_body (by decide) (fun _ => Text.isBlank_of_isWord) (by decide)
  have one : Text.topWords (d.body ++ gap) = [d.body] := by
    have by_itself := Text.topWords_of_clear hd.body_ne_nil whole.clear
    simp only [List.mem_cons, List.not_mem_nil, or_false] at gap_form
    rcases gap_form with rfl | rfl
    · rwa [List.append_nil]
    · rw [Text.topWords_append (by decide) whole.closed, by_itself]
      rfl
  rw [List.append_assoc, List.append_assoc, topWords_front specifiers, List.cons_append,
    Text.topWords_append (by decide) h.closed, one]

/-- **A declarator behind specifiers and a type** is a member of the type with its decorations and
its array suffix. -/
theorem decodeMember_front (specifiers : ∀ v ∈ specs, v ∈ memberSpecifiers)
    (whole : IsLeading (front specs ++ t)) (h : IsLeading t) (plain : ¬ StartsWithSpecifier t)
    (hd : d.IsPlain) : decodeMember (front specs ++ t ++ ' ' :: d.text) =
      .ok ⟨tighten none (t ++ (d.stars ++ d.suffix)), d.name⟩ := by
  have no_semicolon : ∀ c ∈ (front specs ++ t ++ ' ' :: d.body).getLast?, c ≠ ';' := by
    obtain ⟨start, c, cut, ends⟩ := hd.getLast_body
    intro e last
    obtain rfl : c = e := by simpa [cut, List.getLast?_cons] using last
    rintro rfl
    rcases ends with word | same
    · exact absurd word (by decide)
    · cases same
  obtain ⟨gap, gap_form, declarator⟩ :=
    (whole.append_body hd).plainDeclarator_append no_semicolon hd.initialiser
  obtain ⟨w, ws, first, other⟩ := exists_topWords h plain
  have behind : (Text.topWords (front specs ++ t ++ ' ' :: d.body ++ gap)).dropWhile
      memberSpecifiers.contains = Text.topWords t ++ [d.body] := by
    rw [topWords_member specifiers h hd gap_form,
      List.dropWhile_append_of_pos fun v mem => by simpa using specifiers v mem, first,
      List.cons_append, List.dropWhile_cons_of_neg (by rw [other]; decide)]
  have text :
      front specs ++ t ++ ' ' :: d.text = front specs ++ t ++ ' ' :: d.body ++ d.initialiser := by
    simp [Declarator.text]
  have typed : IsSpaced (t ++ (d.stars ++ d.suffix)) :=
    h.spaced.append ((IsSpaced.of_solid hd.isBlank_stars).append hd.isSpaced_suffix)
  unfold decodeMember
  rw [text, declarator]
  dsimp only
  rw [behind, if_neg (by simp [first]), List.getLastD_concat, List.dropLast_concat,
    h.spaced.join_topWords, splitDecorations_body hd]
  dsimp only
  rw [splitArraySuffix_body hd]
  dsimp only
  rw [if_neg (by simpa using hd.name.filled), List.append_assoc, tidyType_eq typed]

/-! ## 6. The type that is shared -/

theorem dropEnd_of_forall {p : Char → Bool} (drops : ∀ c ∈ t, p c = true) :
    Text.dropEnd p t = [] := by
  rw [Text.dropEnd, List.dropWhile_eq_nil_iff.mpr fun c mem => drops c (List.mem_reverse.mp mem)]
  rfl

theorem tighten_solid_append (solid : ∀ c ∈ s, isBlank c = false) (before : Option Char)
    (t : Text) :
    ∃ last, tighten before (s ++ t) = s ++ tighten last t := by
  by_cases filled : s = []
  · exact ⟨before, by rw [filled]; rfl⟩
  · refine ⟨s.getLast?, ?_⟩
    rw [tighten_append filled fun c last => solid c (List.mem_of_getLast? last),
      tighten_of_solid solid]

/-- Of a declarator without an array suffix its stars are left out. -/
theorem sharedType_scalar (h : IsLeading t) (undecorated : ∀ c ∈ t.getLast?, c ≠ '*' ∧ c ≠ '&')
    (no_square : '[' ∉ tighten none t) (hd : d.IsPlain) (scalar : d.sizes = []) (name : Text) :
    sharedType ⟨tighten none (t ++ (d.stars ++ d.suffix)), name⟩ = tighten none t := by
  have parts := tighten_append h.filled h.spaced.last none (d.stars ++ d.suffix)
  have no_suffix : d.suffix = [] := by rw [Declarator.suffix, scalar, List.flatMap_nil]
  obtain ⟨start, c, cut⟩ := List.eq_nil_or_concat (tighten none t) |>.resolve_left h.tighten.filled
  rw [List.concat_eq_append] at cut
  have stop : (c == '*' || c == '&') = false := by
    have at_end : c ∈ t.getLast? := by
      rw [← getLast_tighten h.spaced.last none, cut]
      simp
    simpa using undecorated c at_end
  have stars : ∀ e ∈ d.stars, (e == '*' || e == '&') = true := by
    intro e mem
    rcases hd.stars e mem with rfl | rfl <;> decide
  have dropped : Text.dropEnd (fun c => c == '*' || c == '&') (tighten none t ++ d.stars) =
      tighten none t := by
    rw [cut, List.append_assoc, List.singleton_append,
      IsLeading.dropEnd_append_cons (p := fun c => c == '*' || c == '&') stop,
      dropEnd_of_forall stars]
  unfold sharedType
  dsimp only
  rw [parts, no_suffix, List.append_nil, tighten_of_solid hd.isBlank_stars, dropped,
    Text.beforeChar_of_not_mem no_square]

/-- Of a declarator with an array suffix the stars in front of it stay: the type ends with a
bracket. -/
theorem sharedType_array (h : IsLeading t) (no_square : '[' ∉ tighten none t) (hd : d.IsPlain)
    (array : d.sizes ≠ []) (name : Text) :
    sharedType ⟨tighten none (t ++ (d.stars ++ d.suffix)), name⟩ = tighten none t ++ d.stars := by
  have parts := tighten_append h.filled h.spaced.last none (d.stars ++ d.suffix)
  obtain ⟨inside, suffix⟩ := Declarator.IsPlain.suffix_eq array
  have ends : (tighten none (t ++ (d.stars ++ d.suffix))).getLast? = some ']' := by
    have last : (t ++ (d.stars ++ d.suffix)).getLast? = some ']' := by
      simp [suffix, List.getLast?_cons]
    rw [getLast_tighten _ none, last]
    rw [last]
    rintro _ ⟨⟩
    decide
  obtain ⟨start, cut⟩ := List.getLast?_eq_some_iff.mp ends
  have kept :
      Text.dropEnd (fun c => c == '*' || c == '&') (tighten none (t ++ (d.stars ++ d.suffix))) =
      tighten none (t ++ (d.stars ++ d.suffix)) := by
    rw [cut]
    exact IsLeading.dropEnd_append_cons (p := fun c => c == '*' || c == '&') (by decide) start []
  have solid : ∀ c ∈ d.stars ++ ['['], isBlank c = false := by
    intro c mem
    rcases List.mem_append.mp mem with mem | mem
    · exact hd.isBlank_stars c mem
    · rw [List.mem_singleton.mp mem]
      decide
  obtain ⟨last, behind⟩ := tighten_solid_append solid t.getLast? (inside ++ [']'])
  have written : d.stars ++ d.suffix = d.stars ++ ['['] ++ (inside ++ [']']) := by simp [suffix]
  have no_square_front : '[' ∉ tighten none t ++ d.stars := by
    intro mem
    rcases List.mem_append.mp mem with mem | mem
    · exact no_square mem
    · rcases hd.stars _ mem with same | same <;> cases same
  unfold sharedType
  dsimp only
  rw [kept, parts, written, behind, List.append_assoc d.stars, List.singleton_append,
    ← List.append_assoc, Text.beforeChar, Source.takeWhile_append_stop (by decide)]
  exact Text.beforeChar_of_not_mem no_square_front

/-- **What the others share** is the type in front of the first declarator, tidied, with what that
declarator leaves on it. -/
theorem sharedType_eq (h : IsLeading t) (undecorated : ∀ c ∈ t.getLast?, c ≠ '*' ∧ c ≠ '&')
    (no_square : '[' ∉ t) (hd : d.IsPlain) (name : Text) :
    sharedType ⟨tighten none (t ++ (d.stars ++ d.suffix)), name⟩ = tighten none t ++ d.carried := by
  have tight : '[' ∉ tighten none t := fun mem => no_square ((tighten_sublist none t).subset mem)
  unfold Declarator.carried
  split
  · next scalar => rw [sharedType_scalar h undecorated tight hd scalar, List.append_nil]
  · next array => exact sharedType_array h tight hd array name

/-! ## 7. No specifier comes to the front -/

theorem StartsWithSpecifier.of_append_stars {stars : Text} (plain : ∀ c ∈ stars, c = '*' ∨ c = '&')
    (starts : StartsWithSpecifier (t ++ stars)) : StartsWithSpecifier t := by
  obtain ⟨v, specifier, rest, cut, blank⟩ := starts
  rcases List.append_eq_append_iff.mp cut with ⟨x, rfl, split⟩ | ⟨x, rfl, rfl⟩
  · cases x with
    | nil => exact ⟨_, specifier, [], by simp, by simp⟩
    | cons c x =>
      have word := (specifier_letters _ specifier).2 c (by simp)
      rcases plain c (by simp [split]) with rfl | rfl <;> exact absurd word (by decide)
  · refine ⟨v, specifier, x, rfl, fun c first => blank c ?_⟩
    rw [List.head?_append, Option.mem_def.mp first]
    rfl

/-- A word character in front of a tidied text stood in front of it before. -/
theorem cons_of_tighten {a : Char} {u : Text} {last : Option Char} (word : isWord a = true)
    (start : last ≠ some '<') (cut : tighten last t = a :: u) :
      ∃ t', t = a :: t' ∧ tighten (some a) t' = u := by
  obtain _ | ⟨c, t⟩ := t
  · cases cut
  rw [tighten] at cut
  split at cut
  · next goes =>
    -- the next character is a decoration or a bracket, and it is written
    have angle : (last == some '<') = false := beq_eq_false_iff_ne.mpr start
    rw [angle, Bool.false_or] at goes
    have loose := (Bool.and_eq_true_iff.mp goes).2
    obtain _ | ⟨e, t⟩ := t
    · cases loose
    have form : e = '*' ∨ e = '&' ∨ e = '[' := by
      simpa [startsLoose, or_assoc] using loose
    have solid : isBlank e = false := by rcases form with rfl | rfl | rfl <;> decide
    rw [tighten_cons_solid solid] at cut
    obtain rfl := (List.cons.inj cut).1
    rcases form with rfl | rfl | rfl <;> exact absurd word (by decide)
  · obtain ⟨rfl, behind⟩ := List.cons.inj cut
    exact ⟨t, rfl, behind⟩

/-- A word in front of a tidied text stood in front of it before. -/
theorem exists_of_tighten {v rest : Text} {last : Option Char} (letters : ∀ c ∈ v, isWord c = true)
    (start : last ≠ some '<') (cut : tighten last t = v ++ rest)
    (blank : ∀ c ∈ rest.head?, isBlank c = true) :
    ∃ rest', t = v ++ rest' ∧ ∀ c ∈ rest'.head?, isBlank c = true := by
  induction v generalizing t last with
  | nil =>
    refine ⟨t, rfl, fun c first => ?_⟩
    cases solid : isBlank c with
    | true => rfl
    | false =>
      have kept := head_tighten (t := t) (by
        intro e same
        rw [Option.mem_def.mp first] at same
        cases same
        exact solid) last
      rw [cut, List.nil_append, Option.mem_def.mp first] at kept
      rw [blank c kept] at solid
      cases solid
  | cons a v ih =>
    have word := letters a List.mem_cons_self
    obtain ⟨t, rfl, behind⟩ := cons_of_tighten word start cut
    have no_angle : some a ≠ some '<' := by
      rintro ⟨⟩
      exact absurd word (by decide)
    obtain ⟨rest', rfl, first⟩ :=
      ih (fun e mem => letters e (List.mem_cons_of_mem a mem)) no_angle behind
    exact ⟨rest', rfl, first⟩

theorem StartsWithSpecifier.of_tighten (starts : StartsWithSpecifier (tighten none t)) :
    StartsWithSpecifier t := by
  obtain ⟨v, specifier, rest, cut, blank⟩ := starts
  obtain ⟨rest', cut', blank'⟩ :=
    exists_of_tighten (specifier_letters v specifier).2 (by decide) cut blank
  exact ⟨v, specifier, rest', cut', blank'⟩

/-! ## 8. Declarations -/

/-- The leading type of a declaration: a type word among its words, no decoration at its end, no
array suffix, and commas inside brackets only. -/
structure LeadingType (t : Text) : Prop extends IsLeading t where
  typed : ∃ w ∈ Text.topWords t, w ∉ memberSpecifiers
  undecorated : ∀ c ∈ t.getLast?, c ≠ '*' ∧ c ≠ '&'
  no_square : '[' ∉ t
  no_comma : Clear (· == ',') {} t

/-- A declaration is decoded without the blanks at its ends. -/
theorem decodeMember_congr (same : Text.trim s = Text.trim t) :
    decodeMember s = decodeMember t := by
  rw [decodeMember, decodeMember, plainDeclarator, plainDeclarator, same]

theorem whole_text (h : d.IsPlain) : Whole (· == ',') d.text := by
  refine (h.whole_body_sign (by decide) (by decide)).append ?_
  rcases h.initialiser with none_there | ⟨gap, sign, value, cut, blank, sign_form, whole⟩
  · rw [none_there]
    exact Text.whole_of_plain (by simp)
  · rw [cut, ← List.singleton_append, ← List.append_assoc]
    refine Whole.append (Text.whole_of_plain fun c mem => ?_) whole
    rcases List.mem_append.mp mem with mem | mem
    · refine ⟨Depth.not_mem_of_isBlank (blank c mem), beq_eq_false_iff_ne.mpr ?_⟩
      rintro rfl
      exact absurd (blank ',' mem) (by decide)
    · rw [List.mem_singleton.mp mem]
      rcases sign_form with rfl | rfl <;> decide

theorem carried_plain (h : d.IsPlain) : ∀ c ∈ d.carried, c = '*' ∨ c = '&' := by
  unfold Declarator.carried
  split
  · simp
  · exact h.stars

/-- A declaration is cut at the commas between its declarators. -/
theorem splitTop_declaration {ds : List Declarator} (leading : LeadingType t)
    (plain : ∀ e ∈ d :: ds, e.IsPlain) :
    Text.splitTop ',' (t ++ ' ' :: Text.join ", ".toList ((d :: ds).map Declarator.text)) =
      (t ++ ' ' :: d.text) :: ds.map fun e => ' ' :: e.text := by
  have joined : t ++ ' ' :: Text.join ", ".toList ((d :: ds).map Declarator.text) =
      Text.join [',', ' '] ((t ++ ' ' :: d.text) :: ds.map Declarator.text) := by
    cases ds with
    | nil => simp [Text.join]
    | cons next ds =>
      rw [List.map_cons, List.map_cons, Source.join_cons_cons, Source.join_cons_cons]
      simp
  have first : Whole (· == ',') (t ++ ' ' :: d.text) := by
    have space : Whole (· == ',') [' '] := Text.whole_of_plain (by decide)
    have whole := space.append (whole_text (plain d List.mem_cons_self))
    exact Whole.append ⟨leading.closed, leading.no_comma⟩ whole
  have whole :
      ∀ piece ∈ (t ++ ' ' :: d.text) :: ds.map Declarator.text, Whole (· == ',') piece := by
    intro piece mem
    rcases List.mem_cons.mp mem with rfl | mem
    · exact first
    · obtain ⟨e, listed, rfl⟩ := List.mem_map.mp mem
      exact whole_text (plain e (List.mem_cons_of_mem d listed))
  rw [joined, Text.splitTop_join (by decide) (by decide) whole, List.map_map]
  rfl

/-- The blanks around a declarator do not matter. -/
theorem decodeMember_trim (h : d.IsPlain) (t : Text) :
    decodeMember (t ++ ' ' :: Text.trim (' ' :: d.text)) = decodeMember (t ++ ' ' :: d.text) := by
  have start : Text.trim (' ' :: d.text) = Text.trimEnd d.text := by
    obtain ⟨c, rest, cut⟩ := List.exists_cons_of_ne_nil h.body_ne_nil
    have first := h.isSpaced_body.first c (by rw [cut]; rfl)
    rw [Declarator.text, cut, Text.trim, Text.trimStart, Text.dropStart,
      List.dropWhile_cons_of_pos (by decide), List.cons_append,
      List.dropWhile_cons_of_neg (by simp [first])]
  have blank : ∀ b ∈ (d.text.reverse.takeWhile isBlank).reverse, isBlank b = true := fun b mem =>
    List.mem_takeWhile_imp (List.mem_reverse.mp mem)
  refine decodeMember_congr ?_
  calc
    _ = Text.trim (t ++ ' ' :: Text.trimEnd d.text) := by rw [start]
    _ = Text.trim (t ++ ' ' :: Text.trimEnd d.text ++ (d.text.reverse.takeWhile isBlank).reverse) :=
      (Text.trim_append_blanks blank).symm
    _ = _ := by rw [List.append_assoc, List.cons_append, Text.trimEnd, Source.dropEnd_append]

/-- **The declarators of a declaration share its leading type.**  The first one is decoded as it
stands, and each of the others as if it stood alone behind the leading type and what the first one
leaves on it. That is nothing, unless the first declarator has both decorations and an array
suffix. -/
theorem decodeMembers_declarators {ds : List Declarator} (leading : LeadingType t)
    (plain : ∀ e ∈ d :: ds, e.IsPlain) :
    ∃ m ms, decodeMembers (t ++ ' ' :: Text.join ", ".toList ((d :: ds).map Declarator.text)) =
        .ok (m :: ms) ∧ decodeMember (t ++ ' ' :: d.text) = .ok m ∧
      List.Forall₂ (fun e m => decodeMember (t ++ d.carried ++ ' ' :: e.text) = .ok m) ds ms := by
  have hd := plain d List.mem_cons_self
  obtain ⟨specs, type, specifiers, rfl, bare, no_specifier⟩ :=
    exists_specifiers leading.toIsLeading leading.typed
  have undecorated : ∀ c ∈ type.getLast?, c ≠ '*' ∧ c ≠ '&' := fun c last =>
    leading.undecorated c (by rw [List.getLast?_append, Option.mem_def.mp last]; rfl)
  have no_square : '[' ∉ type := fun mem => leading.no_square (List.mem_append_right _ mem)
  have stars := carried_plain hd
  let member (e : Declarator) : Member :=
    ⟨tighten none (type ++ d.carried ++ (e.stars ++ e.suffix)), e.name⟩
  have first := decodeMember_front specifiers leading.toIsLeading bare no_specifier hd
  have alone : ∀ e ∈ ds, decodeMember (front specs ++ type ++ d.carried ++ ' ' :: e.text) =
      .ok (member e) := by
    intro e mem
    rw [List.append_assoc (front specs)]
    refine decodeMember_front specifiers ?_ (bare.append_stars stars)
      (fun starts => no_specifier (starts.of_append_stars stars))
      (plain e (List.mem_cons_of_mem d mem))
    rw [← List.append_assoc]
    exact leading.toIsLeading.append_stars stars
  have shared : ∀ e ∈ ds, decodeMember (tighten none type ++ d.carried ++ ' ' :: e.text) =
      .ok (member e) := by
    intro e mem
    have tight := bare.tighten.append_stars stars
    have decoded : decodeMember (front [] ++ (tighten none type ++ d.carried) ++ ' ' :: e.text) =
        .ok ⟨tighten none (tighten none type ++ d.carried ++ (e.stars ++ e.suffix)), e.name⟩ :=
      decodeMember_front (by simp) tight tight
        (fun starts => no_specifier (starts.of_append_stars stars).of_tighten)
        (plain e (List.mem_cons_of_mem d mem))
    have same : tighten none (tighten none type ++ d.carried ++ (e.stars ++ e.suffix)) =
        tighten none (type ++ d.carried ++ (e.stars ++ e.suffix)) := by
      rw [List.append_assoc, tighten_tighten_append bare.spaced bare.filled, ← List.append_assoc]
    rw [same] at decoded
    exact decoded
  refine ⟨_, ds.map member, ?_, first, ?_⟩
  · rw [decodeMembers, splitTop_declaration leading plain]
    dsimp only
    refine bind_eq_ok_iff.mpr ⟨_, first,
      bind_eq_ok_iff.mpr ⟨ds.map member, mapM_eq_ok_iff.mpr ?_, rfl⟩⟩
    rw [List.forall₂_map_left_iff, List.forall₂_map_right_iff, List.forall₂_same]
    intro e mem
    rw [sharedType_eq bare undecorated no_square hd, decodeMember_trim (plain e (by simp [mem]))]
    exact shared e mem
  · rw [List.forall₂_map_right_iff, List.forall₂_same]
    exact alone

/-- `*a[3]`, an array of pointers. -/
def pointers : Declarator :=
  ⟨['*'], ['a'], [['3']], []⟩

/-- `b`, with nothing around its name. -/
def bareName : Declarator :=
  ⟨[], ['b'], [], []⟩

/-- `table[2][N] = f(1, 2)`, with a value that holds a comma. -/
def initialised : Declarator :=
  ⟨[], "table".toList, [['2'], ['N']], " = f(1, 2)".toList⟩

theorem isPlain_pointers : pointers.IsPlain where
  stars := by decide
  name := ⟨by decide, by decide, by decide⟩
  sizes := List.forall_mem_singleton.mpr ⟨by decide, .of_plain (by decide), by decide⟩
  initialiser := .inl rfl

theorem isPlain_bareName : bareName.IsPlain where
  stars := by decide
  name := ⟨by decide, by decide, by decide⟩
  sizes := by simp [bareName]
  initialiser := .inl rfl

theorem isPlain_initialised : initialised.IsPlain where
  stars := by decide
  name := ⟨by decide, by decide, by decide⟩
  sizes := by
    intro size mem
    simp only [initialised, List.mem_cons, List.not_mem_nil, or_false] at mem
    rcases mem with rfl | rfl
    · exact ⟨by decide, .of_plain (by decide), by decide⟩
    · exact ⟨by decide, .of_plain (by decide), by decide⟩
  initialiser := .inr ⟨[' '], '=', " f(1, 2)".toList, rfl, by decide, .inl rfl, by decide⟩

theorem leadingType_pair : LeadingType "static const std::pair<int, double>".toList where
  filled := by decide
  spaced := by decide
  closed := by decide
  no_brace := by decide
  no_sign := by decide
  no_colon := by decide
  typed := ⟨"const".toList, by decide +kernel, by decide +kernel⟩
  undecorated := by decide
  no_square := by decide
  no_comma := by decide

theorem leadingType_int : LeadingType "int".toList where
  filled := by decide
  spaced := by decide
  closed := by decide
  no_brace := by decide
  no_sign := by decide
  no_colon := by decide
  typed := ⟨"int".toList, by decide +kernel, by decide +kernel⟩
  undecorated := by decide
  no_square := by decide
  no_comma := by decide

theorem decodeMembers_declarators_pair :
    LeadingType "static const std::pair<int, double>".toList ∧
      (∀ e ∈ [bareName, pointers, initialised], e.IsPlain) ∧
      ∃ m ms, decodeMembers ("static const std::pair<int, double>".toList ++
            ' ' :: Text.join ", ".toList ([bareName, pointers, initialised].map Declarator.text)) =
          .ok (m :: ms) ∧
        decodeMember ("static const std::pair<int, double>".toList ++ ' ' :: bareName.text) =
          .ok m ∧
        List.Forall₂ (fun e m => decodeMember ("static const std::pair<int, double>".toList ++
          bareName.carried ++ ' ' :: e.text) = .ok m) [pointers, initialised] ms := by
  have plain : ∀ e ∈ [bareName, pointers, initialised], e.IsPlain := by
    simp [isPlain_bareName, isPlain_pointers, isPlain_initialised]
  exact ⟨leadingType_pair, plain, decodeMembers_declarators leadingType_pair plain⟩

/-- **An array of pointers leaves its star to the next declarator**: of `int *a[3], b`, the second
member is a pointer, and by itself it is an `int`. -/
theorem decodeMembers_pointers : LeadingType "int".toList ∧ pointers.IsPlain ∧ bareName.IsPlain ∧
    decodeMembers ("int".toList ++ ' ' :: Text.join ", ".toList [pointers.text, bareName.text]) =
      .ok [⟨"int*[3]".toList, ['a']⟩, ⟨"int*".toList, ['b']⟩] ∧
    decodeMember ("int".toList ++ ' ' :: bareName.text) = .ok ⟨"int".toList, ['b']⟩ :=
  ⟨leadingType_int, isPlain_pointers, isPlain_bareName, by decide +kernel, by decide +kernel⟩

end AccessorCatalog.Declaration

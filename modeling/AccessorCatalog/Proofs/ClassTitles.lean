/-
# Class titles are read back from their spelling

The title of a class is cut out of its preamble by four readers: one that looks for the close of the
template list, one for a lone colon, one for commas and one for blanks.  This file writes a title
down (`ClassHead.preamble`) and shows that the readers find its parts again (`classTitle_preamble`).

What makes them agree is that all they have to pass over is `Bracketed`: nested pairs of brackets,
in which the depth of the three kinds comes out as it went in, and in which no close of the template
list is its last (`Bracketed.closeFrom_append`).  So every part is a whole piece for each of the
readers.
-/
import AccessorCatalog.Proofs.QualifiedNames
import AccessorCatalog.Proofs.TidyTypes

namespace AccessorCatalog

/-! ## 1. Brackets -/

namespace Text

/-- The three pairs of brackets. -/
def bracketPairs : List (Char × Char) :=
  [('(', ')'), ('[', ']'), ('<', '>')]

/-- A text whose brackets are nested pairs. -/
inductive Bracketed : Text → Prop
  | empty : Bracketed []
  | plain {c : Char} {t : Text} : c ∉ Depth.brackets → Bracketed t → Bracketed (c :: t)
  | pair {left right : Char} {s t : Text} : (left, right) ∈ bracketPairs → Bracketed s →
      Bracketed t → Bracketed (left :: (s ++ right :: t))

variable {p : Char → Bool} {d : Depth} {s t : Text} {before : Option Char}

theorem pair_of_mem {left right : Char} (mem : (left, right) ∈ bracketPairs) (d : Depth) :
    (d.feed left).feed right = d ∧ (d.feed left).isTop = false := by
  obtain ⟨paren, square, angle⟩ := d
  simp only [bracketPairs, List.mem_cons, Prod.mk.injEq, List.not_mem_nil, or_false] at mem
  rcases mem with ⟨rfl, rfl⟩ | ⟨rfl, rfl⟩ | ⟨rfl, rfl⟩ <;> simp [Depth.feed, Depth.isTop]

theorem closeFrom_open (depth : Nat) (t : Text) :
    closeFrom? '<' '>' depth ('<' :: t) = (closeFrom? '<' '>' (depth + 1) t).map (· + 1) := rfl

theorem closeFrom_close {depth : Nat} (inside : 0 < depth) (t : Text) :
    closeFrom? '<' '>' (depth + 1) ('>' :: t) = (closeFrom? '<' '>' depth t).map (· + 1) := by
  obtain ⟨depth, rfl⟩ := Nat.exists_eq_succ_of_ne_zero (Nat.ne_of_gt inside)
  rfl

theorem closeFrom_other {c : Char} (left : c ≠ '<') (right : c ≠ '>') (depth : Nat) (t : Text) :
    closeFrom? '<' '>' depth (c :: t) = (closeFrom? '<' '>' depth t).map (· + 1) := by
  rw [closeFrom?, if_neg left, if_neg right]

namespace Bracketed

theorem of_plain (plain : ∀ c ∈ t, c ∉ Depth.brackets) : Bracketed t := by
  induction t with
  | nil => exact .empty
  | cons c t ih =>
    exact .plain (plain c List.mem_cons_self) (ih fun e mem => plain e (List.mem_cons_of_mem c mem))

theorem append (hs : Bracketed s) (ht : Bracketed t) : Bracketed (s ++ t) := by
  induction hs with
  | empty => exact ht
  | plain other _ ih => exact .plain other ih
  | pair mem inner _ _ ih =>
    rw [List.cons_append, List.append_assoc, List.cons_append]
    exact .pair mem inner ih

theorem enclose (h : Bracketed t) : Bracketed ('<' :: (t ++ ['>'])) :=
  .pair (by decide) h .empty

/-- Its brackets match for a reader that counts each kind apart. -/
theorem balanced (h : Bracketed t) : Balanced t := by
  induction h with
  | empty => exact .of_plain (by simp)
  | @plain c t other _ ih => exact (Balanced.of_plain (t := [c]) (by simpa using other)).append ih
  | @pair left right s t mem _ _ inner_ih rest_ih =>
    have split : left :: (s ++ right :: t) = (left :: (s ++ [right])) ++ t := by simp
    rw [split]
    exact (inner_ih.enclose (pair_of_mem mem)).append rest_ih

/-- **The close of open angles is not inside**: the search for it goes on behind the text as it
began. -/
theorem closeFrom_append (h : Bracketed t) {depth : Nat} (inside : 0 < depth) (u : Text) :
    closeFrom? '<' '>' depth (t ++ u) = (closeFrom? '<' '>' depth u).map (· + t.length) := by
  induction h generalizing depth u with
  | empty => simp
  | @plain c t other _ ih =>
    have left : c ≠ '<' := fun same => other (by simp [same, Depth.brackets])
    have right : c ≠ '>' := fun same => other (by simp [same, Depth.brackets])
    rw [List.cons_append, closeFrom_other left right, ih inside, Option.map_map, List.length_cons]
    rfl
  | @pair left right s t mem _ _ inner_ih rest_ih =>
    have shift (n : Nat) :
        n + t.length + 1 + s.length + 1 = n + (left :: (s ++ right :: t)).length := by
      simp only [List.length_cons, List.length_append]
      omega
    rw [List.cons_append, List.append_assoc, List.cons_append]
    by_cases angle : left = '<'
    · obtain ⟨rfl, rfl⟩ : left = '<' ∧ right = '>' := by
        subst angle
        simpa [bracketPairs] using mem
      rw [closeFrom_open, inner_ih (Nat.succ_pos depth), closeFrom_close inside, rest_ih inside]
      simp only [Option.map_map, Function.comp_def, shift]
    · have others : left ≠ '>' ∧ right ≠ '<' ∧ right ≠ '>' := by
        simp only [bracketPairs, List.mem_cons, Prod.mk.injEq, List.not_mem_nil, or_false] at mem
        rcases mem with ⟨rfl, rfl⟩ | ⟨rfl, rfl⟩ | ⟨rfl, rfl⟩
        · decide
        · decide
        · exact absurd rfl angle
      rw [closeFrom_other angle others.1, inner_ih inside, closeFrom_other others.2.1 others.2.2,
        rest_ih inside]
      simp only [Option.map_map, Function.comp_def, shift]

/-- The first angle of a text is closed behind what it encloses. -/
theorem closeOf_enclosed (h : Bracketed t) (u : Text) :
    closeOf? '<' '>' 0 ('<' :: (t ++ '>' :: u)) = some (t.length + 1) := by
  have close : closeFrom? '<' '>' 1 ('>' :: u) = some 0 := rfl
  rw [closeOf?, List.drop_zero, closeFrom?, if_pos rfl, h.closeFrom_append Nat.one_pos, close]
  simp

end Bracketed

/-! ## 2. Colons and words -/

/-- A colon behind a text without lone colons is a lone one, if no bracket is open there and no
colon stands next to it. -/
theorem cutAtColonFrom_lone (front : cutAtColonFrom? d before s = none)
    (top : (d.read s).isTop = true)
    (left : lastOf before s ≠ some ':') (right : t.head? ≠ some ':') :
    cutAtColonFrom? d before (s ++ ':' :: t) = some (s, t) := by
  induction s generalizing d before with
  | nil => exact if_pos ⟨rfl, top, left, right⟩
  | cons c s ih =>
    obtain ⟨other, rest⟩ := Declaration.cutAtColonFrom_cons.mp front
    have passed : ¬ (c = ':' ∧ d.isTop ∧ before ≠ some ':' ∧ (s ++ ':' :: t).head? ≠ some ':') := by
      rintro ⟨colon, outside, first, next⟩
      refine other ⟨colon, outside, first, fun behind => next ?_⟩
      cases s with
      | nil => cases behind
      | cons e s => exact behind
    rw [List.cons_append, cutAtColonFrom?, if_neg passed,
      ih rest top (by rwa [← lastOf_cons before])]
    rfl

/-- A text in which no lone colon stands outside brackets, whatever stands in front of it. -/
structure NoColon (t : Text) : Prop where
  closed : Depth.read {} t = {}
  none : ∀ before, cutAtColonFrom? {} before t = none

namespace NoColon

theorem of_whole (h : Whole (· == ':') t) : NoColon t :=
  ⟨h.closed, fun _ => Declaration.cutAtColonFrom_of_clear h.clear⟩

theorem append (hs : NoColon s) (ht : NoColon t) : NoColon (s ++ t) := by
  refine ⟨by rw [Depth.read_append, hs.closed, ht.closed], fun before => ?_⟩
  refine Declaration.cutAtColonFrom_append (hs.none before) ?_
  rw [hs.closed]
  exact ht.none _

/-- Two colons side by side are no lone ones. -/
theorem double : NoColon "::".toList := by
  refine ⟨rfl, fun before => Declaration.cutAtColonFrom_cons.mpr ⟨fun lone => lone.2.2.2 rfl, ?_⟩⟩
  rfl

end NoColon

/-- A word for the reader of words: it is not empty, and its blanks are inside brackets. -/
structure IsTopWord (w : Text) : Prop where
  filled : w ≠ []
  whole : Whole isBlank w

theorem IsTopWord.topWords {w : Text} (h : IsTopWord w) : topWords w = [w] :=
  topWords_of_clear h.filled h.whole.clear

theorem IsTopWord.trim {w : Text} (h : IsTopWord w) : trim w = w := by
  have closed : EndsWell {} w := by
    right
    rw [h.whole.closed]
    rfl
  exact trim_of_mem_topWords closed (by rw [h.topWords]; exact List.mem_singleton_self w)

/-- A text of other characters than blanks and brackets. -/
theorem isTopWord_of_plain {w : Text} (filled : w ≠ [])
    (plain : ∀ c ∈ w, c ∉ Depth.brackets ∧ isBlank c = false) : IsTopWord w :=
  ⟨filled, whole_of_plain plain⟩

theorem trimStart_of_solid {c : Char} (solid : isBlank c = false) (t : Text) :
    trimStart (c :: t) = c :: t :=
  List.dropWhile_cons_of_neg (by rw [solid]; decide)

theorem topWords_cons_blank {b : Char} (blank : isBlank b = true) (t : Text) :
    topWords (b :: t) = topWords t :=
  topWords_append (s := []) blank rfl t

theorem topWords_append_blanks {gap : Text} (closed : Depth.read {} t = {})
    (blank : ∀ b ∈ gap, isBlank b = true) : topWords (t ++ gap) = topWords t := by
  have only_blanks {u : Text} (blank : ∀ b ∈ u, isBlank b = true) : topWords u = [] := by
    induction u with
    | nil => rfl
    | cons b u ih =>
      rw [topWords_cons_blank (blank b List.mem_cons_self),
        ih fun c mem => blank c (List.mem_cons_of_mem b mem)]
  cases gap with
  | nil => rw [List.append_nil]
  | cons b gap =>
    rw [topWords_append (blank b List.mem_cons_self) closed,
      only_blanks fun c mem => blank c (List.mem_cons_of_mem b mem), List.append_nil]

/-- Trimming a text with closed brackets leaves its words. -/
theorem topWords_trim (closed : Depth.read {} t = {}) : topWords (trim t) = topWords t := by
  have start (t : Text) : topWords (trimStart t) = topWords t ∧
      Depth.read {} (trimStart t) = Depth.read {} t := by
    induction t with
    | nil => exact ⟨rfl, rfl⟩
    | cons c t ih =>
      cases blank : isBlank c with
      | false => simp [trimStart, dropStart, blank]
      | true =>
        have same : trimStart (c :: t) = trimStart t := by simp [trimStart, dropStart, blank]
        rw [same, ih.1, ih.2, topWords_cons_blank blank, Depth.read_cons, Depth.feed_blank blank]
        exact ⟨rfl, rfl⟩
  have blank : ∀ b ∈ ((trimStart t).reverse.takeWhile isBlank).reverse, isBlank b = true :=
    fun b mem => List.mem_takeWhile_imp (List.mem_reverse.mp mem)
  have ends : trim t ++ ((trimStart t).reverse.takeWhile isBlank).reverse = trimStart t :=
    Source.dropEnd_append isBlank (trimStart t)
  have closed_trim : Depth.read {} (trim t) = {} := by
    have whole := congrArg (Depth.read {}) ends
    rwa [Depth.read_append, Depth.read_blanks blank, (start t).2, closed] at whole
  rw [← (start t).1, ← ends, topWords_append_blanks closed_trim blank]

/-! ## 3. Joined pieces -/

/-- What holds of all pieces and of the separator, and of texts one behind the other, holds of the
pieces put together. -/
theorem join_induction {P : Text → Prop} {sep : Text} {pieces : List Text} (nil : P [])
    (append : ∀ {s t}, P s → P t → P (s ++ t)) (separator : P sep)
    (all : ∀ piece ∈ pieces, P piece) :
    P (join sep pieces) := by
  induction pieces with
  | nil => exact nil
  | cons piece pieces ih =>
    have first := all piece List.mem_cons_self
    cases pieces with
    | nil => simpa [join] using first
    | cons next pieces =>
      rw [Source.join_cons_cons]
      exact append (append first separator) (ih fun p mem => all p (List.mem_cons_of_mem piece mem))

theorem Bracketed.join {sep : Text} {pieces : List Text} (separator : Bracketed sep)
    (all : ∀ piece ∈ pieces, Bracketed piece) : Bracketed (join sep pieces) :=
  join_induction .empty .append separator all

theorem Whole.join {sep : Text} {pieces : List Text} (separator : Whole p sep)
    (all : ∀ piece ∈ pieces, Whole p piece) : Whole p (join sep pieces) :=
  join_induction (whole_of_plain (by simp)) .append separator all

theorem NoColon.join {sep : Text} {pieces : List Text} (separator : NoColon sep)
    (all : ∀ piece ∈ pieces, NoColon piece) : NoColon (join sep pieces) :=
  join_induction (.of_whole (whole_of_plain (by simp))) .append separator all

/-- Words in a row are read one by one. -/
theorem topWords_join {ws : List Text} (words : ∀ w ∈ ws, IsTopWord w) :
    topWords (Text.join [' '] ws) = ws := by
  induction ws with
  | nil => rfl
  | cons w ws ih =>
    have first := words w List.mem_cons_self
    cases ws with
    | nil => simpa [Text.join] using first.topWords
    | cons next ws =>
      rw [Source.join_cons_cons, List.append_assoc, List.singleton_append,
        topWords_append (by decide) first.whole.closed, first.topWords,
        ih fun v mem => words v (List.mem_cons_of_mem w mem)]
      rfl

/-- Words in a row have no blanks at their ends. -/
theorem trim_join_words {ws : List Text} (some_word : ws ≠ []) (words : ∀ w ∈ ws, IsTopWord w) :
    trim (Text.join [' '] ws) = Text.join [' '] ws ∧ Text.join [' '] ws ≠ [] := by
  constructor
  · exact trim_join fun w mem => ⟨(words w mem).trim, (words w mem).filled⟩
  · obtain ⟨w, ws, rfl⟩ := List.exists_cons_of_ne_nil some_word
    exact Source.join_ne_nil (words w List.mem_cons_self).filled [' '] ws

/-! ## 4. Leading dots -/

theorem withoutLeading_of_none {c : Char} {more : Text}
    (missed : afterPrefix? (c :: more) t = none) :
    withoutLeading (c :: more) t = t := by
  rw [withoutLeading]
  split
  · next found =>
    rw [missed] at found
    cases found
  · rfl

theorem withoutLeading_of_some {c : Char} {more : Text} (rest : Text)
    (found : afterPrefix? (c :: more) t = some rest) :
    withoutLeading (c :: more) t = withoutLeading (c :: more) rest := by
  rw [withoutLeading]
  split
  · next again =>
    rw [found] at again
    cases again
    rfl
  · next missed =>
    rw [found] at missed
    cases missed

/-- A text of word characters has no dots in front. -/
theorem withoutLeading_dots (letters : ∀ c ∈ t, isWord c = true) :
    withoutLeading ['.', '.', '.'] t = t := by
  refine withoutLeading_of_none ?_
  cases t with
  | nil => rfl
  | cons c t => exact if_neg (ne_of_isWord (letters c List.mem_cons_self) (by decide)).symm

end Text

/-! ## 5. Names -/

namespace Outline

open ClassName (IsIdentifier)
open Text (Bracketed Depth IsTopWord NoColon Whole isBlank isWord join)

/-- A part of the name of a class: an identifier, or one with template arguments. -/
def IsNamePart (t : Text) : Prop :=
  ∃ identifier, IsIdentifier identifier ∧
    (t = identifier ∨ ∃ args, Bracketed args ∧ t = identifier ++ '<' :: (args ++ ['>']))

/-- The name of a class as it is written in a title: parts with `::` between them, and perhaps in
front. -/
def IsClassName (t : Text) : Prop :=
  ∃ lead ∈ [[], "::".toList], ∃ parts, parts ≠ [] ∧ (∀ part ∈ parts, IsNamePart part) ∧
    t = lead ++ join "::".toList parts

variable {t : Text}

theorem IsNamePart.filled (h : IsNamePart t) : t ≠ [] := by
  obtain ⟨identifier, form, rfl | ⟨args, -, rfl⟩⟩ := h
  · exact form.filled
  · simp [form.filled]

/-- A part is a whole piece for a reader that cuts at none of its own signs. -/
theorem IsNamePart.whole {p : Char → Bool} (h : IsNamePart t)
    (words : ∀ c, isWord c = true → p c = false) (angle : p '<' = false) : Whole p t := by
  obtain ⟨identifier, form, shape⟩ := h
  have plain : Whole p identifier := Text.whole_of_word form.word words
  rcases shape with rfl | ⟨args, bracketed, rfl⟩
  · exact plain
  · exact plain.append (bracketed.balanced.whole_enclose Text.pair_angle angle)

theorem IsNamePart.noColon (h : IsNamePart t) : NoColon t :=
  .of_whole (h.whole (fun _ word => beq_eq_false_iff_ne.mpr (Text.ne_of_isWord word (by decide)))
    (by decide))

theorem IsIdentifier.isTopWord (h : IsIdentifier t) : IsTopWord t :=
  Text.isTopWord_of_plain h.filled fun c mem =>
    ⟨Depth.not_mem_of_isWord (h.word c mem), Text.isBlank_of_isWord (h.word c mem)⟩

theorem IsIdentifier.noColon (h : IsIdentifier t) : NoColon t :=
  IsNamePart.noColon ⟨t, h, .inl rfl⟩

namespace IsClassName

theorem filled (h : IsClassName t) : t ≠ [] := by
  obtain ⟨lead, -, parts, some_part, form, rfl⟩ := h
  obtain ⟨part, parts, rfl⟩ := List.exists_cons_of_ne_nil some_part
  have joined := Source.join_ne_nil (form part List.mem_cons_self).filled "::".toList parts
  intro empty
  exact joined (List.append_eq_nil_iff.mp empty).2

theorem whole {p : Char → Bool} (h : IsClassName t) (words : ∀ c, isWord c = true → p c = false)
    (angle : p '<' = false) (colon : p ':' = false) : Whole p t := by
  obtain ⟨lead, lead_form, parts, -, form, rfl⟩ := h
  have colons : Whole p "::".toList := Text.whole_of_plain (by simp [colon, Depth.brackets])
  have joined := colons.join fun part mem => (form part mem).whole words angle
  rcases List.mem_pair.mp lead_form with rfl | rfl
  · exact joined
  · exact colons.append joined

theorem noColon (h : IsClassName t) : NoColon t := by
  obtain ⟨lead, lead_form, parts, -, form, rfl⟩ := h
  have joined := NoColon.double.join fun part mem => (form part mem).noColon
  rcases List.mem_pair.mp lead_form with rfl | rfl
  · exact joined
  · exact NoColon.double.append joined

theorem isTopWord (h : IsClassName t) : IsTopWord t :=
  ⟨h.filled, h.whole (fun _ word => Text.isBlank_of_isWord word) (by decide) (by decide)⟩

end IsClassName

/-! ## 6. Template parameters -/

/-- A template parameter as it is written: `class`, `typename` or a type, the name, and perhaps a
default value.  The dots of a pack belong to what stands in front of the name, as in `class... T`,
or stand before the name itself, as in `class ...T`. -/
structure TemplateParameter where
  kind : Text
  dotted : Bool
  name : Text
  gap : Text
  default? : Option Text

namespace TemplateParameter

/-- The name with its dots. -/
def word (p : TemplateParameter) : Text :=
  (if p.dotted then "...".toList else []) ++ p.name

/-- What stands in front of the default value. -/
def front (p : TemplateParameter) : Text :=
  p.kind ++ ' ' :: p.word

/-- The parameter as it is written. -/
def text (p : TemplateParameter) : Text :=
  match p.default? with
  | none => p.front
  | some value => p.front ++ (p.gap ++ '=' :: value)

/-- Brackets are nested, no comma and no sign of equality stands outside them where it would cut,
and the name is an identifier that is not the keyword of a parameter without a name. -/
structure WellFormed (p : TemplateParameter) : Prop where
  kind : Bracketed p.kind
  no_comma : Text.Clear (· == ',') {} p.kind
  no_sign : Text.Clear (· == '=') {} p.kind
  name : IsIdentifier p.name
  no_keyword : p.name ≠ "class".toList ∧ p.name ≠ "typename".toList
  gap : ∀ b ∈ p.gap, isBlank b = true
  default : ∀ value ∈ p.default?, Bracketed value ∧ Text.Clear (· == ',') {} value

variable {p : TemplateParameter}

namespace WellFormed

theorem word_plain (h : p.WellFormed) {c : Char} (mem : c ∈ p.word) :
    isWord c = true ∨ c = '.' := by
  rcases List.mem_append.mp mem with dots | name
  · split at dots
    · exact .inr (by simpa using dots)
    · cases dots
  · exact .inl (h.name.word c name)

theorem isTopWord_word (h : p.WellFormed) : IsTopWord p.word := by
  refine Text.isTopWord_of_plain (by simp [word, h.name.filled]) fun c mem => ?_
  rcases h.word_plain mem with letter | rfl
  · exact ⟨Depth.not_mem_of_isWord letter, Text.isBlank_of_isWord letter⟩
  · exact ⟨by decide, by decide⟩

/-- The front is cut by no separator that does not occur in the kind. -/
theorem whole_front (h : p.WellFormed) {sep : Char} (kind : Text.Clear (· == sep) {} p.kind)
    (other : isWord sep = false ∧ sep ≠ '.' ∧ sep ≠ ' ') : Whole (· == sep) p.front := by
  refine Whole.append ⟨h.kind.balanced.closed {}, kind⟩ (Text.whole_of_plain fun c mem => ?_)
  rcases List.mem_cons.mp mem with rfl | mem
  · exact ⟨by decide, beq_eq_false_iff_ne.mpr other.2.2.symm⟩
  · rcases h.word_plain mem with letter | rfl
    · exact ⟨Depth.not_mem_of_isWord letter,
        beq_eq_false_iff_ne.mpr (Text.ne_of_isWord letter other.1)⟩
    · exact ⟨by decide, beq_eq_false_iff_ne.mpr other.2.1.symm⟩

theorem bracketed_text (h : p.WellFormed) : Bracketed p.text := by
  have word : Bracketed p.word := .of_plain fun c mem => by
    rcases h.word_plain mem with letter | rfl
    · exact Depth.not_mem_of_isWord letter
    · decide
  have front : Bracketed p.front := h.kind.append (.plain (by decide) word)
  have gap : Bracketed p.gap := .of_plain fun c mem => Depth.not_mem_of_isBlank (h.gap c mem)
  unfold text
  split
  · exact front
  · next value found =>
    exact front.append (gap.append (.plain (by decide) (h.default value found).1))

/-- For the reader of the list, a parameter is one piece. -/
theorem whole_text (h : p.WellFormed) : Whole (· == ',') p.text := by
  have front := h.whole_front h.no_comma (by decide)
  unfold text
  split
  · exact front
  · next value found =>
    obtain ⟨bracketed, clear⟩ := h.default value found
    have sign : Whole (· == ',') ['='] := by decide
    have gap : Whole (· == ',') p.gap := Text.whole_of_blanks h.gap (by decide)
    exact front.append (gap.append (sign.append ⟨bracketed.balanced.closed {}, clear⟩))

/-- The dots of a pack come off the name again. -/
theorem withoutDots_word (h : p.WellFormed) :
    Text.withoutTrailing "...".toList (Text.withoutLeading "...".toList p.word) = p.name := by
  have leading : Text.withoutLeading "...".toList p.word = p.name := by
    unfold word
    split
    · exact (Text.withoutLeading_of_some p.name rfl).trans
        (Text.withoutLeading_dots h.name.word)
    · exact Text.withoutLeading_dots h.name.word
  have trailing : Text.withoutLeading "...".toList p.name.reverse = p.name.reverse :=
    Text.withoutLeading_dots fun c mem => h.name.word c (List.mem_reverse.mp mem)
  rw [leading, Text.withoutTrailing]
  exact (congrArg List.reverse trailing).trans p.name.reverse_reverse

/-- The default value comes off, with its sign and perhaps not with the blanks in front of that. -/
theorem exists_beforeTop (h : p.WellFormed) (lead : Text) (blank : ∀ b ∈ lead, isBlank b = true) :
    ∃ tail, (∀ b ∈ tail, isBlank b = true) ∧
      Text.beforeTop '=' (lead ++ p.text) = lead ++ p.front ++ tail := by
  have front : Whole (· == '=') (lead ++ p.front) :=
    (Text.whole_of_blanks blank (by decide)).append (h.whole_front h.no_sign (by decide))
  have gap : Whole (· == '=') p.gap := Text.whole_of_blanks h.gap (by decide)
  unfold text
  split
  · refine ⟨[], by simp, ?_⟩
    rw [List.append_nil]
    exact Text.beforeTop_of_clear front.clear
  · next value found =>
    refine ⟨p.gap, h.gap, ?_⟩
    rw [← List.append_assoc, ← List.append_assoc]
    exact Text.beforeTop_append (by decide) (front.append gap) value

/-- The last word in front of the default value is that of the name. -/
theorem getLast?_topWords (h : p.WellFormed) (lead : Text) (blank : ∀ b ∈ lead, isBlank b = true) :
    (Text.topWords (Text.trim (Text.beforeTop '=' (lead ++ p.text)))).getLast? = some p.word := by
  obtain ⟨tail, tail_blank, before⟩ := h.exists_beforeTop lead blank
  have closed_kind : Depth.read {} (lead ++ p.kind) = {} := by
    rw [Depth.read_append, Depth.read_blanks blank, h.kind.balanced.closed]
  have closed : Depth.read {} (lead ++ p.front) = {} := by
    rw [Depth.read_append, Depth.read_blanks blank, (h.whole_front h.no_sign (by decide)).closed]
  have closed_tail : Depth.read {} (lead ++ p.front ++ tail) = {} := by
    rw [Depth.read_append, closed, Depth.read_blanks tail_blank]
  rw [before, Text.topWords_trim closed_tail, Text.topWords_append_blanks closed tail_blank,
    TemplateParameter.front, ← List.append_assoc, Text.topWords_append (by decide) closed_kind,
    h.isTopWord_word.topWords, List.getLast?_concat]

/-- **The name of a parameter is read back.** -/
theorem parameterName_text (h : p.WellFormed) (lead : Text) (blank : ∀ b ∈ lead, isBlank b = true) :
    parameterName? (lead ++ p.text) = some p.name := by
  obtain ⟨no_class, no_typename⟩ := h.no_keyword
  have kept :
      (p.name.isEmpty || p.name == "class".toList || p.name == "typename".toList) = false := by
    rw [List.isEmpty_eq_false_iff.mpr h.name.filled, beq_eq_false_iff_ne.mpr no_class,
      beq_eq_false_iff_ne.mpr no_typename]
    rfl
  unfold parameterName?
  rw [h.getLast?_topWords lead blank]
  dsimp only
  rw [h.withoutDots_word, kept]
  rfl

end WellFormed
end TemplateParameter

/-- A list that is joined with commas and spaces is cut into its pieces, with a space in front of
each but the first. -/
theorem splitTop_list {w : Text} {ws : List Text}
    (whole : ∀ piece ∈ w :: ws, Whole (· == ',') piece) :
    Text.splitTop ',' (join ", ".toList (w :: ws)) = w :: ws.map (' ' :: ·) :=
  Text.splitTop_join (by decide)
    (by decide : ∀ c ∈ [' '], c ∉ Depth.brackets ∧ (c == ',') = false) whole

/-- **The names of a list of parameters are read back in order.** -/
theorem templateParams_texts {ps : List TemplateParameter} (forms : ∀ p ∈ ps, p.WellFormed) :
    templateParams (join ", ".toList (ps.map TemplateParameter.text)) =
      ps.map TemplateParameter.name := by
  cases ps with
  | nil => rfl
  | cons p ps =>
    have whole : ∀ piece ∈ p.text :: ps.map TemplateParameter.text, Whole (· == ',') piece := by
      rw [← List.map_cons]
      intro piece mem
      obtain ⟨q, q_mem, rfl⟩ := List.mem_map.mp mem
      exact (forms q q_mem).whole_text
    have first : parameterName? p.text = some p.name :=
      (forms p List.mem_cons_self).parameterName_text [] (by simp)
    have rest : ((ps.map TemplateParameter.text).map (' ' :: ·)).filterMap parameterName? =
        ps.map TemplateParameter.name := by
      rw [List.map_map, List.filterMap_map, ← List.filterMap_eq_map]
      refine List.filterMap_congr fun q mem => ?_
      exact (forms q (List.mem_cons_of_mem p mem)).parameterName_text [' '] (by decide)
    unfold templateParams
    rw [List.map_cons, splitTop_list whole, List.filterMap_cons_some first, rest, List.map_cons]

/-! ## 7. Base classes -/

/-- A base class as it is written: words that say how it is inherited, and its name. -/
structure BaseSpelling where
  decorations : List Text
  name : Text

namespace BaseSpelling

def words (b : BaseSpelling) : List Text :=
  b.decorations ++ [b.name]

def text (b : BaseSpelling) : Text :=
  join [' '] b.words

structure WellFormed (b : BaseSpelling) : Prop where
  decorations : ∀ d ∈ b.decorations, d ∈ baseDecorations
  name : IsClassName b.name
  no_decoration : b.name ∉ baseDecorations

variable {b : BaseSpelling}

namespace WellFormed

theorem isTopWord_of_mem (h : b.WellFormed) {w : Text} (mem : w ∈ b.words) : IsTopWord w := by
  have decorations : ∀ d ∈ baseDecorations, d ≠ [] ∧
      ∀ c ∈ d, c ∉ Depth.brackets ∧ isBlank c = false := by decide
  rcases List.mem_append.mp mem with decoration | name
  · obtain ⟨filled, plain⟩ := decorations w (h.decorations w decoration)
    exact Text.isTopWord_of_plain filled plain
  · rw [List.mem_singleton.mp name]
    exact h.name.isTopWord

/-- For the reader of the list, a base class is one piece. -/
theorem whole_text (h : b.WellFormed) : Whole (· == ',') b.text := by
  have decorations : ∀ d ∈ baseDecorations, Whole (· == ',') d := by decide
  refine Whole.join (by decide) fun w mem => ?_
  rcases List.mem_append.mp mem with decoration | name
  · exact decorations w (h.decorations w decoration)
  · rw [List.mem_singleton.mp name]
    exact h.name.whole (fun _ word => beq_eq_false_iff_ne.mpr (Text.ne_of_isWord word (by decide)))
      (by decide) (by decide)

theorem trim_text (h : b.WellFormed) : Text.trim b.text = b.text ∧ b.text ≠ [] :=
  Text.trim_join_words (by simp [BaseSpelling.words]) fun _ mem => h.isTopWord_of_mem mem

/-- **The name of a base class is read back** without its decorations. -/
theorem baseName_text (h : b.WellFormed) : baseName (' ' :: b.text) = b.name := by
  have words : Text.topWords (' ' :: b.text) = b.words := by
    rw [text, Text.topWords_cons_blank (by decide)]
    exact Text.topWords_join fun _ mem => h.isTopWord_of_mem mem
  have decorations : b.decorations.filter (fun w => !baseDecorations.contains w) = [] := by
    rw [List.filter_eq_nil_iff]
    intro d mem
    simp [h.decorations d mem]
  have name : [b.name].filter (fun w => !baseDecorations.contains w) = [b.name] := by
    simp [h.no_decoration]
  rw [baseName, words, BaseSpelling.words, List.filter_append, decorations, name]
  simp [join]

end WellFormed
end BaseSpelling

/-- **The base classes of a list are read back in order.** -/
theorem baseNames_texts {bs : List BaseSpelling} (some_base : bs ≠ [])
    (forms : ∀ b ∈ bs, b.WellFormed) :
    baseNames (' ' :: join ", ".toList (bs.map BaseSpelling.text)) = bs.map BaseSpelling.name := by
  obtain ⟨b, bs, rfl⟩ := List.exists_cons_of_ne_nil some_base
  have whole_first : Whole (· == ',') (' ' :: b.text) :=
    Whole.append (s := [' ']) (by decide) (forms b List.mem_cons_self).whole_text
  have whole : ∀ piece ∈ (' ' :: b.text) :: bs.map BaseSpelling.text, Whole (· == ',') piece := by
    intro piece mem
    rcases List.mem_cons.mp mem with rfl | mem
    · exact whole_first
    · obtain ⟨a, a_mem, rfl⟩ := List.mem_map.mp mem
      exact (forms a (List.mem_cons_of_mem b a_mem)).whole_text
  have lead : ' ' :: join ", ".toList ((b :: bs).map BaseSpelling.text) =
      join ", ".toList ((' ' :: b.text) :: bs.map BaseSpelling.text) := by
    cases bs <;> simp [join, List.intercalate]
  have first := (forms b List.mem_cons_self).baseName_text
  have rest :
      ((bs.map BaseSpelling.text).map (' ' :: ·)).map baseName = bs.map BaseSpelling.name := by
    rw [List.map_map, List.map_map]
    exact List.map_congr_left fun a mem => (forms a (List.mem_cons_of_mem b mem)).baseName_text
  rw [baseNames, lead, splitTop_list whole, List.map_cons, first, rest, ← List.map_cons,
    List.filter_eq_self]
  intro name mem
  obtain ⟨a, a_mem, rfl⟩ := List.mem_map.mp mem
  simp [(forms a a_mem).name.filled]

/-! ## 8. Titles -/

/-- The head of a class as it is written: its template parameters if it is a template, the macros in
front of its name, the name, and its base classes. -/
structure ClassHead where
  template? : Option (List TemplateParameter)
  isStruct : Bool
  macros : List Text
  name : Text
  isFinal : Bool
  bases : List BaseSpelling

namespace ClassHead

/-- The words in front of the colon. -/
def words (h : ClassHead) : List Text :=
  h.macros ++ h.name :: (if h.isFinal then ["final".toList] else [])

/-- What stands behind the key. -/
def title (h : ClassHead) : Text :=
  join [' '] h.words ++
    (if h.bases = [] then [] else " : ".toList ++ join ", ".toList (h.bases.map BaseSpelling.text))

def key (h : ClassHead) : Text :=
  if h.isStruct then "struct".toList else "class".toList

def templateText (h : ClassHead) : Text :=
  match h.template? with
  | none => []
  | some ps => "template<".toList ++ join ", ".toList (ps.map TemplateParameter.text) ++ "> ".toList

/-- The head in front of the body of the class. -/
def preamble (h : ClassHead) : Text :=
  h.templateText ++ h.key ++ ' ' :: h.title ++ " \x7b".toList

/-- The parts are what their names say.  A name that is `final` or starts like an alignment is taken
for that, so it is left out. -/
structure WellFormed (h : ClassHead) : Prop where
  params : ∀ ps ∈ h.template?, ∀ p ∈ ps, p.WellFormed
  macros : ∀ m ∈ h.macros, IsIdentifier m
  name : IsClassName h.name
  no_final : h.name ≠ "final".toList
  no_alignment : Text.startsWith "alignas".toList h.name = false
  bases : ∀ b ∈ h.bases, b.WellFormed

variable {h : ClassHead}

namespace WellFormed

theorem isTopWord_of_mem (form : h.WellFormed) {w : Text} (mem : w ∈ h.words) :
    IsTopWord w ∧ NoColon w := by
  rcases List.mem_append.mp mem with macro_word | mem
  · exact ⟨IsIdentifier.isTopWord (form.macros w macro_word),
      IsIdentifier.noColon (form.macros w macro_word)⟩
  · rcases List.mem_cons.mp mem with rfl | mem
    · exact ⟨form.name.isTopWord, form.name.noColon⟩
    · split at mem
      · rw [List.mem_singleton.mp mem]
        exact ⟨⟨by decide, by decide⟩, .of_whole (by decide)⟩
      · cases mem

theorem noColon_words (form : h.WellFormed) : NoColon (join [' '] h.words) :=
  NoColon.join (.of_whole (by decide)) fun _ mem => (form.isTopWord_of_mem mem).2

theorem trim_words (form : h.WellFormed) :
    Text.trim (join [' '] h.words) = join [' '] h.words ∧ join [' '] h.words ≠ [] :=
  Text.trim_join_words (by simp [ClassHead.words]) fun _ mem => (form.isTopWord_of_mem mem).1

theorem trim_title (form : h.WellFormed) : Text.trim h.title = h.title := by
  obtain ⟨trimmed_words, some_words⟩ := form.trim_words
  unfold title
  split
  · rw [List.append_nil]
    exact trimmed_words
  · next some_base =>
    obtain ⟨b, bs, bases⟩ := List.exists_cons_of_ne_nil some_base
    have trimmed : ∀ t ∈ h.bases.map BaseSpelling.text, Text.trim t = t ∧ t ≠ [] := by
      intro t mem
      obtain ⟨a, a_mem, rfl⟩ := List.mem_map.mp mem
      exact (form.bases a a_mem).trim_text
    have some_list : join ", ".toList (h.bases.map BaseSpelling.text) ≠ [] := by
      rw [bases, List.map_cons]
      exact Source.join_ne_nil (form.bases b (bases ▸ List.mem_cons_self)).trim_text.2 _ _
    rw [← List.append_assoc]
    exact Text.trim_between _ trimmed_words (Text.trim_join trimmed) some_words some_list

theorem filled_title (form : h.WellFormed) : h.title ≠ [] := by
  simp [title, form.trim_words.2]

/-- **The name of the class is read back**, with or without the space in front of a colon. -/
theorem titleName_words (form : h.WellFormed) (gap : Text) (blank : ∀ b ∈ gap, isBlank b = true) :
    titleName (join [' '] h.words ++ gap) = h.name := by
  have words : Text.topWords (join [' '] h.words ++ gap) = h.words := by
    rw [Text.topWords_append_blanks form.noColon_words.closed blank]
    exact Text.topWords_join fun _ mem => (form.isTopWord_of_mem mem).1
  have kept : (h.name != "final".toList && !Text.startsWith "alignas".toList h.name) = true := by
    rw [form.no_alignment, bne_iff_ne.mpr form.no_final]
    rfl
  have dropped : (if h.isFinal then ["final".toList] else []).filter
      (fun w => w != "final".toList && !Text.startsWith "alignas".toList w) = [] := by
    cases h.isFinal <;> rfl
  rw [titleName, words, ClassHead.words, List.filter_append, List.filter_cons, if_pos kept, dropped,
    List.getLastD_concat]

/-- What is read behind the key: the name and the base classes. -/
theorem read_title (form : h.WellFormed) (params : List Text) :
    (match Text.cutAtColon? h.title with
      | some (head, list) => (⟨titleName head, baseNames list, params⟩ : ClassTitle)
      | none => ⟨titleName h.title, [], params⟩) =
      ⟨h.name, h.bases.map BaseSpelling.name, params⟩ := by
  by_cases no_base : h.bases = []
  · have title : h.title = join [' '] h.words := by simp [ClassHead.title, no_base]
    have colon : Text.cutAtColon? h.title = none := by
      rw [title]
      exact form.noColon_words.none _
    have name := form.titleName_words [] (by simp)
    rw [List.append_nil] at name
    rw [colon]
    dsimp only
    rw [title, name, no_base, List.map_nil]
  · have title : h.title = (join [' '] h.words ++ [' ']) ++
        ':' :: ' ' :: join ", ".toList (h.bases.map BaseSpelling.text) := by
      simp [ClassHead.title, no_base]
    have front : NoColon (join [' '] h.words ++ [' ']) :=
      form.noColon_words.append (.of_whole (by decide))
    have colon : Text.cutAtColon? h.title = some (join [' '] h.words ++ [' '],
        ' ' :: join ", ".toList (h.bases.map BaseSpelling.text)) := by
      rw [title]
      refine Text.cutAtColonFrom_lone (front.none _) ?_ ?_ ?_
      · rw [front.closed]
        rfl
      · rw [Text.lastOf, List.getLast?_concat]
        decide
      · exact fun colon => absurd (Option.some.inj colon) (by decide)
    rw [colon]
    dsimp only
    rw [form.titleName_words [' '] (by decide), baseNames_texts no_base form.bases]

end WellFormed

/-! ## 9. Preambles -/

/-- The brace of a preamble comes off. -/
theorem titleText_brace {t : Text} (trimmed : Text.trim t = t) (filled : t ≠ []) :
    titleText (t ++ " \x7b".toList) = t := by
  have whole : Text.trim (t ++ " \x7b".toList) = t ++ " \x7b".toList := by
    have brace : Text.trim ['\x7b'] = ['\x7b'] := rfl
    have between := Text.trim_between [' '] trimmed brace filled (by decide)
    simpa using between
  have brace : Text.dropEnd (· == '\x7b') (t ++ " \x7b".toList) = t ++ [' '] := by
    simp [Text.dropEnd]
  rw [titleText, whole, brace, Text.trim_append_blanks (by decide), trimmed]

/-- A list of template parameters is cut off at its own close. -/
theorem splitTemplate_list {list : Text} (bracketed : Bracketed list) {c : Char}
    (solid : isBlank c = false) (rest : Text) :
    splitTemplate ("template".toList ++ '<' :: (list ++ '>' :: ' ' :: c :: rest)) =
      (templateParams list, c :: rest) := by
  have prefixed := Text.afterPrefix?_eq_some.mpr
    (rfl : "template".toList ++ '<' :: (list ++ '>' :: ' ' :: c :: rest) = _)
  have inside : (list ++ '>' :: ' ' :: c :: rest).take (list.length + 1 - 1) = list :=
    List.take_left
  have behind : (list ++ '>' :: ' ' :: c :: rest).drop (list.length + 1) = ' ' :: c :: rest := by
    rw [List.drop_append]
    simp
  have start : Text.trimStart (' ' :: c :: rest) = c :: rest := Text.trimStart_of_solid solid rest
  unfold splitTemplate
  rw [prefixed]
  dsimp only
  rw [Text.trimStart_of_solid (by decide), bracketed.closeOf_enclosed]
  change (templateParams ((list ++ '>' :: ' ' :: c :: rest).take (list.length + 1 - 1)),
    Text.trimStart ((list ++ '>' :: ' ' :: c :: rest).drop (list.length + 1))) = _
  rw [inside, behind, start]

/-- The template parameters come off the front, and their names are read. -/
theorem splitTemplate_templateText (form : h.WellFormed) {c : Char} {rest : Text}
    (letter : isWord c = true) (start : c ≠ 't') :
    splitTemplate (h.templateText ++ c :: rest) =
      ((h.template?.getD []).map TemplateParameter.name, c :: rest) := by
  unfold templateText
  split
  · next no_template =>
    have other : Text.afterPrefix? "template".toList (c :: rest) = none := if_neg start.symm
    rw [List.nil_append, splitTemplate, other, no_template]
    rfl
  · next ps template =>
    have forms := form.params ps template
    have bracketed : Bracketed (join ", ".toList (ps.map TemplateParameter.text)) := by
      refine Bracketed.join (.of_plain (by decide)) fun t mem => ?_
      obtain ⟨p, p_mem, rfl⟩ := List.mem_map.mp mem
      exact (forms p p_mem).bracketed_text
    have split := splitTemplate_list bracketed (Text.isBlank_of_isWord letter) rest
    rw [templateParams_texts forms] at split
    rw [template, Option.getD_some, ← split]
    simp

/-- The key comes off, in front of what stands behind it. -/
theorem afterPrefix_key (h : ClassHead) (t : Text) :
    (Text.afterPrefix? "class".toList (h.key ++ t)).or
      (Text.afterPrefix? "struct".toList (h.key ++ t)) = some t := by
  unfold key
  cases h.isStruct with
  | true => rfl
  | false => rfl

/-- What stands in front of the brace begins and ends with its own signs. -/
theorem trim_body (form : h.WellFormed) :
    Text.trim (h.templateText ++ (h.key ++ ' ' :: h.title)) =
      h.templateText ++ (h.key ++ ' ' :: h.title) := by
  have key : Text.trim h.key = h.key ∧ h.key ≠ [] := by
    unfold ClassHead.key
    cases h.isStruct <;> decide
  have named : Text.trim (h.key ++ ' ' :: h.title) = h.key ++ ' ' :: h.title := by
    have between := Text.trim_between [' '] key.1 form.trim_title key.2 form.filled_title
    simpa using between
  unfold templateText
  split
  · exact named
  · next ps _ =>
    have keyword : Text.trim "template".toList = "template".toList := rfl
    have between :=
      Text.trim_between ('<' :: join ", ".toList (ps.map TemplateParameter.text) ++ "> ".toList)
      keyword named (by decide) (by simp)
    simpa using between

/-- **The title of a class is read back from its spelling**: its name, its base classes in order and
without what says how they are inherited, and the names of its template parameters in order. -/
theorem classTitle_preamble {h : ClassHead} (form : h.WellFormed) :
    classTitle h.preamble =
      ⟨h.name, h.bases.map BaseSpelling.name,
        (h.template?.getD []).map TemplateParameter.name⟩ := by
  obtain ⟨c, rest, key, letter, start⟩ :
      ∃ c rest, h.key ++ ' ' :: h.title = c :: rest ∧ isWord c = true ∧ c ≠ 't' := by
    unfold ClassHead.key
    cases h.isStruct
    · exact ⟨'c', _, rfl, by decide, by decide⟩
    · exact ⟨'s', _, rfl, by decide, by decide⟩
  have text : titleText h.preamble = h.templateText ++ (h.key ++ ' ' :: h.title) := by
    rw [preamble, List.append_assoc h.templateText]
    exact titleText_brace (trim_body form) (by simp)
  have split : splitTemplate (titleText h.preamble) =
      ((h.template?.getD []).map TemplateParameter.name, h.key ++ ' ' :: h.title) := by
    rw [text, key]
    exact splitTemplate_templateText form letter start
  have blank : ∀ b ∈ [' '], isBlank b = true := by decide
  have title : Text.trim (' ' :: h.title) = h.title :=
    (Text.trim_blanks_append blank).trans form.trim_title
  unfold classTitle
  rw [split]
  dsimp only
  rw [h.afterPrefix_key, Option.getD_some, title]
  exact form.read_title _

/-- A template with a pack, a default value with a comma in it, and arguments inside arguments. -/
theorem classTitle_preamble_nestedArguments :
    ∃ h : ClassHead, h.WellFormed ∧
      h.preamble =
        ("template<class T, typename... Us, int N = f(1, 2)> class API ns::Box<int, A<T>> final" ++
        " : public virtual ::ns::Base<T, 2>, Other \x7b").toList ∧
      classTitle h.preamble =
        ⟨"ns::Box<int, A<T>>".toList, ["::ns::Base<T, 2>".toList, "Other".toList],
        ["T".toList, "Us".toList, "N".toList]⟩ := by
  have value : Bracketed " f(1, 2)".toList :=
    (Bracketed.of_plain (t := " f".toList) (by decide)).append
      (.pair (by decide) (Bracketed.of_plain (t := "1, 2".toList) (by decide)) .empty)
  have box : IsClassName "ns::Box<int, A<T>>".toList := by
    have args : Bracketed "int, A<T>".toList :=
      (Bracketed.of_plain (t := "int, A".toList) (by decide)).append
        (Bracketed.of_plain (t := "T".toList) (by decide)).enclose
    exact ⟨[], by decide, ["ns".toList, "Box<int, A<T>>".toList], by decide,
      List.forall_mem_cons.mpr ⟨⟨"ns".toList, by decide, .inl rfl⟩,
        List.forall_mem_singleton.mpr ⟨"Box".toList, by decide, .inr ⟨_, args, rfl⟩⟩⟩, rfl⟩
  have base : IsClassName "::ns::Base<T, 2>".toList := by
    have args : Bracketed "T, 2".toList := .of_plain (by decide)
    exact ⟨"::".toList, by decide, ["ns".toList, "Base<T, 2>".toList], by decide,
      List.forall_mem_cons.mpr ⟨⟨"ns".toList, by decide, .inl rfl⟩,
        List.forall_mem_singleton.mpr ⟨"Base".toList, by decide, .inr ⟨_, args, rfl⟩⟩⟩, rfl⟩
  have other : IsClassName "Other".toList :=
    ⟨[], by decide, ["Other".toList], by decide,
      List.forall_mem_singleton.mpr ⟨"Other".toList, by decide, .inl rfl⟩, rfl⟩
  have type : TemplateParameter.WellFormed ⟨"class".toList, false, "T".toList, [], none⟩ :=
    ⟨.of_plain (by decide), by decide, by decide, by decide, by decide, by decide, by simp⟩
  have pack : TemplateParameter.WellFormed ⟨"typename...".toList, false, "Us".toList, [], none⟩ :=
    ⟨.of_plain (by decide), by decide, by decide, by decide, by decide, by decide, by simp⟩
  have number : TemplateParameter.WellFormed
      ⟨"int".toList, false, "N".toList, [' '], some " f(1, 2)".toList⟩ := by
    refine ⟨.of_plain (by decide), by decide, by decide, by decide, by decide, by decide, ?_⟩
    rintro _ ⟨⟩
    exact ⟨value, by decide⟩
  have form : WellFormed
      ⟨some [⟨"class".toList, false, "T".toList, [], none⟩,
          ⟨"typename...".toList, false, "Us".toList, [], none⟩,
          ⟨"int".toList, false, "N".toList, [' '], some " f(1, 2)".toList⟩],
        false, ["API".toList], "ns::Box<int, A<T>>".toList, true,
        [⟨["public".toList, "virtual".toList], "::ns::Base<T, 2>".toList⟩,
          ⟨[], "Other".toList⟩]⟩ := by
    refine ⟨?_, by decide, box, by decide, by decide, ?_⟩
    · rintro _ ⟨⟩
      exact List.forall_mem_cons.mpr ⟨type,
        List.forall_mem_cons.mpr ⟨pack, List.forall_mem_singleton.mpr number⟩⟩
    · exact List.forall_mem_cons.mpr ⟨⟨by decide, base, by decide⟩,
        List.forall_mem_singleton.mpr ⟨by decide, other, by decide⟩⟩
  exact ⟨_, form, by decide +kernel, classTitle_preamble form⟩

end ClassHead

end Outline
end AccessorCatalog

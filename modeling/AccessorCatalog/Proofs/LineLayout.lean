/-
# One brace or statement a line

The layout of a normalized header comes about in three steps: line breaks are put in at braces and
semicolons, the break between a closing brace and its semicolon goes again, and access labels end
their lines.  Then the lines are trimmed and the empty ones are dropped.  `normalize_laidOut` says
what is left of each step at the end of them, whatever the text was.

* `LineForm`: what a line looks like; its neighbours are known from `Laid` and from `BreakBehind`,
  which the replacements keep.
* `LabelsEnd`: a label ends its line.  `labelsEnd_replaceMatches` finds the label of the result
  again in the text before the replacement, from the letter that a label starts with.
* `DropsBlank`: trimming takes blanks away, one at a time and only at an end of a line.  What is
  kept by one such step is kept by all of them (`drops_trimmedLines`).
-/
import Mathlib.Logic.Relation
import AccessorCatalog.Proofs.Columns
import AccessorCatalog.Proofs.Layout
import AccessorCatalog.Proofs.Spacing

namespace AccessorCatalog.Source

open Relation (ReflTransGen)
open Text (isBlank isWord isWordAt lastOf replaceMatches replaceMatchesFrom)

/-! ## 1. Line breaks behind a character -/

theorem isChain_breakLines (t : Text) : (breakLines t).IsChain (BreakBehind ';') := by
  induction t with
  | nil => exact .nil
  | cons c t ih =>
    have behind_break : ('\n' :: breakLines t).IsChain (BreakBehind ';') :=
      isChain_breakBehind_cons (by decide) ih
    unfold breakLines
    rw [List.flatMap_cons]
    split
    · exact isChain_breakBehind_cons (by decide) behind_break
    · split
      · exact .cons_cons (fun _ => rfl) behind_break
      · split
        · exact isChain_breakBehind_cons (by decide)
            (isChain_breakBehind_cons (by decide) behind_break)
        · next _ other _ => exact isChain_breakBehind_cons other ih

theorem fills_closeWithSemicolon {before : Option Char} {c : Char} {t : Text} {n : Nat}
    (found : closeWithSemicolon before (c :: t) = some n) :
    Fills (BreakBehind ';') (c :: t.take (n - 1)) ['\x7d', ';'] := by
  obtain ⟨gap, taken, -⟩ := closeWithSemicolon_takes.form found
  rw [taken]
  refine ⟨rfl, isChain_breakBehind_cons (by decide) (.singleton _), ?_⟩
  intro x last_image z last_taken y near
  rw [← List.cons_append, List.getLast?_concat] at last_taken
  cases last_image
  cases last_taken
  exact near

/-! ## 2. What is written for a label -/

/-- An access word that a text starts with is known from the text. -/
theorem eq_of_accessWords_append {word word' s s' : Text} (mem : word ∈ accessWords)
    (mem' : word' ∈ accessWords) (same : word ++ s = word' ++ s') : word = word' := by
  have all : ∀ word ∈ accessWords, ∀ word' ∈ accessWords, word <+: word' → word = word' := by decide
  rcases List.prefix_or_prefix_of_prefix (List.prefix_append word s)
    (same ▸ List.prefix_append word' s') with left | right
  · exact all word mem word' mem' left
  · exact (all word' mem' word mem right).symm

/-- An access word has its first letter only once. -/
theorem exists_of_accessWords {word : Text} (mem : word ∈ accessWords) :
    ∃ rest, word = 'p' :: rest ∧ 'p' ∉ rest ∧ ∀ c ∈ word, isWord c = true := by
  have all : ∀ word ∈ accessWords, word.head? = some 'p' ∧ 'p' ∉ word.tail ∧
      ∀ c ∈ word, isWord c = true := by decide
  obtain ⟨head, once, letters⟩ := all word mem
  obtain ⟨rest, rfl⟩ := List.head?_eq_some_iff.mp head
  exact ⟨rest, rfl, once, letters⟩

variable {before : Option Char} {c : Char} {t : Text} {n : Nat}

/-- A label ends with its colon, which is no letter. -/
theorem isWordAt_lastOf_label (found : accessLabel before (c :: t) = some n) (b : Option Char) :
    isWordAt (lastOf b (c :: t.take (n - 1))) = false := by
  obtain ⟨word, gap, colons, taken, -, filled, colon, -⟩ := accessLabel_takes.form found
  have last : colons.getLast? = some ':' := by
    rw [List.getLast?_eq_some_getLast filled, colon _ (List.getLast_mem filled)]
  rw [taken, lastOf, List.getLast?_append, last]
  exact (by decide : isWord ':' = false)

/-- What is written for a label: its word, blanks and a colon, and then another colon or the end of
the line. -/
theorem exists_endLabel (found : accessLabel before (c :: t) = some n) :
    ∃ word gap d more, endLabel (c :: t.take (n - 1)) = word ++ (gap ++ ':' :: d :: more) ∧
      word ∈ accessWords ∧ (∀ b ∈ gap, isBlank b = true) ∧ ∀ e ∈ d :: more, e = ':' ∨ e = '\n' := by
  obtain ⟨word, gap, colons, taken, mem, filled, colon, blank⟩ := accessLabel_takes.form found
  obtain ⟨first, colons, rfl⟩ := List.exists_cons_of_ne_nil filled
  obtain rfl := colon first List.mem_cons_self
  have more_colons : ∀ e ∈ colons, e = ':' := fun e e_mem => colon e (List.mem_cons_of_mem _ e_mem)
  rw [taken]
  unfold endLabel
  split
  · next ended =>
    cases colons with
    | nil =>
      -- a single colon follows a letter or a blank, so the label does not end in two
      have two : [':'] ++ [':'] <:+ (word ++ gap) ++ [':'] := by simpa [Text.endsWith] using ended
      obtain ⟨front, same⟩ := two
      rw [← List.append_assoc] at same
      have lead : front ++ [':'] = word ++ gap := List.append_cancel_right same
      have colon_mem : ':' ∈ word ++ gap := by simp [← lead]
      rcases List.mem_append.mp colon_mem with in_word | in_gap
      · obtain ⟨-, -, -, letters⟩ := exists_of_accessWords mem
        exact absurd (letters _ in_word) (by decide)
      · exact absurd (blank _ in_gap) (by decide)
    | cons d more =>
      exact ⟨word, gap, d, more, by simp, mem, blank, fun e e_mem => .inl (more_colons e e_mem)⟩
  · have word_solid : solid word = word := by
      have all : ∀ word ∈ accessWords, solid word = word := by decide
      exact all word mem
    have colons_solid : solid (':' :: colons) = ':' :: colons :=
      solid_of_solid fun e e_mem => by rw [colon e e_mem]; decide
    rw [solid_append, solid_append, word_solid, solid_of_blank blank, colons_solid]
    refine ⟨word, [], (colons ++ ['\n']).head (by simp), (colons ++ ['\n']).tail,
      ?_, mem, by simp, ?_⟩
    · rw [List.cons_head_tail]
      simp
    · rw [List.cons_head_tail]
      intro e e_mem
      rcases List.mem_append.mp e_mem with e_mem | e_mem
      · exact .inl (more_colons e e_mem)
      · exact .inr (List.mem_singleton.mp e_mem)

/-- It has one letter of the kind that a label starts with, ends with no letter, and holds no
semicolon. -/
theorem endLabel_parts (found : accessLabel before (c :: t) = some n) :
    ∃ rest, endLabel (c :: t.take (n - 1)) = 'p' :: rest ∧ 'p' ∉ rest ∧
      (∀ b, isWordAt (lastOf b (endLabel (c :: t.take (n - 1)))) = false) ∧
      ';' ∉ endLabel (c :: t.take (n - 1)) := by
  obtain ⟨word, gap, d, more, image, mem, blank, ends⟩ := exists_endLabel found
  obtain ⟨rest, rfl, once, letters⟩ := exists_of_accessWords mem
  refine ⟨rest ++ (gap ++ ':' :: d :: more), image, ?_, fun b => ?_, ?_⟩
  · have in_gap : 'p' ∉ gap := fun p_mem => absurd (blank _ p_mem) (by decide)
    have in_ends : 'p' ∉ d :: more := fun p_mem => absurd (ends _ p_mem) (by decide)
    simp only [List.mem_append, List.mem_cons (b := ':'), not_or]
    exact ⟨once, in_gap, by decide, in_ends⟩
  · have split : endLabel (c :: t.take (n - 1)) = ('p' :: rest ++ (gap ++ [':'])) ++ d :: more := by
      rw [image]
      simp
    have filled : d :: more ≠ [] := List.cons_ne_nil d more
    have separator : isWord ((d :: more).getLast filled) = false := by
      rcases ends _ (List.getLast_mem filled) with last | last <;> rw [last] <;> decide
    rw [split, lastOf, List.getLast?_append, List.getLast?_eq_some_getLast filled]
    exact separator
  · rw [image]
    intro semicolon
    rcases List.mem_append.mp semicolon with in_word | behind
    · exact absurd (letters _ in_word) (by decide)
    · rcases List.mem_append.mp behind with in_gap | in_ends
      · exact absurd (blank _ in_gap) (by decide)
      · rcases List.mem_cons.mp in_ends with colon | in_ends
        · cases colon
        · exact absurd (ends _ in_ends) (by decide)

theorem fills_endLabel (found : accessLabel before (c :: t) = some n) :
    Fills (BreakBehind ';') (c :: t.take (n - 1)) (endLabel (c :: t.take (n - 1))) := by
  obtain ⟨-, -, -, -, no_semicolon⟩ := endLabel_parts found
  refine ⟨(refits_accessLabel found).head, isChain_breakBehind_of_not_mem no_semicolon, ?_⟩
  rintro x last_image _ _ y _ rfl
  exact absurd (List.mem_of_getLast? last_image) no_semicolon

/-! ## 3. Labels -/

/-- A label in a text: an access word that starts at a word boundary, blanks and a colon. -/
structure Label (t front word gap rest : Text) : Prop where
  text : t = front ++ (word ++ (gap ++ ':' :: rest))
  access : word ∈ accessWords
  blank : ∀ b ∈ gap, isBlank b = true
  start : isWordAt front.getLast? = false

/-- Behind the colon of a label there is nothing more in its line, unless it is a second colon. -/
def LabelsEnd (t : Text) : Prop :=
  ∀ front word gap rest, Label t front word gap rest → ∀ d ∈ rest.head?, d = ':' ∨ d = '\n'

/-- A label in front of a text is taken. -/
theorem accessLabel_label {word gap : Text} (mem : word ∈ accessWords)
    (blank : ∀ b ∈ gap, isBlank b = true) (start : isWordAt before = false) (rest : Text) :
    accessLabel before (word ++ (gap ++ ':' :: rest)) ≠ none := by
  obtain ⟨letters, rfl, -, -⟩ := exists_of_accessWords mem
  have boundary : Text.atBoundary before ('p' :: letters ++ (gap ++ ':' :: rest)) = true := by
    rw [Text.atBoundary, start]
    exact (by decide : (false != isWord 'p') = true)
  have length : Text.countWhile isBlank (gap ++ ':' :: rest) = gap.length := by
    rw [Text.countWhile, takeWhile_append_stop (by decide), List.takeWhile_eq_self_iff.mpr blank]
  intro none_taken
  rw [accessLabel, if_pos boundary, List.findSome?_eq_none_iff] at none_taken
  have here := none_taken _ mem
  rw [Text.afterPrefix?_eq_some.mpr rfl, Option.bind_some] at here
  dsimp only at here
  rw [length, List.drop_left] at here
  split at here <;> simp_all

/-- A stretch of the result without the letter that labels start with stands in the text as well. -/
theorem exists_of_replaceMatches_stretch {s rest : Text} (plain : 'p' ∉ s)
    (same : replaceMatchesFrom accessLabel endLabel before t = s ++ rest) :
    ∃ b u, t = s ++ u ∧ rest = replaceMatchesFrom accessLabel endLabel b u := by
  induction s generalizing before t with
  | nil => exact ⟨before, t, rfl, same.symm⟩
  | cons x s ih =>
    cases t with
    | nil =>
      rw [Text.replaceMatchesFrom_nil] at same
      cases same
    | cons c t =>
      cases found : accessLabel before (c :: t) with
      | none =>
        rw [Text.replaceMatches_cons_none found] at same
        obtain ⟨rfl, later⟩ := List.cons.inj same
        obtain ⟨b, u, rfl, behind⟩ := ih (List.not_mem_of_not_mem_cons plain) later
        exact ⟨b, u, rfl, behind⟩
      | some n =>
        obtain ⟨image, starts, -⟩ := endLabel_parts found
        rw [Text.replaceMatches_cons_some found, starts] at same
        obtain ⟨rfl, -⟩ := List.cons.inj same
        exact absurd List.mem_cons_self plain

/-- Every letter of the result that labels start with is one of the text, and what follows it there
is replaced from that letter on. -/
theorem exists_of_replaceMatches_letter {b : Option Char} {front rest : Text}
    (sides : isWordAt b = isWordAt before)
    (same : replaceMatchesFrom accessLabel endLabel before t = front ++ 'p' :: rest) :
    ∃ b' u, isWordAt b' = isWordAt (lastOf b front) ∧
      'p' :: rest = replaceMatchesFrom accessLabel endLabel b' ('p' :: u) := by
  fun_induction replaceMatchesFrom accessLabel endLabel before t generalizing b front
  case case1 => simp at same
  case case2 before c t n found taken ih =>
    obtain ⟨image, starts, once, edge, -⟩ := endLabel_parts found
    cases front with
    | nil =>
      obtain ⟨letter, -⟩ := accessLabel_eq_some found
      obtain rfl : c = 'p' := by simpa using letter
      refine ⟨before, t, sides.symm, ?_⟩
      rw [Text.replaceMatches_cons_some found]
      exact same.symm
    | cons d front =>
      -- the image has its letter in front, so the one that is meant lies behind it
      obtain ⟨behind, cut, later⟩ : ∃ behind, d :: front = endLabel taken ++ behind ∧
          replaceMatchesFrom accessLabel endLabel (lastOf before taken) (t.drop (n - 1)) =
            behind ++ 'p' :: rest := by
        rcases List.append_eq_append_iff.mp same with ⟨behind, cut, later⟩ | ⟨inside, cut, later⟩
        · exact ⟨behind, cut, later⟩
        · cases inside with
          | nil => exact ⟨[], by simpa using cut.symm, by simpa using later.symm⟩
          | cons x inside =>
            obtain ⟨rfl, -⟩ := List.cons.inj later
            rw [show endLabel taken = 'p' :: image from starts] at cut
            obtain ⟨-, rfl⟩ := List.cons.inj cut
            exact absurd (List.mem_append_right front List.mem_cons_self) once
      rw [cut, Text.lastOf_append]
      exact ih ((edge b).trans (isWordAt_lastOf_label found before).symm) later
  case case3 before c t found ih =>
    cases front with
    | nil =>
      obtain ⟨rfl, behind⟩ := List.cons.inj same
      refine ⟨before, t, sides.symm, ?_⟩
      rw [Text.replaceMatches_cons_none found, behind]
    | cons d front =>
      obtain ⟨rfl, behind⟩ := List.cons.inj same
      obtain ⟨b', u, here, later⟩ := ih rfl behind
      rw [Text.lastOf_cons]
      exact ⟨b', u, here, later⟩

/-- **Labels end their lines** where they are written out. -/
theorem labelsEnd_replaceMatches (t : Text) :
    LabelsEnd (replaceMatches accessLabel endLabel t) := by
  intro front word gap rest label
  obtain ⟨letters, rfl, once, -⟩ := exists_of_accessWords label.access
  obtain ⟨b, u, start, here⟩ := exists_of_replaceMatches_letter (b := none) rfl label.text
  have boundary : isWordAt b = false := by
    rw [start, lastOf, Option.or_none]
    exact label.start
  cases found : accessLabel b ('p' :: u) with
  | none =>
    -- then the whole label stands in the text, and would have been taken
    rw [Text.replaceMatches_cons_none found] at here
    obtain ⟨-, behind⟩ := List.cons.inj here
    have split : letters ++ (gap ++ ':' :: rest) = (letters ++ gap ++ [':']) ++ rest := by simp
    have plain : 'p' ∉ letters ++ gap ++ [':'] := by
      have in_gap : 'p' ∉ gap := fun p_mem => absurd (label.blank _ p_mem) (by decide)
      simp [once, in_gap]
    obtain ⟨-, v, rfl, -⟩ :=
      exists_of_replaceMatches_stretch plain (behind.symm.trans split)
    have taken := accessLabel_label label.access label.blank boundary v
    rw [← found] at taken
    exact absurd (by simp) taken
  | some n =>
    obtain ⟨word', gap', d, more, image, mem', blank', ends⟩ := exists_endLabel found
    rw [Text.replaceMatches_cons_some found, image, List.append_assoc, List.append_assoc] at here
    have whole : ('p' :: letters) ++ (gap ++ ':' :: rest) =
        word' ++ (gap' ++ ((':' :: d :: more) ++ _)) := here
    obtain rfl := eq_of_accessWords_append label.access mem' whole
    have behind_word := List.append_cancel_left whole
    have gaps : gap = gap' := by
      have run := congrArg (List.takeWhile isBlank) behind_word
      rwa [List.cons_append, takeWhile_append_stop (by decide), takeWhile_append_stop (by decide),
        List.takeWhile_eq_self_iff.mpr label.blank, List.takeWhile_eq_self_iff.mpr blank'] at run
    subst gaps
    obtain ⟨-, rfl⟩ := List.cons.inj (List.append_cancel_left behind_word)
    intro e e_head
    cases e_head
    exact ends _ List.mem_cons_self

/-! ## 4. Trimming -/

/-- Where a cut through a text with a label lies. -/
theorem cut_cases {front behind lead word gap rest : Text}
    (same : front ++ behind = lead ++ (word ++ (gap ++ ':' :: rest))) :
    (∃ x, lead = front ++ x ∧ behind = x ++ (word ++ (gap ++ ':' :: rest))) ∨
    (∃ x y, x ≠ [] ∧ y ≠ [] ∧ word = x ++ y ∧ front = lead ++ x ∧
      behind = y ++ (gap ++ ':' :: rest)) ∨
    (∃ x y, gap = x ++ y ∧ front = lead ++ (word ++ x) ∧ behind = y ++ ':' :: rest) ∨
    ∃ x, front = lead ++ (word ++ (gap ++ ':' :: x)) ∧ rest = x ++ behind := by
  rcases List.append_eq_append_iff.mp same with in_lead | ⟨x, rfl, split⟩
  · exact .inl in_lead
  · rcases List.append_eq_append_iff.mp split with ⟨y, rfl, behind_word⟩ | ⟨y, rfl, rfl⟩
    · rcases List.append_eq_append_iff.mp behind_word with ⟨z, rfl, behind_gap⟩ | ⟨z, rfl, rfl⟩
      · cases z with
        | nil =>
          exact .inr (.inr (.inl ⟨gap, [], by simp, by simp, by simpa using behind_gap.symm⟩))
        | cons c z =>
          obtain ⟨rfl, rfl⟩ := List.cons.inj behind_gap
          exact .inr (.inr (.inr ⟨z, rfl, rfl⟩))
      · exact .inr (.inr (.inl ⟨y, z, rfl, rfl, rfl⟩))
    · by_cases some_x : x = []
      · exact .inl ⟨[], by simp [some_x], by simp [some_x]⟩
      · by_cases some_y : y = []
        · exact .inr (.inr (.inl ⟨[], gap, rfl, by simp [some_y], by simp [some_y]⟩))
        · exact .inr (.inl ⟨x, y, some_x, some_y, rfl, rfl, rfl⟩)

/-- A place at which a line starts or ends. -/
def LineEdge (front behind : Text) : Prop :=
  (∀ c ∈ front.getLast?, c = '\n') ∨ ∀ c ∈ behind.head?, c = '\n'

/-- One blank at an end of a line goes. -/
inductive DropsBlank : Text → Text → Prop
  | mk {front behind : Text} {b : Char} : isBlank b = true → LineEdge front behind →
      DropsBlank (front ++ b :: behind) (front ++ behind)

namespace DropsBlank

variable {s s' t t' : Text}

theorem first {b : Char} (blank : isBlank b = true) (t : Text) : DropsBlank (b :: t) t := by
  have edge : LineEdge [] t := .inl (by simp)
  exact .mk blank edge

theorem behind_line (h : DropsBlank t t') (s : Text) :
    DropsBlank (s ++ '\n' :: t) (s ++ '\n' :: t') := by
  obtain @⟨front, behind, b, blank, edge⟩ := h
  rw [← List.cons_append, ← List.cons_append, ← List.append_assoc, ← List.append_assoc]
  refine .mk blank (edge.imp_left fun start c last => ?_)
  rw [List.getLast?_append, List.getLast?_cons] at last
  cases at_end : front.getLast? with
  | none =>
    rw [at_end] at last
    exact (Option.some.inj last).symm
  | some d =>
    rw [at_end] at last
    exact start c (at_end.trans last)

theorem before_line (h : DropsBlank s s') (t : Text) :
    DropsBlank (s ++ '\n' :: t) (s' ++ '\n' :: t) := by
  obtain @⟨front, behind, b, blank, edge⟩ := h
  rw [List.append_assoc, List.append_assoc, List.cons_append]
  refine .mk blank (edge.imp_right fun ended c first => ?_)
  cases behind with
  | nil => exact (Option.some.inj first).symm
  | cons d behind => exact ended c first

/-- Inside a word no line starts or ends. -/
theorem not_lineEdge {front x y behind : Text} (some_x : x ≠ []) (some_y : y ≠ [])
    (letters : ∀ c ∈ x ++ y, Text.isWord c = true) : ¬ LineEdge (front ++ x) (y ++ behind) := by
  have no_break : ∀ c ∈ x ++ y, c ≠ '\n' := by
    rintro c mem rfl
    exact absurd (letters _ mem) (by decide)
  rintro (start | ended)
  · refine no_break _ (List.mem_append_left y (List.getLast_mem some_x)) (start _ ?_)
    rw [List.getLast?_append, List.getLast?_eq_some_getLast some_x]
    rfl
  · refine no_break _ (List.mem_append_right x (List.head_mem some_y)) (ended _ ?_)
    rw [List.head?_append, List.head?_eq_some_head some_y]
    rfl

/-- **Labels keep the end of their lines.**  A blank that goes stands in front of a label, between
its word and its colon, or behind it, and never inside the word. -/
theorem labelsEnd (h : DropsBlank s t) (labels : LabelsEnd s) : LabelsEnd t := by
  obtain @⟨front, behind, b, blank, edge⟩ := h
  intro lead word gap rest label
  obtain ⟨-, -, -, letters⟩ := exists_of_accessWords label.access
  rcases cut_cases label.text with ⟨x, rfl, rfl⟩ | ⟨x, y, some_x, some_y, rfl, rfl, rfl⟩ |
    ⟨x, y, rfl, rfl, rfl⟩ | ⟨x, rfl, rfl⟩
  · -- in front of the label
    refine labels (front ++ b :: x) word gap rest ⟨by simp, label.access, label.blank, ?_⟩
    have start := label.start
    rw [List.getLast?_append, List.getLast?_cons]
    cases last : x.getLast? with
    | none => exact Text.isWord_of_isBlank blank
    | some c =>
      rw [List.getLast?_append, last] at start
      exact start
  · -- inside its word
    exact absurd edge (not_lineEdge some_x some_y letters)
  · -- between its word and its colon
    refine labels lead word (x ++ b :: y) rest ⟨by simp, label.access, ?_, label.start⟩
    intro c mem
    rcases List.mem_append.mp mem with left | right
    · exact label.blank c (List.mem_append_left y left)
    · rcases List.mem_cons.mp right with rfl | right
      · exact blank
      · exact label.blank c (List.mem_append_right x right)
  · -- behind its colon
    have behind_colon := labels lead word gap (x ++ b :: behind)
      ⟨by simp, label.access, label.blank, label.start⟩
    cases x with
    | cons e x => exact behind_colon
    | nil =>
      intro d first
      rcases edge with start | ended
      · have line_break := start ':' (by simp [← List.append_assoc])
        exact absurd line_break (by decide)
      · exact .inr (ended d first)

end DropsBlank

/-- The blanks at the two ends of a line go one by one. -/
theorem drops_trim (t : Text) : ReflTransGen DropsBlank t (Text.trim t) := by
  have leading (lead t : Text) (blank : ∀ b ∈ lead, isBlank b = true) :
      ReflTransGen DropsBlank (lead ++ t) t := by
    induction lead with
    | nil => exact .refl
    | cons b lead ih =>
      exact .head (.first (blank b List.mem_cons_self) (lead ++ t))
        (ih fun c mem => blank c (List.mem_cons_of_mem b mem))
  have trailing (t tail : Text) (blank : ∀ b ∈ tail, isBlank b = true) :
      ReflTransGen DropsBlank (t ++ tail) t := by
    induction tail using List.reverseRecOn with
    | nil => rw [List.append_nil]
    | append_singleton tail b ih =>
      have last : DropsBlank ((t ++ tail) ++ [b]) ((t ++ tail) ++ []) :=
        .mk (blank b (by simp)) (.inr (by simp))
      rw [List.append_nil, List.append_assoc] at last
      exact .head last (ih fun c mem => blank c (List.mem_append_left [b] mem))
  have start := leading (t.takeWhile isBlank) (Text.trimStart t) fun b => List.mem_takeWhile_imp
  have ends := trailing (Text.trim t) ((Text.trimStart t).reverse.takeWhile isBlank).reverse
    fun b mem => List.mem_takeWhile_imp (List.mem_reverse.mp mem)
  rw [Text.trimStart, Text.dropStart, List.takeWhile_append_dropWhile] at start
  rw [Text.trim, Text.trimEnd, dropEnd_append] at ends
  exact start.trans ends

/-- **The trimmed lines of a text** are what is left of it without some blanks at the ends of
lines. -/
theorem drops_trimmedLines (t : Text) :
    ReflTransGen DropsBlank t (Text.join ['\n'] (trimmedLines t)) := by
  induction t using splitOn_induction (c := '\n') with
  | last t single =>
    have line : Text.join ['\n'] (trimmedLines t) = Text.trim t := by
      rw [trimmedLines_of_not_mem single]
      split
      · next empty => rw [List.isEmpty_iff.mp empty]; rfl
      · simp [Text.join]
    rw [line]
    exact drops_trim t
  | more s t single ih =>
    have lines : ReflTransGen DropsBlank (s ++ '\n' :: t)
        (Text.trim s ++ '\n' :: Text.join ['\n'] (trimmedLines t)) :=
      (ih.lift (s ++ '\n' :: ·) fun _ _ drop => drop.behind_line s).trans
        ((drops_trim s).lift (· ++ '\n' :: _) fun _ _ drop => drop.before_line _)
    rw [trimmedLines_append, trimmedLines_of_not_mem single]
    split
    · next empty =>
      rw [List.isEmpty_iff.mp empty] at lines
      exact lines.tail (.first (by decide) _)
    · cases rest : trimmedLines t with
      | nil =>
        rw [rest] at lines
        have last : DropsBlank (Text.trim s ++ ['\n']) (Text.trim s ++ []) :=
          .mk (by decide) (.inr (by simp))
        simpa [Text.join] using lines.tail last
      | cons next more =>
        rw [rest] at lines
        simpa [join_cons_cons] using lines

/-- What is kept by a step is kept by all of them. -/
theorem LabelsEnd.of_drops {s t : Text} (labels : LabelsEnd s)
    (drops : ReflTransGen DropsBlank s t) :
    LabelsEnd t := by
  induction drops with
  | refl => exact labels
  | tail _ drop ih => exact drop.labelsEnd ih

/-! ## 5. Lines -/

/-- What a line of a normalized header looks like. -/
structure LineForm (line : Text) : Prop where
  filled : line ≠ []
  trimmed : Text.trim line = line
  openLast : ∀ front behind, line = front ++ '\x7b' :: behind → behind = []
  semicolonLast : ∀ front behind, line = front ++ ';' :: behind → behind = []
  closeAlone : ∀ front behind, line = front ++ '\x7d' :: behind →
    front = [] ∧ (behind = [] ∨ behind = [';'])

/-- What ends lines is only at the end of a line. -/
theorem eq_nil_of_breakBehind {k : Char} {line front behind : Text}
    (ends : line.IsChain (BreakBehind k)) (single : '\n' ∉ line)
    (here : line = front ++ k :: behind) : behind = [] := by
  cases behind with
  | nil => rfl
  | cons b behind =>
    rw [here] at ends single
    have line_break : b = '\n' := (List.isChain_append_cons_cons.mp ends).2.1 rfl
    exact absurd (by simp [line_break]) single

theorem filled_of_mem_trimmedLines {t line : Text} (mem : line ∈ trimmedLines t) : line ≠ [] := by
  rintro rfl
  exact absurd (List.mem_filter.mp mem).2 (by decide)

theorem trim_of_mem_trimmedLines {t line : Text} (mem : line ∈ trimmedLines t) :
    Text.trim line = line := by
  obtain ⟨l, -, rfl⟩ := List.mem_map.mp (List.mem_filter.mp mem).1
  exact Text.trim_of_edges (Text.trim_edges l).1 (Text.trim_edges l).2

theorem lineForm_of_mem_trimmedLines {t line : Text} (laid : Laid t)
    (ends : t.IsChain (BreakBehind ';')) (mem : line ∈ trimmedLines t) : LineForm line := by
  have inside := infix_of_mem_trimmedLines mem
  have single := not_mem_of_mem_trimmedLines mem
  have fits : Laid line := laid.infix inside
  have semicolon (front behind : Text) (here : line = front ++ ';' :: behind) : behind = [] :=
    eq_nil_of_breakBehind ( ends.infix inside) single here
  refine ⟨filled_of_mem_trimmedLines mem, trim_of_mem_trimmedLines mem, ?_, semicolon, ?_⟩
  · intro front behind here
    exact eq_nil_of_breakBehind fits.breakBehind single here
  · rintro front behind rfl
    constructor
    · induction front using List.reverseRecOn with
      | nil => rfl
      | append_singleton front a _ =>
        rw [List.append_assoc] at fits
        have line_break : a = '\n' := fits.fits.beforeClose rfl
        exact absurd (by simp [line_break]) single
    · cases behind with
      | nil => exact .inl rfl
      | cons b behind =>
        rcases fits.fits.afterClose rfl with rfl | rfl
        · exact absurd (by simp) single
        · obtain rfl := semicolon (front ++ ['\x7d']) behind (by simp)
          exact .inr rfl

theorem splitOn_join {lines : List Text} (single : ∀ line ∈ lines, '\n' ∉ line)
    (some_line : lines ≠ []) :
    Text.splitOn '\n' (Text.join ['\n'] lines) = lines := by
  induction lines with
  | nil => exact absurd rfl some_line
  | cons line lines ih =>
    have first := single line List.mem_cons_self
    cases lines with
    | nil => simpa [Text.join] using splitOn_of_not_mem first
    | cons next lines =>
      rw [join_cons_cons, List.append_assoc, List.singleton_append, splitOn_append,
        splitOn_of_not_mem first,
        ih (fun l mem => single l (List.mem_cons_of_mem line mem)) (by simp)]
      rfl

/-- Trimmed lines that are joined are read again. -/
theorem lines_join_trimmedLines (t : Text) :
    Text.lines (Text.join ['\n'] (trimmedLines t)) = trimmedLines t := by
  by_cases none_left : trimmedLines t = []
  · rw [none_left]
    rfl
  · have kept (line : Text) (mem : line ∈ trimmedLines t) :
        Text.withoutSuffix ['\r'] line = line := by
      unfold Text.withoutSuffix
      cases found : Text.beforeSuffix? ['\r'] line with
      | none => rfl
      | some rest =>
        -- a line does not end in a blank
        have last := (Text.trim_edges line).2 '\r' (by
          rw [trim_of_mem_trimmedLines mem, beforeSuffix_eq_some.mp found]
          exact List.getLast?_concat)
        exact absurd last (by decide)
    obtain ⟨front, last, cut⟩ := (List.eq_nil_or_concat (trimmedLines t)).resolve_left none_left
    rw [List.concat_eq_append] at cut
    have front_kept : front.map (Text.withoutSuffix ['\r']) = front := by
      refine (List.map_congr_left fun line mem => kept line ?_).trans (List.map_id _)
      rw [cut]
      exact List.mem_append_left _ mem
    have filled : last.isEmpty = false := by
      have mem : last ∈ trimmedLines t := by simp [cut]
      simpa using filled_of_mem_trimmedLines mem
    have pieces : Text.splitOn '\n' (Text.join ['\n'] (trimmedLines t)) = front ++ [last] :=
      (splitOn_join (fun line => not_mem_of_mem_trimmedLines) none_left).trans cut
    rw [Text.lines_of_splitOn pieces, front_kept, filled, cut]
    rfl

/-- **A normalized header is laid out**, whatever the text was.

* No line is empty or has blanks at an end; braces that open and semicolons come last in their
  lines; a brace that closes is alone in its line, but for a semicolon.
* What stands behind the colon of an access label is on a later line. -/
theorem normalize_laidOut (t : Text) :
    (∀ line ∈ Text.lines (normalize t), LineForm line) ∧ LabelsEnd (normalize t) := by
  let broken := breakLines (joinOperatorName (canonicalSpacing (programText t)))
  let closed := replaceMatches closeWithSemicolon (fun _ => ['\x7d', ';']) broken
  let labelled := replaceMatches accessLabel endLabel closed
  have laid : Laid labelled :=
    (laid_replaceMatchesFrom (fun _ _ _ _ => refits_accessLabel)
      (laid_replaceMatchesFrom (fun _ _ _ _ => refits_closeWithSemicolon) (laid_breakLines _)).1).1
  have ends : labelled.IsChain (BreakBehind ';') :=
    (isChain_replaceMatchesFrom (fun _ _ _ _ => fills_endLabel)
      (isChain_replaceMatchesFrom (fun _ _ _ _ => fills_closeWithSemicolon)
        (isChain_breakLines _)).1).1
  constructor
  · intro line mem
    have mem : line ∈ trimmedLines labelled := by
      rw [← lines_join_trimmedLines]
      exact mem
    exact lineForm_of_mem_trimmedLines laid ends mem
  · exact (labelsEnd_replaceMatches closed).of_drops (drops_trimmedLines labelled)

end AccessorCatalog.Source

/-
# Lexemes

The *lexemes* of a text are its maximal runs of word characters and, one by one, its other
characters that are no blanks.  They are what a reader of the program sees; blanks only say where a
run of word characters ends.

Blanks may therefore come and go next to a *separator*, a character that is no word character, and
nowhere else.  `SameLexemes s t` says that one text may stand for the other in every context.  It is
a congruence, so a replacement is judged by what it does to a single stretch:

* `sameLexemes_blanks_before`, `sameLexemes_blanks_behind`: blanks beside a separator;
* `sameLexemes_replaceMatches`: replacing stretches by others with the same lexemes;
* `lexemes_trim`, `lexemes_join_trimmedLines`: at the ends of a text and of its lines all blanks may
  go.
-/
import Mathlib.Data.List.TakeWhile
import AccessorCatalog.Proofs.Lines
import AccessorCatalog.Text.Nesting

namespace AccessorCatalog

/-! ## 1. Blanks are no word characters -/

namespace Text

/-- A question about every character of a text is decided along the text. -/
instance decidableForallMem (p : Char → Prop) [DecidablePred p] (t : Text) :
    Decidable (∀ c ∈ t, p c) :=
  List.decidableBAll p t

instance decidableForallMemOption (p : Char → Prop) [DecidablePred p] (c? : Option Char) :
    Decidable (∀ c ∈ c?, p c) :=
  c?.decidableForallMem

/-- The code points of the blanks, in rows: a first one, and how many there are from it on. -/
def blankRows : List (Nat × Nat) :=
  [(0x09, 5), (0x20, 1), (0x85, 1), (0xa0, 1), (0x1680, 1), (0x2000, 11), (0x2028, 2), (0x202f, 1),
    (0x205f, 1), (0x3000, 1)]

theorem exists_blankRow {c : Char} (h : isBlank c = true) :
    ∃ row ∈ blankRows, row.1 ≤ c.toNat ∧ c.toNat < row.1 + row.2 := by
  have at_most {a b : Char} : a ≤ b ↔ a.toNat ≤ b.toNat := Iff.rfl
  simp only [isBlank, Bool.or_eq_true, Bool.and_eq_true, beq_iff_eq, decide_eq_true_eq, at_most,
    ← Char.toNat_inj] at h
  simp [blankRows] at h ⊢
  omega

/-- No blank of any script is a word character. -/
theorem isWord_of_isBlank {c : Char} (h : isBlank c = true) : isWord c = false := by
  have rows : ∀ row ∈ blankRows, ∀ k < row.2, isWord (Char.ofNat (row.1 + k)) = false := by
    decide +kernel
  obtain ⟨row, mem, first, last⟩ := exists_blankRow h
  have at_row := rows row mem (c.toNat - row.1) (by omega)
  rwa [Nat.add_sub_cancel' first, Char.ofNat_toNat] at at_row

theorem isBlank_of_isWord {c : Char} (h : isWord c = true) : isBlank c = false := by
  cases blank : isBlank c with
  | false => rfl
  | true =>
    rw [isWord_of_isBlank blank] at h
    cases h

theorem ne_of_isWord {c d : Char} (h : isWord c = true) (no_word : isWord d = false) : c ≠ d := by
  rintro rfl
  rw [h] at no_word
  cases no_word

end Text

namespace Source

open Text (isBlank isWord)

/-! ## 2. Lexemes -/

/-- The lexemes of a text, in order: its maximal runs of word characters, and each other character
that is no blank. -/
def lexemes : Text → List Text
  | [] => []
  | c :: t =>
    if isWord c then (c :: t.takeWhile isWord) :: lexemes (t.dropWhile isWord)
    else if isBlank c then lexemes t
    else [c] :: lexemes t
termination_by t => t.length
decreasing_by
  · have := (List.dropWhile_sublist isWord (l := t)).length_le
    simp; omega
  · simp
  · simp

@[simp] theorem lexemes_nil : lexemes [] = [] := by
  rw [lexemes]

/-- The lexemes that a separator is: itself, or none if it is a blank. -/
theorem lexemes_separator {c : Char} (sep : isWord c = false) (t : Text) :
    lexemes (c :: t) = (if isBlank c then [] else [[c]]) ++ lexemes t := by
  rw [lexemes, sep]
  cases isBlank c <;> simp

/-- **A separator ends what is in front of it.** -/
theorem lexemes_append_separator {c : Char} (sep : isWord c = false) (s t : Text) :
    lexemes (s ++ c :: t) = lexemes s ++ lexemes (c :: t) := by
  induction s using lexemes.induct with
  | case1 => simp
  | case2 d s word ih =>
    have run : lexemes (d :: s) = (d :: s.takeWhile isWord) :: lexemes (s.dropWhile isWord) := by
      rw [lexemes, if_pos word]
    rw [List.cons_append, lexemes, if_pos word, takeWhile_append_stop sep,
      dropWhile_append_stop sep, ih, run, List.cons_append]
  | case3 d s no_word _ ih | case4 d s no_word _ ih =>
    have sep_d : isWord d = false := by simpa using no_word
    rw [List.cons_append, lexemes_separator sep_d, ih, lexemes_separator sep_d s, List.append_assoc]

/-! ## 3. Texts with the same lexemes in every context -/

/-- One text may stand for the other wherever it occurs. -/
def SameLexemes (s t : Text) : Prop :=
  ∀ before after, lexemes (before ++ s ++ after) = lexemes (before ++ t ++ after)

namespace SameLexemes

variable {s s' t t' u : Text}

theorem refl (t : Text) : SameLexemes t t :=
  fun _ _ => rfl

theorem symm (h : SameLexemes s t) : SameLexemes t s :=
  fun before after => (h before after).symm

theorem trans (h : SameLexemes s t) (h' : SameLexemes t u) : SameLexemes s u :=
  fun before after => (h before after).trans (h' before after)

theorem append (h : SameLexemes s s') (h' : SameLexemes t t') :
    SameLexemes (s ++ t) (s' ++ t') := by
  intro before after
  have first := h before (t ++ after)
  have second := h' (before ++ s') after
  simp only [List.append_assoc] at first second ⊢
  exact first.trans second

theorem append_left (s : Text) (h : SameLexemes t t') : SameLexemes (s ++ t) (s ++ t') :=
  (refl s).append h

theorem append_right (h : SameLexemes s s') (t : Text) : SameLexemes (s ++ t) (s' ++ t) :=
  h.append (refl t)

theorem cons (c : Char) (h : SameLexemes t t') : SameLexemes (c :: t) (c :: t') :=
  h.append_left [c]

/-- In particular they have the same lexemes. -/
theorem lexemes_eq (h : SameLexemes s t) : lexemes s = lexemes t := by
  simpa using h [] []

end SameLexemes

/-- Separators with the same lexemes stand for each other: what is in front of either ends there. -/
theorem sameLexemes_of_separators {c d : Char} {s t : Text} (sep_c : isWord c = false)
    (sep_d : isWord d = false)
    (same : ∀ after, lexemes (c :: s ++ after) = lexemes (d :: t ++ after)) :
    SameLexemes (c :: s) (d :: t) := by
  intro before after
  rw [List.append_assoc, List.append_assoc, List.cons_append, List.cons_append,
    lexemes_append_separator sep_c, lexemes_append_separator sep_d]
  exact congrArg (lexemes before ++ ·) (same after)

/-- A text in which no word character is found consists of separators. -/
theorem separators_of_any {t : Text} (h : t.any isWord = false) : ∀ c ∈ t, isWord c = false :=
  fun c mem => Bool.eq_false_iff.mpr (List.any_eq_false.mp h c mem)

/-- All blanks are alike. -/
theorem sameLexemes_blank {b b' : Char} (blank : isBlank b = true) (blank' : isBlank b' = true) :
    SameLexemes [b] [b'] := by
  have sep := Text.isWord_of_isBlank blank
  have sep' := Text.isWord_of_isBlank blank'
  refine sameLexemes_of_separators sep sep' fun after => ?_
  rw [List.singleton_append, List.singleton_append, lexemes_separator sep, lexemes_separator sep',
    blank, blank']
  rfl

/-- **Blanks may stand behind a separator.** -/
theorem sameLexemes_blanks_behind {c : Char} (sep : isWord c = false) {gap : Text}
    (blank : ∀ b ∈ gap, isBlank b = true) : SameLexemes (c :: gap) [c] := by
  refine sameLexemes_of_separators sep sep fun after => ?_
  have gone : lexemes (gap ++ after) = lexemes after := by
    induction gap with
    | nil => rfl
    | cons b gap ih =>
      have b_blank := blank b List.mem_cons_self
      rw [List.cons_append, lexemes_separator (Text.isWord_of_isBlank b_blank), if_pos b_blank,
        List.nil_append, ih fun b' mem => blank b' (List.mem_cons_of_mem b mem)]
  rw [List.cons_append, List.singleton_append, lexemes_separator sep, gone,
    ← lexemes_separator sep]

/-- **Blanks may stand in front of a separator.** -/
theorem sameLexemes_blanks_before {c : Char} (sep : isWord c = false) {gap : Text}
    (blank : ∀ b ∈ gap, isBlank b = true) : SameLexemes (gap ++ [c]) [c] := by
  induction gap with
  | nil => exact .refl [c]
  | cons b gap ih =>
    have b_blank := blank b List.mem_cons_self
    have b_sep := Text.isWord_of_isBlank b_blank
    have one : SameLexemes [b, c] [c] := sameLexemes_of_separators b_sep sep fun after => by
      rw [List.cons_append, lexemes_separator b_sep, if_pos b_blank, List.nil_append]
    exact ((ih fun b' mem => blank b' (List.mem_cons_of_mem b mem)).cons b).trans one

/-! ## 4. Replacing -/

/-- Everything that a pattern takes has a form. -/
def Takes (pattern : Text.Pattern) (form : Text → Prop) : Prop :=
  ∀ before t n, pattern before t = some n →
    ∃ taken rest, t = taken ++ rest ∧ taken.length = n ∧ taken ≠ [] ∧ form taken

/-- What is taken at a place has the form. -/
theorem Takes.form {pattern : Text.Pattern} {form : Text → Prop} (h : Takes pattern form)
    {before : Option Char} {c : Char} {t : Text} {n : Nat}
    (found : pattern before (c :: t) = some n) :
    form (c :: t.take (n - 1)) := by
  obtain ⟨taken, rest, cut, rfl, some_taken, holds⟩ := h before (c :: t) n found
  obtain ⟨d, taken, rfl⟩ := List.exists_cons_of_ne_nil some_taken
  obtain ⟨rfl, rfl⟩ := List.cons.inj cut
  simpa using holds

/-- **Replacing stretches by texts with the same lexemes.** -/
theorem sameLexemes_replaceMatches {pattern : Text.Pattern} {image : Text → Text}
    (takes : Takes pattern fun taken => SameLexemes (image taken) taken) (t : Text) :
    SameLexemes (Text.replaceMatches pattern image t) t := by
  unfold Text.replaceMatches
  generalize (none : Option Char) = before
  fun_induction Text.replaceMatchesFrom pattern image before t with
  | case1 => exact .refl []
  | case2 before c t n found taken ih =>
    have cut : c :: t = taken ++ t.drop (n - 1) := by
      rw [List.cons_append, List.take_append_drop]
    rw [cut]
    exact (takes.form found).append ih
  | case3 before c t found ih => exact ih.cons c

theorem splitPiece_ne_nil (piece t : Text) : Text.splitPiece piece t ≠ [] := by
  cases t with
  | nil => simp [Text.splitPiece]
  | cons c t =>
    cases piece with
    | nil => simp [Text.splitPiece]
    | cons d more =>
      rw [Text.splitPiece]
      cases Text.afterPrefix? (d :: more) (c :: t) with
      | none => exact Text.consFirst_ne_nil _ _
      | some rest => exact List.cons_ne_nil _ _

/-- A text is split from the left: it is over, or its first character goes to the first piece, or an
occurrence of the separator is in front. -/
theorem splitPiece_induction (old : Text) {motive : Text → Prop} (nil : motive [])
    (char : ∀ c t, Text.splitPiece old (c :: t) = Text.consFirst c (Text.splitPiece old t) →
      motive t → motive (c :: t))
    (occurrence : ∀ rest, Text.splitPiece old (old ++ rest) = [] :: Text.splitPiece old rest →
      motive rest → motive (old ++ rest))
    (t : Text) : motive t := by
  induction hn : t.length using Nat.strongRecOn generalizing t with
  | ind n ih =>
    subst hn
    cases t with
    | nil => exact nil
    | cons c t =>
      have behind := ih t.length (by simp) t rfl
      cases old with
      | nil =>
        refine char c t ?_ behind
        cases t <;> simp [Text.splitPiece, Text.consFirst]
      | cons d more =>
        cases found : Text.afterPrefix? (d :: more) (c :: t) with
        | none =>
          refine char c t ?_ behind
          rw [Text.splitPiece, found]
        | some rest =>
          obtain ⟨rfl, rfl⟩ := List.cons.inj (Text.afterPrefix?_eq_some.mp found)
          have shorter : rest.length < (c :: (more ++ rest)).length := by
            rw [List.length_cons, List.length_append]
            omega
          refine occurrence rest ?_ (ih rest.length shorter rest rfl)
          rw [List.cons_append, Text.splitPiece, ← List.append_eq, found]
          dsimp only
          rw [List.append_eq, List.drop_left]

/-- Replacing a piece of text wherever it occurs. -/
theorem sameLexemes_replace {old new : Text} (same : SameLexemes new old) (t : Text) :
    SameLexemes (Text.replace old new t) t := by
  unfold Text.replace
  induction t using splitPiece_induction old with
  | nil => simpa [Text.splitPiece, Text.join] using SameLexemes.refl []
  | char c t split ih =>
    rw [split, Text.join_consFirst _ _ (splitPiece_ne_nil _ _)]
    exact ih.cons c
  | occurrence rest split ih =>
    rw [split, Text.join_nil_cons _ (splitPiece_ne_nil _ _)]
    exact same.append ih

/-! ## 5. The ends of texts and lines -/

/-- Blanks at the start of a text are no lexemes. -/
theorem lexemes_trimStart (t : Text) : lexemes (Text.trimStart t) = lexemes t := by
  unfold Text.trimStart Text.dropStart
  induction t with
  | nil => rfl
  | cons c t ih =>
    cases blank : isBlank c with
    | false => rw [List.dropWhile_cons_of_neg (by simp [blank])]
    | true =>
      rw [List.dropWhile_cons_of_pos blank, ih, lexemes_separator (Text.isWord_of_isBlank blank),
        if_pos blank, List.nil_append]

/-- Nor are those at its end. -/
theorem lexemes_append_blanks {t gap : Text} (blank : ∀ b ∈ gap, isBlank b = true) :
    lexemes (t ++ gap) = lexemes t := by
  cases gap with
  | nil => rw [List.append_nil]
  | cons b gap =>
    have b_blank := blank b List.mem_cons_self
    have b_sep := Text.isWord_of_isBlank b_blank
    have one := (sameLexemes_blanks_behind b_sep fun b' mem =>
      blank b' (List.mem_cons_of_mem b mem)).lexemes_eq
    rw [lexemes_append_separator b_sep, one, lexemes_separator b_sep, if_pos b_blank, lexemes_nil,
      List.append_nil, List.append_nil]

theorem lexemes_trim (t : Text) : lexemes (Text.trim t) = lexemes t := by
  have trimmed (s : Text) : lexemes (Text.trimEnd s) = lexemes s := by
    have blank : ∀ b ∈ (s.reverse.takeWhile isBlank).reverse, isBlank b = true := fun b mem =>
      List.mem_takeWhile_imp (List.mem_reverse.mp mem)
    rw [← lexemes_append_blanks blank, Text.trimEnd, dropEnd_append]
  rw [Text.trim, trimmed, lexemes_trimStart]

/-- The lexemes of lines are those of one after the other. -/
theorem lexemes_join (lines : List Text) :
    lexemes (Text.join ['\n'] lines) = lines.flatMap lexemes := by
  induction lines with
  | nil => simp [Text.join]
  | cons line lines ih =>
    cases lines with
    | nil => simp [Text.join]
    | cons next lines =>
      rw [join_cons_cons, List.append_assoc, List.singleton_append,
        lexemes_append_separator (by decide), lexemes_separator (by decide), if_pos (by decide),
        List.nil_append, ih]
      rfl

/-- **Reading a text by trimmed lines keeps its lexemes.** -/
theorem lexemes_join_trimmedLines (t : Text) :
    lexemes (Text.join ['\n'] (trimmedLines t)) = lexemes t := by
  have line {s : Text} (h : '\n' ∉ s) : (trimmedLines s).flatMap lexemes = lexemes s := by
    rw [trimmedLines_of_not_mem h, ← lexemes_trim s]
    split
    · next blank => rw [List.isEmpty_iff.mp blank]; simp
    · simp
  rw [lexemes_join]
  induction t using splitOn_induction (c := '\n') with
  | last t h => exact line h
  | more s t h ih =>
    rw [trimmedLines_append, List.flatMap_append, line h, ih, lexemes_append_separator (by decide),
      lexemes_separator (by decide), if_pos (by decide), List.nil_append]

end Source
end AccessorCatalog

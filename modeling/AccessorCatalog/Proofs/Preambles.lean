/-
# What a preamble takes

The segmentation of a header relies on a few properties of what its two recognisers of preambles
take, and on nothing else about them: the stretch starts a line and starts with a letter, its only
brace is the one that ends it, and a backslash can occur in it only before its first line break (in
template parameters).  `Pass` packs a recogniser together with these properties; `namespacePass` and
`classPass` are the two that the segmentation runs.
-/
import Mathlib.Data.List.TakeWhile
import AccessorCatalog.Outline.Segmented
import AccessorCatalog.Proofs.Braces

namespace AccessorCatalog.Outline

open Text (countWhile isBlank isWord)

/-! ## 1. Stretches without certain characters -/

/-- A text has `n` characters in front of which none is `bad`. -/
def Free (bad : Char → Bool) (t : Text) (n : Nat) : Prop :=
  n ≤ t.length ∧ ∀ c ∈ t.take n, bad c = false

theorem Free.zero {bad : Char → Bool} (t : Text) : Free bad t 0 := by
  simp [Free]

/-- Two stretches in a row. -/
theorem Free.add {bad : Char → Bool} {t : Text} {n m : Nat} (first : Free bad t n)
    (second : Free bad (t.drop n) m) : Free bad t (n + m) := by
  obtain ⟨n_le, n_free⟩ := first
  obtain ⟨m_le, m_free⟩ := second
  rw [List.length_drop] at m_le
  refine ⟨by omega, fun c hc => ?_⟩
  rw [List.take_add] at hc
  rcases List.mem_append.mp hc with hc | hc
  · exact n_free c hc
  · exact m_free c hc

theorem Free.mono {bad worse : Char → Bool} {t : Text} {n : Nat} (h : Free worse t n)
    (weaker : ∀ c, bad c = true → worse c = true) : Free bad t n := by
  refine ⟨h.1, fun c hc => ?_⟩
  cases e : bad c with
  | false => rfl
  | true => exact absurd (weaker c e) (by simp [h.2 c hc])

theorem Free.of_le {bad : Char → Bool} {t : Text} {n m : Nat} (h : Free bad t n) (le : m ≤ n) :
    Free bad t m :=
  ⟨Nat.le_trans le h.1, fun c hc => h.2 c (List.take_subset_take_left t le hc)⟩

theorem free_cons_succ {bad : Char → Bool} {c : Char} {t : Text} {n : Nat} :
    Free bad (c :: t) (n + 1) ↔ bad c = false ∧ Free bad t n := by
  simp only [Free, List.length_cons, Nat.add_le_add_iff_right, List.take_succ_cons, List.mem_cons,
    forall_eq_or_imp]
  exact and_left_comm

theorem take_countWhile (p : Char → Bool) (t : Text) : t.take (countWhile p t) = t.takeWhile p := by
  have cut := @List.take_left _ (t.takeWhile p) (t.dropWhile p)
  rwa [List.takeWhile_append_dropWhile] at cut

/-- A run of characters of a class. -/
theorem free_countWhile {bad p : Char → Bool} (good : ∀ {c}, p c = true → bad c = false)
    (t : Text) : Free bad t (countWhile p t) := by
  refine ⟨(List.takeWhile_sublist p).length_le, fun c hc => ?_⟩
  rw [take_countWhile] at hc
  exact good (List.mem_takeWhile_imp hc)

/-- A word at the start. -/
theorem free_word {bad : Char → Bool} {word t rest : Text} (good : word.any bad = false)
    (h : Text.afterPrefix? word t = some rest) :
    Free bad t word.length ∧ t.drop word.length = rest := by
  rw [Text.afterPrefix?_eq_some] at h
  subst h
  exact ⟨⟨by simp, by simpa [List.any_eq_false] using good⟩, by simp⟩

/-- Blanks and a body up to a stop: both are there, and the stop follows. -/
theorem blanksAndBody_eq_some {allowed : Char → Bool} {stop : Char} {t : Text} {n : Nat}
    (h : Source.blanksAndBody? allowed stop t = some n) :
    0 < countWhile isBlank t ∧
      n = countWhile isBlank t + countWhile allowed (t.drop (countWhile isBlank t)) ∧
      (t.drop n).head? = some stop := by
  simp only [Source.blanksAndBody?] at h
  split at h
  · cases h
  · next refused =>
    simp only [Bool.or_eq_true, decide_eq_true_eq, not_or, bne_iff_ne, ne_eq, not_not] at refused
    split at h
    · cases h
      exact ⟨Nat.pos_of_ne_zero refused.1, rfl, refused.2⟩
    · cases h

/-! ## 2. The form of a preamble -/

/-- What may not stand inside a preamble: a brace. -/
theorem isBrace_of_isBlank {c : Char} (h : isBlank c = true) : isBrace c = false := by
  rcases brace_cases c with rfl | rfl | ⟨left, right⟩
  · exact absurd h (by decide)
  · exact absurd h (by decide)
  · simp [isBrace, left, right]

/-- **The form of what a recogniser of preambles takes**, `n` characters at the start of `t`. -/
structure PreambleAt (t : Text) (n : Nat) : Prop where
  /-- It starts with a letter. -/
  letter : t.head?.any Char.isAlpha = true
  /-- It ends with the only brace in it. -/
  brace : ∃ k, n = k + 1 ∧ Free isBrace t k ∧ (t.drop k).head? = some '\x7b'
  /-- Behind its first line break it has no backslash. -/
  firstLine : ∃ j k, n = j + k ∧ Free (· == '\n') t j ∧ Free (· == '\\') (t.drop j) k

/-- The text that a preamble takes: up to its brace, and the brace. -/
theorem PreambleAt.exists_body {t : Text} {n : Nat} (form : PreambleAt t n) :
    ∃ body rest, t = (body ++ ['\x7b']) ++ rest ∧ n = body.length + 1 := by
  obtain ⟨k, rfl, ⟨le, -⟩, brace⟩ := form.brace
  obtain ⟨rest, at_brace⟩ := List.head?_eq_some_iff.mp brace
  refine ⟨t.take k, rest, ?_, by rw [List.length_take, Nat.min_eq_left le]⟩
  rw [List.append_assoc, List.singleton_append, ← at_brace, List.take_append_drop]

/-- A kind of scopes with the recogniser of its preambles. -/
structure Pass where
  preamble : Preamble
  /-- A semicolon right behind the closing brace belongs to the scope. -/
  takesSemicolon : Bool
  /-- The kinds of scopes that the pass looks for. -/
  owns : ScopeKind → Bool
  /-- A preamble is one of a kind of its own, at the start of a line, and has the form above. -/
  sound : ∀ {before : Option Char} {t : Text} {scope : ScopeKind} {n : Nat},
    preamble before t = some (scope, n) →
      owns scope = true ∧ Source.atLineStart before = true ∧ PreambleAt t n

/-! ## 3. Namespaces -/

/-- Neither a brace nor a backslash. -/
def isSpecial (c : Char) : Bool :=
  isBrace c || c == '\\'

theorem isSpecial_eq_false (p : Char → Bool) (left : p '\x7b' = false) (right : p '\x7d' = false)
    (backslash : p '\\' = false) {c : Char} (h : p c = true) : isSpecial c = false := by
  have h1 : c ≠ '\x7b' := by rintro rfl; rw [left] at h; cases h
  have h2 : c ≠ '\x7d' := by rintro rfl; rw [right] at h; cases h
  have h3 : c ≠ '\\' := by rintro rfl; rw [backslash] at h; cases h
  simp [isSpecial, isBrace, h1, h2, h3]

/-- A brace that ends a stretch is no backslash. -/
theorem Free.upToBrace {t : Text} {k : Nat} (free : Free isSpecial t k)
    (brace : (t.drop k).head? = some '\x7b') : Free (· == '\\') t (k + 1) := by
  have before : Free (· == '\\') t k := free.mono fun c hc => by simp_all [isSpecial]
  refine before.add ?_
  cases h : t.drop k with
  | nil => rw [h] at brace; cases brace
  | cons c rest =>
    rw [h] at brace
    cases brace
    simp [Free]

theorem Free.brace {t : Text} {n : Nat} (h : Free isSpecial t n) : Free isBrace t n :=
  h.mono fun c hc => by simp [isSpecial, hc]

/-- A preamble without backslashes. -/
theorem PreambleAt.of_free {t : Text} {k : Nat} (letter : t.head?.any Char.isAlpha = true)
    (free : Free isSpecial t k) (brace : (t.drop k).head? = some '\x7b') :
      PreambleAt t (k + 1) where
  letter := letter
  brace := ⟨k, rfl, free.brace, brace⟩
  firstLine := ⟨0, k + 1, by omega, .zero t, free.upToBrace brace⟩

/-- A run of characters of a class without special ones. -/
theorem free_run (p : Char → Bool) (left : p '\x7b' = false) (right : p '\x7d' = false)
    (backslash : p '\\' = false) (t : Text) : Free isSpecial t (countWhile p t) :=
  free_countWhile (isSpecial_eq_false p left right backslash) t

theorem free_blanks (t : Text) : Free isSpecial t (countWhile isBlank t) :=
  free_run isBlank (by decide) (by decide) (by decide) t

theorem free_inlineLength (t : Text) : Free isSpecial t (inlineLength t) := by
  unfold inlineLength
  split
  · next rest word =>
    have word_good : "inline".toList.any isSpecial = false := by decide
    obtain ⟨word_free, drop⟩ := free_word word_good word
    split
    · exact .zero t
    · next n gap =>
      have gap_free := free_blanks rest
      rw [gap, ← drop] at gap_free
      exact word_free.add gap_free
  · exact .zero t

theorem free_namespaceNameLength (t : Text) : Free isSpecial t (namespaceNameLength t) := by
  unfold namespaceNameLength
  split
  · exact .zero t
  · next n gap =>
    have gap_free := free_blanks t
    rw [gap] at gap_free
    split
    · exact .zero t
    · next m name =>
      have name_free := free_run (fun c => isWord c || c == ':') (by decide) (by decide)
        (by decide) (t.drop (n + 1))
      rw [name] at name_free
      exact gap_free.add name_free

/-- A text that starts with a word starts with the first character of it. -/
theorem letter_of_word {c : Char} {word t rest : Text} (alpha : c.isAlpha = true)
    (h : Text.afterPrefix? (c :: word) t = some rest) : t.head?.any Char.isAlpha = true := by
  rw [Text.afterPrefix?_eq_some] at h
  subst h
  exact alpha

theorem letter_of_inline {t rest : Text}
    (h : Text.afterPrefix? "namespace".toList (t.drop (inlineLength t)) = some rest) :
    t.head?.any Char.isAlpha = true := by
  unfold inlineLength at h
  split at h
  · next word => exact letter_of_word (by decide) word
  · exact letter_of_word (by decide) h

theorem namespacePreamble_sound {before : Option Char} {t : Text} {scope : ScopeKind} {n : Nat}
    (h : namespacePreamble before t = some (scope, n)) :
    scope = .namespaceScope ∧ Source.atLineStart before = true ∧ PreambleAt t n := by
  unfold namespacePreamble at h
  split at h
  · next start =>
    obtain ⟨rest, word, h⟩ := Option.bind_eq_some_iff.mp h
    dsimp only at h
    split at h
    · next brace =>
      cases h
      refine ⟨rfl, start, ?_⟩
      have word_good : "namespace".toList.any isSpecial = false := by decide
      obtain ⟨word_free, drop⟩ := free_word word_good word
      have lead : Free isSpecial t (inlineLength t + 9) := (free_inlineLength t).add word_free
      have body := (free_namespaceNameLength rest).add (free_blanks _)
      have at_rest : t.drop (inlineLength t + 9) = rest := by
        rw [← List.drop_drop]
        exact drop
      have free := lead.add (at_rest.symm ▸ body)
      rw [at_rest, ← Nat.add_assoc] at free
      refine .of_free (letter_of_inline word) free ?_
      rw [Nat.add_assoc, ← List.drop_drop, at_rest, brace]
    · cases h
  · cases h

/-- The pass that looks for namespaces. -/
def namespacePass : Pass where
  preamble := namespacePreamble
  takesSemicolon := false
  owns kind := kind == .namespaceScope
  sound h := by
    obtain ⟨rfl, start, form⟩ := namespacePreamble_sound h
    exact ⟨rfl, start, form⟩

/-! ## 4. Classes and structs -/

/-- What follows the keyword of a class up to its brace. -/
theorem free_title {t : Text} {n : Nat}
    (h : Source.blanksAndBody? isTitleChar '\x7b' t = some n) :
    Free isSpecial t n ∧ (t.drop n).head? = some '\x7b' := by
  obtain ⟨-, rfl, brace⟩ := blanksAndBody_eq_some h
  have title := free_run isTitleChar (by decide) (by decide) (by decide)
    (t.drop (countWhile isBlank t))
  exact ⟨(free_blanks t).add title, brace⟩

/-- From the keyword on, a title is free of special characters up to its brace. -/
theorem classKey_sound {t : Text} {scope : ScopeKind} {n : Nat}
    (h : classKey? t = some (scope, n)) :
    scope ≠ .namespaceScope ∧ t.head?.any Char.isAlpha = true ∧
      ∃ k, n = k + 1 ∧ Free isSpecial t k ∧ (t.drop k).head? = some '\x7b' := by
  have keyword {c : Char} {word : Text} {kind : ScopeKind} (alpha : c.isAlpha = true)
      (good : (c :: word).any isSpecial = false)
      (h : classKey?.keyword t kind (c :: word) = some (scope, n)) :
      scope = kind ∧ t.head?.any Char.isAlpha = true ∧
        ∃ k, n = k + 1 ∧ Free isSpecial t k ∧ (t.drop k).head? = some '\x7b' := by
    obtain ⟨rest, word_at, h⟩ := Option.bind_eq_some_iff.mp h
    obtain ⟨m, title, h⟩ := Option.map_eq_some_iff.mp h
    cases h
    obtain ⟨word_free, drop⟩ := free_word good word_at
    obtain ⟨title_free, brace⟩ := free_title title
    refine ⟨rfl, letter_of_word alpha word_at, (c :: word).length + m, rfl,
      word_free.add (drop.symm ▸ title_free), ?_⟩
    rw [← List.drop_drop, drop, brace]
  rcases Option.or_eq_some_iff.mp h with h | ⟨-, h⟩
  · obtain ⟨rfl, form⟩ := keyword (by decide) (by decide) h
    exact ⟨by decide, form⟩
  · obtain ⟨rfl, form⟩ := keyword (by decide) (by decide) h
    exact ⟨by decide, form⟩

theorem behindParameters_sound {t : Text} {width n : Nat} {scope : ScopeKind}
    (h : behindParameters? t width = some (scope, n)) :
    scope ≠ .namespaceScope ∧ ∃ w k, w ≤ width ∧ n = w + (k + 1) ∧ Free isSpecial (t.drop w) k ∧
      ((t.drop w).drop k).head? = some '\x7b' := by
  induction width with
  | zero => cases h
  | succ width ih =>
    rcases Option.or_eq_some_iff.mp h with h | ⟨-, h⟩
    · split at h
      · next rest close =>
        obtain ⟨⟨kind, m⟩, key, h⟩ := Option.map_eq_some_iff.mp h
        cases h
        obtain ⟨kind_ne, -, k, rfl, free, brace⟩ := classKey_sound key
        have behind : t.drop (width + 1) = rest := by
          rw [← List.drop_drop, close]
          rfl
        refine ⟨kind_ne, width + 1, countWhile isBlank rest + k, Nat.le_refl _, by omega, ?_, ?_⟩
        · rw [behind]
          exact (free_blanks rest).add free
        · rw [behind, ← List.drop_drop, brace]
      · cases h
    · obtain ⟨kind_ne, w, k, le, form⟩ := ih h
      exact ⟨kind_ne, w, k, Nat.le_succ_of_le le, form⟩

theorem classPreamble_sound {before : Option Char} {t : Text} {scope : ScopeKind} {n : Nat}
    (h : classPreamble before t = some (scope, n)) :
    scope ≠ .namespaceScope ∧ Source.atLineStart before = true ∧ PreambleAt t n := by
  unfold classPreamble at h
  split at h
  · next start =>
    split at h
    · next rest word =>
      obtain ⟨⟨kind, m⟩, behind, h⟩ := Option.map_eq_some_iff.mp h
      cases h
      obtain ⟨kind_ne, w, k, le, rfl, free, brace⟩ := behindParameters_sound behind
      have list : Free (fun c => isBrace c || c == '\n') rest w :=
        (free_countWhile (by simp_all [isParameterChar, isBrace]) rest).of_le le
      have word_good : "template<".toList.any (fun c => isBrace c || c == '\n') = false := by decide
      obtain ⟨word_free, drop⟩ := free_word word_good word
      have line : Free (fun c => isBrace c || c == '\n') t (9 + w) :=
        word_free.add (drop.symm ▸ list)
      have behind_line : t.drop (9 + w) = rest.drop w := by
        rw [← List.drop_drop]
        exact congrArg (List.drop w) drop
      rw [← behind_line] at free brace
      refine ⟨kind_ne, start, letter_of_word (by decide) word, ⟨9 + w + k, by omega, ?_, ?_⟩,
        ⟨9 + w, k + 1, by omega, ?_, free.upToBrace brace⟩⟩
      · exact (line.mono fun c hc => by simp [hc]).add free.brace
      · rw [← List.drop_drop, brace]
      · exact line.mono fun c hc => by simp [hc]
    · obtain ⟨kind_ne, letter, k, rfl, free, brace⟩ := classKey_sound h
      exact ⟨kind_ne, start, .of_free letter free brace⟩
  · cases h

/-- The pass that looks for classes and structs. -/
def classPass : Pass where
  preamble := classPreamble
  takesSemicolon := true
  owns kind := kind != .namespaceScope
  sound h := by
    obtain ⟨kind_ne, start, form⟩ := classPreamble_sound h
    exact ⟨by simpa using kind_ne, start, form⟩

end AccessorCatalog.Outline

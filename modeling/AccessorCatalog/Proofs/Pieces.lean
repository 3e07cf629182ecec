/-
# Texts in pieces

A header under segmentation is a text in which some stretches have been replaced by marks.  `Piece`
keeps both sides of that: a piece is a character that is still there, or a mark together with the
stretch that it stands for.  `marked` is the text with the marks in it, `original` the text from
which it came.

* `Tidy`: opening marks start a line, and no character that is left is a backslash;
* `tokens_marked`: the tokens of a tidy text are its marks and, between them, the lines of the
  characters that are left;
* `Nests`: marks and braces, read together on one stack, close in the reverse order of their
  opening.  Braces may be left over, marks may not;
* `unpairedMark_tokens`: the tokens of pieces that nest pass the check of the marks.
-/
import Mathlib.Data.List.Nodup
import AccessorCatalog.Proofs.Forest
import AccessorCatalog.Proofs.MarkLine

namespace AccessorCatalog.Outline

/-! ## 1. Pieces -/

/-- A character of a text, or a mark with the stretch that it stands for. -/
inductive Piece where
  | char (c : Char)
  | mark (m : Mark) (stretch : Text)

/-- The lines that put a mark into a text. -/
def Mark.shown (m : Mark) : Text :=
  if m.isOpening then m.render ++ ['\n'] else '\n' :: m.render ++ ['\n']

namespace Piece

/-- What a piece is in the text with marks. -/
def marked : Piece → Text
  | char c => [c]
  | mark m _ => m.shown

/-- What a piece stands for. -/
def original : Piece → Text
  | char c => [c]
  | mark _ stretch => stretch

end Piece

/-- The text with its marks. -/
def marked (ps : List Piece) : Text :=
  ps.flatMap Piece.marked

/-- The text that the pieces stand for. -/
def original (ps : List Piece) : Text :=
  ps.flatMap Piece.original

/-- The marks of the pieces, in order. -/
def marksIn (ps : List Piece) : List Mark :=
  ps.filterMap fun
    | .mark m _ => some m
    | .char _ => none

/-- The fragments of the pieces: the marks, each with what is kept of its stretch. -/
def fragmentsOf (ps : List Piece) : List (Mark × Text) :=
  ps.filterMap fun
    | .mark m stretch => some (m, if m.isOpening then Text.trim stretch else stretch)
    | .char _ => none

@[simp] theorem marked_nil : marked [] = [] := rfl

@[simp] theorem marked_char (c : Char) (ps : List Piece) :
    marked (.char c :: ps) = c :: marked ps := rfl

@[simp] theorem marked_mark (m : Mark) (stretch : Text) (ps : List Piece) :
    marked (.mark m stretch :: ps) = m.shown ++ marked ps := rfl

@[simp] theorem marked_append (ps qs : List Piece) : marked (ps ++ qs) = marked ps ++ marked qs :=
  List.flatMap_append

@[simp] theorem original_nil : original [] = [] := rfl

@[simp] theorem original_char (c : Char) (ps : List Piece) :
    original (.char c :: ps) = c :: original ps := rfl

@[simp] theorem original_mark (m : Mark) (stretch : Text) (ps : List Piece) :
    original (.mark m stretch :: ps) = stretch ++ original ps := rfl

@[simp] theorem original_append (ps qs : List Piece) :
    original (ps ++ qs) = original ps ++ original qs :=
  List.flatMap_append

@[simp] theorem marksIn_nil : marksIn [] = [] := rfl

@[simp] theorem marksIn_char (c : Char) (ps : List Piece) :
    marksIn (.char c :: ps) = marksIn ps := rfl

@[simp] theorem marksIn_mark (m : Mark) (stretch : Text) (ps : List Piece) :
    marksIn (.mark m stretch :: ps) = m :: marksIn ps := rfl

@[simp] theorem fragmentsOf_nil : fragmentsOf [] = [] := rfl

@[simp] theorem fragmentsOf_char (c : Char) (ps : List Piece) :
    fragmentsOf (.char c :: ps) = fragmentsOf ps := rfl

@[simp] theorem fragmentsOf_mark (m : Mark) (stretch : Text) (ps : List Piece) :
    fragmentsOf (.mark m stretch :: ps) =
      (m, if m.isOpening then Text.trim stretch else stretch) :: fragmentsOf ps := rfl

/-- The keys of the fragments are the marks. -/
theorem map_fst_fragmentsOf (ps : List Piece) : (fragmentsOf ps).map Prod.fst = marksIn ps := by
  induction ps with
  | nil => rfl
  | cons p ps ih =>
    cases p with
    | char c => exact ih
    | mark m stretch => exact congrArg (m :: ·) ih

/-- A stretch of text that is still there. -/
def chars (t : Text) : List Piece :=
  t.map Piece.char

@[simp] theorem chars_nil : chars [] = [] := rfl

@[simp] theorem chars_cons (c : Char) (t : Text) : chars (c :: t) = .char c :: chars t := rfl

@[simp] theorem chars_append (s t : Text) : chars (s ++ t) = chars s ++ chars t :=
  List.map_append

@[simp] theorem marked_chars (t : Text) : marked (chars t) = t := by
  induction t with
  | nil => rfl
  | cons c t ih => simp [ih]

@[simp] theorem original_chars (t : Text) : original (chars t) = t := by
  induction t with
  | nil => rfl
  | cons c t ih => simp [ih]

@[simp] theorem marksIn_chars_append (t : Text) (ps : List Piece) :
    marksIn (chars t ++ ps) = marksIn ps := by
  induction t with
  | nil => rfl
  | cons c t ih => simpa using ih

@[simp] theorem fragmentsOf_chars_append (t : Text) (ps : List Piece) :
    fragmentsOf (chars t ++ ps) = fragmentsOf ps := by
  induction t with
  | nil => rfl
  | cons c t ih => simpa using ih

theorem Mark.shown_opening {m : Mark} (h : m.isOpening = true) : m.shown = m.render ++ ['\n'] := by
  simp [Mark.shown, h]

theorem Mark.shown_closing {m : Mark} (h : m.isOpening = false) :
    m.shown = '\n' :: m.render ++ ['\n'] := by
  simp [Mark.shown, h]

/-! ## 2. Tidy pieces -/

/-- Behind a character, or none at the start of a text, the pieces are tidy: opening marks start a
line, and backslashes occur in marks only. -/
def Tidy : Option Char → List Piece → Prop
  | _, [] => True
  | _, .char c :: ps => c ≠ '\\' ∧ Tidy (some c) ps
  | before, .mark m _ :: ps =>
    (m.isOpening = true → Source.atLineStart before = true) ∧ Tidy (some '\n') ps

/-- The tokens of pieces behind characters that are not yet read as lines. -/
def tokensBehind (pending : Text) : List Piece → List Token
  | [] => tokens pending
  | .char c :: ps => tokensBehind (pending ++ [c]) ps
  | .mark m _ :: ps => tokens pending ++ m.token :: tokensBehind [] ps

/-- A line break in front of a mark adds no token. -/
theorem tokens_concat_break (t : Text) : tokens (t ++ ['\n']) = tokens t := by
  rw [tokens_append, tokens_nil, List.append_nil]

theorem tokens_shown_append (m : Mark) (t : Text) (opening : m.isOpening = true) :
    tokens (m.shown ++ t) = m.token :: tokens t := by
  rw [Mark.shown_opening opening, List.append_assoc, List.singleton_append, tokens_append,
    tokens_render, List.singleton_append]

/-- **The tokens of a tidy text.**  What is pending ends its line wherever a mark may open. -/
theorem tokens_marked {before : Option Char} {pending : Text} {ps : List Piece}
    (tidy : Tidy before ps)
    (ended : Source.atLineStart before = true → pending = [] ∨ ∃ t, pending = t ++ ['\n']) :
    tokens (pending ++ marked ps) = tokensBehind pending ps := by
  induction ps generalizing before pending with
  | nil => rw [marked_nil, List.append_nil, tokensBehind]
  | cons p ps ih =>
    cases p with
    | char c =>
      rw [marked_char, tokensBehind, ← ih tidy.2, List.append_assoc, List.singleton_append]
      intro start
      refine .inr ⟨pending, ?_⟩
      simp only [Source.atLineStart] at start
      simp_all
    | mark m stretch =>
      have rest : tokens ([] ++ marked ps) = tokensBehind [] ps := ih tidy.2 fun _ => .inl rfl
      rw [marked_mark, tokensBehind, ← rest, List.nil_append]
      cases opening : m.isOpening with
      | true =>
        rcases ended (tidy.1 opening) with rfl | ⟨t, rfl⟩
        · rw [List.nil_append, tokens_shown_append m _ opening, tokens_nil, List.nil_append]
        · rw [tokens_concat_break, List.append_assoc, List.singleton_append, tokens_append,
            tokens_shown_append m _ opening]
      | false =>
        rw [Mark.shown_closing opening, List.cons_append, List.cons_append, tokens_append,
          List.append_assoc, List.singleton_append, tokens_append, tokens_render,
          List.singleton_append]

/-- The tokens of a whole text. -/
theorem tokens_eq_tokensBehind {ps : List Piece} (tidy : Tidy none ps) :
    tokens (marked ps) = tokensBehind [] ps :=
  (tokens_marked tidy fun _ => .inl rfl : tokens ([] ++ marked ps) = _)

/-! ## 3. The tokens of tidy pieces -/

/-- The marks that are read back. -/
def readable (ms : List Mark) : List Mark :=
  ms.filter fun m => m.index < UInt64.size

theorem marksOf_tokens {t : Text} (plain : '\\' ∉ t) : marksOf (tokens t) = [] := by
  rw [tokens_of_not_mem plain]
  induction Source.trimmedLines t with
  | nil => rfl
  | cons line lines ih => simpa using ih

theorem not_mem_concat {pending : Text} {c : Char} (plain : '\\' ∉ pending) (h : c ≠ '\\') :
    '\\' ∉ pending ++ [c] := by
  simp [plain, Ne.symm h]

/-- The marks among the tokens are the marks of the pieces. -/
theorem marksOf_tokensBehind {before : Option Char} {pending : Text} {ps : List Piece}
    (tidy : Tidy before ps) (plain : '\\' ∉ pending) :
    marksOf (tokensBehind pending ps) = readable (marksIn ps) := by
  induction ps generalizing before pending with
  | nil => exact marksOf_tokens plain
  | cons p ps ih =>
    cases p with
    | char c => exact ih tidy.2 (not_mem_concat plain tidy.1)
    | mark m stretch =>
      rw [tokensBehind, marksOf_append, marksOf_tokens plain, List.nil_append, marksIn_mark]
      have rest := ih tidy.2 List.not_mem_nil
      by_cases fits : m.index < UInt64.size
      · simp [Mark.token, readable, fits, rest]
      · simp [Mark.token, readable, fits, rest]

/-! ## 4. Nesting -/

/-- Marks and braces nest, when the given ones are open, innermost first; a brace is written as no
mark.  A closing brace without an open one counts for nothing, and so do braces that stay open. -/
def Nests : List (Option Mark) → List Piece → Prop
  | opened, [] => ∀ o ∈ opened, o = none
  | opened, .char c :: ps =>
    if c = '\x7b' then Nests (none :: opened) ps
    else if c = '\x7d' then (∀ m, opened.head? ≠ some (some m)) ∧ Nests opened.tail ps
    else Nests opened ps
  | opened, .mark m _ :: ps =>
    if m.isOpening then Nests (some m :: opened) ps
    else ∃ inner outer, opened = some inner :: outer ∧ inner.partner = m ∧ Nests outer ps

theorem nests_open {opened : List (Option Mark)} {ps : List Piece} :
    Nests opened (.char '\x7b' :: ps) ↔ Nests (none :: opened) ps := Iff.rfl

theorem nests_close {opened : List (Option Mark)} {ps : List Piece} :
    Nests opened (.char '\x7d' :: ps) ↔
      (∀ m, opened.head? ≠ some (some m)) ∧ Nests opened.tail ps := Iff.rfl

theorem nests_other {c : Char} (left : c ≠ '\x7b') (right : c ≠ '\x7d')
    {opened : List (Option Mark)}
    {ps : List Piece} : Nests opened (.char c :: ps) ↔ Nests opened ps := by
  simp [Nests, left, right]

theorem nests_opening {m : Mark} (h : m.isOpening = true) {stretch : Text}
    {opened : List (Option Mark)} {ps : List Piece} :
    Nests opened (.mark m stretch :: ps) ↔ Nests (some m :: opened) ps := by
  simp [Nests, h]

theorem nests_closing {m : Mark} (h : m.isOpening = false) {stretch : Text}
    {opened : List (Option Mark)} {ps : List Piece} :
    Nests opened (.mark m stretch :: ps) ↔
      ∃ inner outer, opened = some inner :: outer ∧ inner.partner = m ∧ Nests outer ps := by
  simp [Nests, h]

/-- Characters other than braces do not matter. -/
theorem nests_chars {t : Text} (h : braces t = []) {opened : List (Option Mark)} {ps : List Piece} :
    Nests opened (chars t ++ ps) ↔ Nests opened ps := by
  induction t with
  | nil => rfl
  | cons c t ih =>
    rcases brace_cases c with rfl | rfl | ⟨left, right⟩
    · simp at h
    · simp at h
    · rw [braces_cons_other left right] at h
      rw [chars_cons, List.cons_append, nests_other left right, ih h]

/-- In a text without marks everything nests. -/
theorem nests_of_text (t : Text) (k : Nat) : Nests (List.replicate k none) (chars t) := by
  induction t generalizing k with
  | nil => exact fun o h => List.eq_of_mem_replicate h
  | cons c t ih =>
    rcases brace_cases c with rfl | rfl | ⟨left, right⟩
    · exact ih (k + 1)
    · rw [chars_cons, nests_close]
      cases k with
      | zero => exact ⟨by simp, ih 0⟩
      | succ k => exact ⟨by simp [List.replicate_succ], ih k⟩
    · rw [chars_cons, nests_other left right]
      exact ih k

/-- What is closed by a brace is no mark. -/
theorem filterMap_tail {opened : List (Option Mark)} (no_mark : ∀ m, opened.head? ≠ some (some m)) :
    opened.tail.filterMap id = opened.filterMap id := by
  cases opened with
  | nil => rfl
  | cons o outer =>
    cases o with
    | none => rfl
    | some m => exact absurd rfl (no_mark m)

/-- **Where marks nest, the closing ones are the partners of the opening ones**, and of those that
are open already. -/
theorem Nests.closing_perm {opened : List (Option Mark)} {ps : List Piece}
    (nests : Nests opened ps) :
    ((marksIn ps).filter fun m => !m.isOpening).Perm
      (((marksIn ps).filter Mark.isOpening).map Mark.partner ++
        (opened.filterMap id).map Mark.partner) := by
  induction ps generalizing opened with
  | nil =>
    have none_open : opened.filterMap id = [] := List.filterMap_eq_nil_iff.mpr nests
    rw [none_open]
    exact .nil
  | cons p ps ih =>
    cases p with
    | char c =>
      rcases brace_cases c with rfl | rfl | ⟨left, right⟩
      · have inner := ih (nests_open.mp nests)
        exact inner
      · obtain ⟨no_mark, nests⟩ := nests
        rw [← filterMap_tail no_mark]
        exact ih nests
      · exact ih ((nests_other left right).mp nests)
    | mark m stretch =>
      cases opening : m.isOpening with
      | true =>
        have inner := ih ((nests_opening opening).mp nests)
        simpa [opening] using inner.trans List.perm_middle
      | false =>
        obtain ⟨inner, outer, rfl, rfl, rest⟩ := (nests_closing opening).mp nests
        simpa using ((ih rest).cons inner.partner).trans List.perm_middle.symm

/-- Marks that nest are different if the opening ones are. -/
theorem Nests.nodup {ps : List Piece} (nests : Nests [] ps)
    (openings : ((marksIn ps).filter Mark.isOpening).Nodup) : (marksIn ps).Nodup := by
  have closings := nests.closing_perm
  rw [List.filterMap_nil, List.map_nil, List.append_nil] at closings
  have split := (List.filter_append_perm Mark.isOpening (marksIn ps)).symm.trans
    (closings.append_left _)
  refine split.nodup_iff.mpr (List.nodup_append.mpr ⟨openings, ?_, ?_⟩)
  · refine openings.map_on fun a ha b hb same => ?_
    rw [Mark.eq_of_isOpening (List.mem_filter.mp ha).2,
      Mark.eq_of_isOpening (List.mem_filter.mp hb).2]
    simp only [Mark.partner, Mark.mk.injEq, MarkKind.closes, MarkKind.mk.injEq] at same
    rw [same.1.1, same.2]
  · intro a ha b hb same
    obtain ⟨m, -, rfl⟩ := List.mem_map.mp hb
    have opening := (List.mem_filter.mp ha).2
    rw [same] at opening
    cases opening

theorem unpairedMark_lines {t : Text} (plain : '\\' ∉ t) (opened : List Mark) (ts : List Token) :
    unpairedMark? opened (tokens t ++ ts) = unpairedMark? opened ts := by
  rw [tokens_of_not_mem plain]
  induction Source.trimmedLines t with
  | nil => rfl
  | cons line lines ih => exact ih

/-- **Tokens of pieces that nest pass the check**, with those of the open marks that are read back
on the stack. -/
theorem unpairedMark_tokensBehind {before : Option Char} {pending : Text} {ps : List Piece}
    {opened : List (Option Mark)} (tidy : Tidy before ps) (plain : '\\' ∉ pending)
    (nests : Nests opened ps) :
    unpairedMark? (readable (opened.filterMap id)) (tokensBehind pending ps) = none := by
  induction ps generalizing before pending opened with
  | nil =>
    have none_open : opened.filterMap id = [] := List.filterMap_eq_nil_iff.mpr nests
    have := unpairedMark_lines plain [] []
    rw [List.append_nil] at this
    rw [tokensBehind, none_open]
    exact this
  | cons p ps ih =>
    cases p with
    | char c =>
      rcases brace_cases c with rfl | rfl | ⟨left, right⟩
      · have rest := ih tidy.2 (not_mem_concat plain tidy.1) (nests_open.mp nests)
        exact rest
      · obtain ⟨no_mark, nests⟩ := nests
        have inner := ih tidy.2 (not_mem_concat plain tidy.1) nests
        rw [filterMap_tail no_mark] at inner
        exact inner
      · rw [nests_other left right] at nests
        exact ih tidy.2 (not_mem_concat plain tidy.1) nests
    | mark m stretch =>
      rw [tokensBehind, unpairedMark_lines plain]
      cases opening : m.isOpening with
      | true =>
        rw [nests_opening opening] at nests
        have inner := ih tidy.2 List.not_mem_nil nests
        by_cases fits : m.index < UInt64.size
        · rw [Mark.token, if_pos fits, unpairedMark_opening opening]
          simpa [readable, fits] using inner
        · rw [Mark.token, if_neg fits, unpairedMark_line]
          simpa [readable, fits] using inner
      | false =>
        rw [nests_closing opening] at nests
        obtain ⟨inner, outer, rfl, rfl, nests⟩ := nests
        have rest := ih tidy.2 List.not_mem_nil nests
        by_cases fits : inner.index < UInt64.size
        · rw [Mark.token, if_pos (by exact fits)]
          simpa [readable, fits, unpairedMark_partner] using rest
        · rw [Mark.token, if_neg (by exact fits), unpairedMark_line]
          simpa [readable, fits] using rest

/-- The tokens of a tidy text that nests pass the check of the marks. -/
theorem unpairedMark_tokens {ps : List Piece} (tidy : Tidy none ps) (nests : Nests [] ps) :
    unpairedMark? [] (tokens (marked ps)) = none := by
  rw [tokens_eq_tokensBehind tidy]
  exact unpairedMark_tokensBehind tidy List.not_mem_nil nests

end AccessorCatalog.Outline

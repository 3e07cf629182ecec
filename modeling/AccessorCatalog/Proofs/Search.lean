/-
# The search is a pass

The segmentation finds the preambles of a text one after the other, and for each of them it looks
for the closing brace anew, from its opening brace on.  This file shows that the search does what a
scan with a stack does, so that its constructs are the marks of a `Marking`.

* `findConstructs_eq_ok_iff`: the constructs answer the openings one by one;
* `exists_chars_of_preamble`: a preamble takes no mark that is already in the text;
* `Pending`: the closing brace that the search has found for an open mark is the one at which the
  scan closes it;
* `exists_marking`: where the search succeeds, some `Marking` has exactly the boundaries it found;
* `findConstructs_isOk`: on balanced braces, with a limit that is no less than their number, the
  search succeeds.
-/
import AccessorCatalog.Proofs.Substitution

namespace AccessorCatalog.Outline

open Source (atLineStart)

/-! ## 1. Constructs -/

/-- What the search makes of an opening in a text. -/
def Closed (pass : Pass) (limit : Nat) (full : Text) (o : Opening) (c : Construct) : Prop :=
  ∃ d, matchingClose limit (full.drop o.openAt) = .ok d ∧
    c = o.construct d pass.takesSemicolon full

/-- **The search answers the openings one by one.** -/
theorem findConstructs_eq_ok_iff {pass : Pass} {limit : Nat} {header full : Text}
    {cs : List Construct} :
    findConstructs pass.preamble pass.takesSemicolon limit header full = .ok cs ↔
      List.Forall₂ (Closed pass limit full) (openings pass.preamble full) cs := by
  unfold findConstructs
  rw [mapM_eq_ok_iff]
  constructor
  · refine List.Forall₂.imp fun o c h => ?_
    split at h
    · next d close => exact ⟨d, close, (Except.ok.inj h).symm⟩
    · cases h
  · refine List.Forall₂.imp fun o c h => ?_
    obtain ⟨d, close, rfl⟩ := h
    rw [close]

/-- A failed search reports a malformed construct of the header. -/
theorem findConstructs_error {preamble : Preamble} {takeSemicolon : Bool} {limit : Nat}
    {header full : Text} {e : ParseError}
    (h : findConstructs preamble takeSemicolon limit header full = .error e) :
    ∃ offset fault, e = .malformedConstruct header offset fault := by
  obtain ⟨o, -, fails⟩ := exists_of_mapM_error h
  split at fails
  · cases fails
  · next fault _ => exact ⟨_, fault, (Except.error.inj fails).symm⟩

/-- The search for a close starts behind the opening brace, which counts against the limit. -/
theorem matchingClose_eq_ok_iff {limit d : Nat} {t : Text} :
    matchingClose limit ('\x7b' :: t) = .ok d ↔
      ∃ e, d = e + 1 ∧ closePlace? 1 t = some e ∧ (braces (t.take (e + 1))).length < limit := by
  have found : matchingClose limit ('\x7b' :: t) = .ok d ↔
      closeWithin limit 0 ('\x7b' :: t) = .ok d := by
    unfold matchingClose
    split <;> simp_all
  rw [found]
  cases limit with
  | zero => simp [closeWithin]
  | succ limit =>
    rw [closeWithin_open, map_eq_ok_iff]
    simp only [closeWithin_eq_ok_iff (Nat.one_pos), Nat.lt_succ_iff]
    constructor
    · rintro ⟨e, close, rfl⟩
      exact ⟨e, rfl, close⟩
    · rintro ⟨e, rfl, close⟩
      exact ⟨e, close, rfl⟩

/-! ## 2. Places without a preamble -/

section
variable {pass : Pass} {place : Nat} {before : Option Char} {t : Text}

theorem openingsFrom_none {preamble : Preamble} {c : Char} (h : preamble before (c :: t) = none) :
    openingsFrom preamble place before (c :: t) = openingsFrom preamble (place + 1) (some c) t := by
  rw [openingsFrom, h]

/-- Where a preamble takes the first part of a text, the search goes on behind it. -/
theorem openingsFrom_preamble {preamble : Preamble} {taken : Text} {scope : ScopeKind}
    (some_taken : taken ≠ []) (h : preamble before (taken ++ t) = some (scope, taken.length)) :
    openingsFrom preamble place before (taken ++ t) =
      ⟨scope, place, place + (taken.length - 1)⟩ ::
        openingsFrom preamble (place + taken.length) taken.getLast? t := by
  obtain ⟨c, rest, rfl⟩ := List.exists_cons_of_ne_nil some_taken
  rw [List.cons_append] at h
  rw [List.cons_append, openingsFrom, h]
  simp

/-- Inside a line there is no preamble. -/
theorem openingsFrom_inLine {c : Char} (h : atLineStart before = false) :
    openingsFrom pass.preamble place before (c :: t) =
      openingsFrom pass.preamble (place + 1) (some c) t := by
  refine openingsFrom_none ?_
  cases found : pass.preamble before (c :: t) with
  | none => rfl
  | some answer =>
    obtain ⟨-, start, -⟩ := pass.sound found
    rw [h] at start
    cases start

/-- Nothing but a letter starts a preamble. -/
theorem openingsFrom_notLetter {c : Char} (h : c.isAlpha = false) :
    openingsFrom pass.preamble place before (c :: t) =
      openingsFrom pass.preamble (place + 1) (some c) t := by
  refine openingsFrom_none ?_
  cases found : pass.preamble before (c :: t) with
  | none => rfl
  | some answer =>
    obtain ⟨-, -, form⟩ := pass.sound found
    have letter : c.isAlpha = true := form.letter
    rw [h] at letter
    cases letter

/-- The rest of a line has no preamble, its line break included. -/
theorem openingsFrom_restOfLine {s : Text} (line : '\n' ∉ s) (h : atLineStart before = false) :
    openingsFrom pass.preamble place before (s ++ '\n' :: t) =
      openingsFrom pass.preamble (place + (s.length + 1)) (some '\n') t := by
  induction s generalizing place before with
  | nil => exact openingsFrom_notLetter (by decide)
  | cons c s ih =>
    have inside : atLineStart (some c) = false := by
      simp [atLineStart, Ne.symm (List.ne_of_not_mem_cons line)]
    rw [List.cons_append, openingsFrom_inLine h, ih (List.not_mem_of_not_mem_cons line) inside,
      List.length_cons]
    congr 1
    omega

theorem Mark.render_cons (m : Mark) : ∃ name, m.render = '\\' :: name ∧ '\n' ∉ name := by
  refine ⟨_, rfl, fun mem => ?_⟩
  exact Mark.not_mem_render (c := '\n') (by decide) (by decide) (List.mem_cons_of_mem _ mem)

theorem Mark.head_shown (m : Mark) (t : Text) :
    (m.shown ++ t).head? = some '\\' ∨ (m.shown ++ t).head? = some '\n' := by
  obtain ⟨name, render, -⟩ := m.render_cons
  cases opening : m.isOpening with
  | true =>
    rw [Mark.shown_opening opening, render]
    exact .inl rfl
  | false =>
    rw [Mark.shown_closing opening]
    exact .inr rfl

/-- A mark has no preamble. -/
theorem openingsFrom_shown (m : Mark) :
    openingsFrom pass.preamble place before (m.shown ++ t) =
      openingsFrom pass.preamble (place + m.shown.length) (some '\n') t := by
  obtain ⟨name, render, line⟩ := m.render_cons
  have behind_backslash (place : Nat) (before : Option Char) :
      openingsFrom pass.preamble place before (m.render ++ '\n' :: t) =
        openingsFrom pass.preamble (place + (m.render.length + 1)) (some '\n') t := by
    rw [render, List.cons_append, openingsFrom_notLetter (by decide),
      openingsFrom_restOfLine line (by decide), List.length_cons]
    congr 1
    omega
  cases opening : m.isOpening with
  | true =>
    rw [Mark.shown_opening opening, List.append_assoc, List.singleton_append, behind_backslash]
    simp
  | false =>
    rw [Mark.shown_closing opening, List.cons_append, List.cons_append, List.append_assoc,
      List.singleton_append, openingsFrom_notLetter (by decide), behind_backslash]
    congr 1
    simp
    omega

end

/-! ## 3. Preambles take no marks -/

/-- No mark stands first in a stretch up to a brace, if the first line of it does not start with one
and its other lines have no backslash. -/
theorem not_mark {before : Option Char} {m : Mark} {stretch : Text} {ps : List Piece} {i j k : Nat}
    (tidy : Tidy before (.mark m stretch :: ps)) (size : j + k = i + 1)
    (line : Free (· == '\n') (marked (.mark m stretch :: ps)) j)
    (plain : Free (· == '\\') ((marked (.mark m stretch :: ps)).drop j) k)
    (start : 0 < j → atLineStart before = true → (marked (.mark m stretch :: ps)).head? ≠ some '\\')
    (brace : ((marked (.mark m stretch :: ps)).drop i).head? = some '\x7b') : False := by
  obtain ⟨name, render, -⟩ := m.render_cons
  rw [marked_mark] at line plain start brace
  cases opening : m.isOpening with
  | true =>
    -- an opening mark starts with its backslash
    rw [Mark.shown_opening opening, render] at plain start
    cases j with
    | zero =>
      obtain ⟨k, rfl⟩ : ∃ l, k = l + 1 := ⟨k - 1, by omega⟩
      exact absurd (free_cons_succ.mp plain).1 (by decide)
    | succ j => exact absurd rfl (start (Nat.succ_pos j) (tidy.1 opening))
  | false =>
    -- a closing mark starts with a line break, and its backslash stands behind that
    rw [Mark.shown_closing opening, render] at line plain brace
    cases j with
    | zero =>
      obtain ⟨i, rfl⟩ : ∃ l, i = l + 1 := ⟨i - 1, by cases i <;> simp at brace ⊢⟩
      obtain ⟨k, rfl⟩ : ∃ l, k = l + 2 := ⟨k - 2, by omega⟩
      have second := (free_cons_succ.mp plain).2
      exact absurd (free_cons_succ.mp second).1 (by decide)
    | succ j => exact absurd (free_cons_succ.mp line).1 (by decide)

/-- A stretch up to a brace holds no mark, if its first line does not start with one and its other
lines have no backslash: any other mark would bring a line break into the first line. -/
theorem exists_chars {before : Option Char} {ps : List Piece} {i j k : Nat} (tidy : Tidy before ps)
    (size : j + k = i + 1) (line : Free (· == '\n') (marked ps) j)
    (plain : Free (· == '\\') ((marked ps).drop j) k)
    (start : 0 < j → atLineStart before = true → (marked ps).head? ≠ some '\\')
    (brace : ((marked ps).drop i).head? = some '\x7b') :
    ∃ body rest, ps = chars (body ++ ['\x7b']) ++ rest ∧ body.length = i := by
  induction ps generalizing before i j k with
  | nil => simp at brace
  | cons p ps ih =>
    cases p with
    | mark m stretch => exact (not_mark tidy size line plain start brace).elim
    | char c =>
      cases i with
      | zero =>
        obtain rfl : c = '\x7b' := by simpa using brace
        exact ⟨[], ps, rfl, rfl⟩
      | succ i =>
        have ⟨body, rest, split, length⟩ : ∃ body rest,
            ps = chars (body ++ ['\x7b']) ++ rest ∧ body.length = i := by
          cases j with
          | zero =>
            obtain ⟨k, rfl⟩ : ∃ l, k = l + 1 := ⟨k - 1, by omega⟩
            obtain ⟨-, plain⟩ := free_cons_succ.mp plain
            exact ih tidy.2 (by omega) (.zero _) plain (by simp) brace
          | succ j =>
            obtain ⟨not_break, line⟩ := free_cons_succ.mp line
            have inLine : atLineStart (some c) = false := by
              simpa [atLineStart] using not_break
            exact ih tidy.2 (by omega) line plain (by simp [inLine]) brace
        exact ⟨c :: body, rest, by simp [split], by simp [length]⟩

/-- **A preamble takes characters only**: its text up to the brace, and the brace. -/
theorem exists_chars_of_preamble {before : Option Char} {ps : List Piece} {n : Nat}
    (tidy : Tidy before ps) (form : PreambleAt (marked ps) n) :
    ∃ body rest, ps = chars (body ++ ['\x7b']) ++ rest ∧ n = body.length + 1 ∧
      braces body = [] := by
  obtain ⟨i, rfl, free, brace⟩ := form.brace
  obtain ⟨j, k, size, line, plain⟩ := form.firstLine
  have start : (marked ps).head? ≠ some '\\' := by
    intro h
    have letter := form.letter
    rw [h] at letter
    exact absurd letter (by decide)
  obtain ⟨body, rest, rfl, rfl⟩ :=
    exists_chars tidy size.symm line plain (fun _ _ => start) brace
  refine ⟨body, rest, rfl, rfl, ?_⟩
  have taken : (marked (chars (body ++ ['\x7b']) ++ rest)).take body.length = body := by
    rw [marked_append, marked_chars, List.append_assoc, List.take_left]
  rw [braces, List.filter_eq_nil_iff]
  intro c mem
  rw [free.2 c (taken.symm ▸ mem)]
  decide

/-! ## 4. Pending closes -/

/-- How many characters behind the closing brace belong to the end of a scope. -/
def Pass.more (pass : Pass) (behind : Text) : Nat :=
  if pass.takesSemicolon && behind.head? == some ';' then 1 else 0

/-- The boundary that the search finds for the end of an open mark, when its brace lies `e` behind a
place. -/
def closingBoundary (pass : Pass) (m : Mark) (place e : Nat) (t : Text) : Boundary :=
  ⟨m.partner, place + e, place + e + 1 + pass.more (t.drop (e + 1))⟩

/-- The boundaries that the search has found for the ends of the marks on the stack, behind a place
from which the text `t` is left.  The innermost brace of the stack is closed where `depth` open ones
are, the next where one more is. -/
inductive Pending (pass : Pass) (place : Nat) (t : Text) :
    Nat → List (Option Mark) → List Boundary → Prop
  | nil {depth : Nat} : Pending pass place t depth [] []
  | brace {depth : Nat} {opened : List (Option Mark)} {bs : List Boundary}
      (rest : Pending pass place t (depth + 1) opened bs) :
      Pending pass place t depth (none :: opened) bs
  | mark {depth e : Nat} {m : Mark} {opened : List (Option Mark)} {bs : List Boundary}
      (close : closePlace? depth t = some e) (rest : Pending pass place t (depth + 1) opened bs) :
      Pending pass place t depth (some m :: opened) (closingBoundary pass m place e t :: bs)

namespace Pending

variable {pass : Pass} {place depth : Nat} {t : Text} {opened : List (Option Mark)}
  {bs : List Boundary}

/-- Behind a character the closes are one place nearer. -/
theorem behind {c : Char} {depth' : Nat} (h : Pending pass place (c :: t) depth opened bs)
    (step : ∀ k, closePlace? (depth + k) (c :: t) = (closePlace? (depth' + k) t).map (· + 1)) :
    Pending pass (place + 1) t depth' opened bs := by
  induction h generalizing depth' with
  | nil => exact .nil
  | @brace depth _ _ _ ih =>
    refine .brace (ih fun k => ?_)
    rw [Nat.add_right_comm depth, Nat.add_right_comm depth']
    exact step (k + 1)
  | @mark depth e m _ _ close _ ih =>
    have first := step 0
    rw [Nat.add_zero, close] at first
    obtain ⟨e', close', rfl⟩ := Option.map_eq_some_iff.mp first.symm
    have same : closingBoundary pass m place (e' + 1) (c :: t) =
        closingBoundary pass m (place + 1) e' t := by
      simp only [closingBoundary, List.drop_succ_cons, Nat.add_assoc, Nat.add_comm 1]
    rw [same]
    refine .mark close' (ih fun k => ?_)
    rw [Nat.add_right_comm depth, Nat.add_right_comm depth']
    exact step (k + 1)

theorem behind_open (h : Pending pass place ('\x7b' :: t) depth opened bs) :
    Pending pass (place + 1) t (depth + 1) opened bs :=
  h.behind fun k => by rw [closePlace_open, Nat.add_right_comm]

theorem behind_close (h : Pending pass place ('\x7d' :: t) (depth + 2) opened bs) :
    Pending pass (place + 1) t (depth + 1) opened bs :=
  h.behind fun k => by
    rw [Nat.add_right_comm depth 2, Nat.add_right_comm depth 1, closePlace_close_succ]

theorem behind_other {c : Char} (left : c ≠ '\x7b') (right : c ≠ '\x7d')
    (h : Pending pass place (c :: t) depth opened bs) :
      Pending pass (place + 1) t depth opened bs :=
  h.behind fun _ => closePlace_other left right _ _

/-- Behind a stretch without braces. -/
theorem behind_plain {s : Text} (plain : braces s = [])
    (h : Pending pass place (s ++ t) depth opened bs) :
    Pending pass (place + s.length) t depth opened bs := by
  induction s generalizing place with
  | nil => exact h
  | cons c s ih =>
    rcases brace_cases c with rfl | rfl | ⟨left, right⟩
    · simp at plain
    · simp at plain
    · rw [braces_cons_other left right] at plain
      have rest := ih plain (behind_other left right h)
      rwa [Nat.add_assoc, Nat.add_comm 1] at rest

/-- The end of the innermost mark, and what is pending around it. -/
theorem exists_close {m : Mark} (h : Pending pass place t depth (some m :: opened) bs) :
    ∃ e outer, closePlace? depth t = some e ∧ bs = closingBoundary pass m place e t :: outer ∧
      Pending pass place t (depth + 1) opened outer := by
  cases h with
  | mark close rest => exact ⟨_, _, close, rfl, rest⟩

/-- Around an ordinary brace. -/
theorem around_brace (h : Pending pass place t depth (none :: opened) bs) :
    Pending pass place t (depth + 1) opened bs := by
  cases h with
  | brace rest => exact rest

theorem eq_nil (h : Pending pass place t depth [] bs) : bs = [] := by
  cases h
  rfl

/-- Where no text is left, no mark is open. -/
theorem eq_none (h : Pending pass place [] depth opened bs) :
    (∀ o ∈ opened, o = none) ∧ bs = [] := by
  induction h with
  | nil => simp
  | brace _ ih => exact ⟨by simpa using ih.1, ih.2⟩
  | mark close _ _ => cases close

end Pending

/-- No mark starts with a semicolon. -/
theorem exists_semicolon {ps : List Piece} (h : (marked ps).head? = some ';') :
    ∃ rest, ps = .char ';' :: rest := by
  cases ps with
  | nil => simp at h
  | cons p ps =>
    cases p with
    | char c =>
      obtain rfl : c = ';' := by simpa using h
      exact ⟨ps, rfl⟩
    | mark m _ =>
      rw [marked_mark] at h
      rcases m.head_shown (marked ps) with head | head <;> simp [head] at h

theorem Pass.Ends.length_pos {pass : Pass} {stretch : Text} (ends : pass.Ends stretch) :
    0 < stretch.length := by
  rcases ends with rfl | ⟨-, rfl⟩ <;> simp

/-! ## 5. The search as a scan -/

/-- What the search of the text `full` has found, seen by a scan with a stack that has come to a
place of it: `ps` is left, `cs` are the constructs that start there, and `bs` the ends of the scopes
that are open. -/
structure Searched (pass : Pass) (limit : Nat) (full : Text) (place : Nat) (before : Option Char)
    (opened : List (Option Mark)) (ps : List Piece) (cs : List Construct) (bs : List Boundary) :
    Prop where
  here : full.drop place = marked ps
  tidy : Tidy before ps
  others : ∀ m ∈ marksIn ps, pass.owns m.kind.scope = false
  own : ∀ m, some m ∈ opened → pass.owns m.kind.scope = true
  pending : Pending pass place (marked ps) 1 opened bs
  closed : List.Forall₂ (Closed pass limit full)
    (openingsFrom pass.preamble place before (marked ps)) cs

namespace Searched

variable {pass : Pass} {limit : Nat} {full : Text} {place next : Nat} {before : Option Char}
  {opened : List (Option Mark)} {ps : List Piece} {cs : List Construct} {bs : List Boundary}

/-- Over a mark of another pass. -/
theorem behind_mark {m : Mark} {stretch : Text}
    (h : Searched pass limit full place before opened (.mark m stretch :: ps) cs bs) :
    Searched pass limit full (place + m.shown.length) (some '\n') opened ps cs bs where
  here := drop_behind h.here
  tidy := h.tidy.2
  others m mem := h.others m (List.mem_cons_of_mem _ mem)
  own := h.own
  pending := h.pending.behind_plain m.braces_shown
  closed := by
    have closed := h.closed
    rwa [marked_mark, openingsFrom_shown] at closed

/-- Over a character that starts no preamble. -/
theorem behind_char {c : Char} {bs' : List Boundary}
    (h : Searched pass limit full place before opened (.char c :: ps) cs bs)
    (opened' : List (Option Mark))
    (skip : openingsFrom pass.preamble place before (c :: marked ps) =
      openingsFrom pass.preamble (place + 1) (some c) (marked ps))
    (own : ∀ m, some m ∈ opened' → some m ∈ opened)
    (pending : Pending pass (place + 1) (marked ps) 1 opened' bs') :
    Searched pass limit full (place + 1) (some c) opened' ps cs bs' where
  here := drop_behind (s := [c]) h.here
  tidy := h.tidy.2
  others := h.others
  own m mem := h.own m (own m mem)
  pending := pending
  closed := skip ▸ h.closed

/-- Over a brace that closes a scope, and over its semicolon where that belongs to the scope. -/
theorem exists_ends {m : Mark}
    (h : Searched pass limit full place before (some m :: opened) (.char '\x7d' :: ps) cs bs) :
    ∃ stretch rest bs', .char '\x7d' :: ps = chars stretch ++ rest ∧ pass.Ends stretch ∧
      bs = ⟨m.partner, place, place + stretch.length⟩ :: bs' ∧
      Searched pass limit full (place + stretch.length) stretch.getLast? opened rest cs bs' := by
  obtain ⟨e, bs', close, rfl, outer⟩ := h.pending.exists_close
  obtain rfl : 0 = e := by simpa using close
  have brace := h.behind_char opened (openingsFrom_notLetter (by decide))
    (fun m mem => List.mem_cons_of_mem _ mem) outer.behind_close
  have boundary (k : Nat) (more : pass.more (marked ps) = k) :
      closingBoundary pass m place 0 (marked (.char '\x7d' :: ps)) =
        ⟨m.partner, place, place + (k + 1)⟩ := by
    subst more
    simp [closingBoundary, Nat.add_assoc, Nat.add_comm 1]
  by_cases semicolon : pass.takesSemicolon && (marked ps).head? == some ';'
  · have more : pass.more (marked ps) = 1 := if_pos semicolon
    simp only [Bool.and_eq_true, beq_iff_eq] at semicolon
    obtain ⟨takes, next⟩ := semicolon
    obtain ⟨rest, rfl⟩ := exists_semicolon next
    refine ⟨['\x7d', ';'], rest, bs', rfl, .inr ⟨takes, rfl⟩, by rw [boundary 1 more]; rfl, ?_⟩
    exact brace.behind_char opened (openingsFrom_notLetter (by decide)) (fun _ => id)
      (brace.pending.behind_other (by decide) (by decide))
  · have more : pass.more (marked ps) = 0 := if_neg semicolon
    exact ⟨['\x7d'], ps, bs', rfl, .inl rfl, by rw [boundary 0 more]; rfl, brace⟩

/-- The boundaries of a construct, and of those behind it: its close is counted from its body on. -/
theorem boundaries_construct {scope : ScopeKind} {start openAt e : Nat} {t : Text}
    (cs : List Construct) (body : full.drop (openAt + 1) = t) :
    boundaries next
      ((⟨scope, start, openAt⟩ : Opening).construct (e + 1) pass.takesSemicolon full :: cs) =
      ⟨⟨⟨scope, .opening⟩, next⟩, start, openAt + 1⟩ ::
        closingBoundary pass ⟨⟨scope, .opening⟩, next⟩ (openAt + 1) e t :: boundaries (next + 1)
          cs := by
  have behind_close : full.drop (openAt + 1 + e + 1) = t.drop (e + 1) := by
    rw [Nat.add_assoc, ← List.drop_drop, body]
  have closeAt : openAt + (e + 1) = openAt + 1 + e := by omega
  rw [boundaries, List.zipIdx_cons, List.flatMap_cons]
  simp [Construct.boundaries, Opening.construct, Construct.openingMark, closingBoundary, Pass.more,
    boundaries, ← behind_close, closeAt]

/-- Over a preamble: the search has found a construct for it, whose end is now open. -/
theorem exists_construct {scope : ScopeKind} {n : Nat} {c : Char}
    (found : pass.preamble before (c :: marked ps) = some (scope, n))
    (h : Searched pass limit full place before opened (.char c :: ps) cs bs) (next : Nat) :
    ∃ body rest cs' b, .char c :: ps = chars (body ++ ['\x7b']) ++ rest ∧
      pass.owns scope = true ∧ atLineStart before = true ∧ braces body = [] ∧
      boundaries next cs =
        ⟨⟨⟨scope, .opening⟩, next⟩, place, place + (body ++ ['\x7b']).length⟩ :: b ::
          boundaries (next + 1) cs' ∧
      Searched pass limit full (place + (body ++ ['\x7b']).length) (some '\x7b')
        (some ⟨⟨scope, .opening⟩, next⟩ :: opened) rest cs' (b :: bs) := by
  obtain ⟨own, start, form⟩ := pass.sound found
  have tidy : Tidy before (.char c :: ps) := h.tidy
  obtain ⟨body, rest, split, rfl, plain⟩ := exists_chars_of_preamble tidy form
  have text : c :: marked ps = (body ++ ['\x7b']) ++ marked rest := by
    rw [← marked_char, split, marked_append, marked_chars]
  have here : full.drop place = (body ++ ['\x7b']) ++ marked rest := h.here.trans text
  have at_brace : full.drop (place + body.length) = '\x7b' :: marked rest := by
    rw [List.append_assoc] at here
    exact drop_behind here
  have behind_brace := drop_behind here
  have taken : pass.preamble before ((body ++ ['\x7b']) ++ marked rest) =
      some (scope, (body ++ ['\x7b']).length) := by
    rw [← text, found, List.length_append, List.length_singleton]
  have closed := h.closed
  rw [marked_char, text, openingsFrom_preamble (by simp) taken] at closed
  obtain ⟨first, cs', ⟨d, close, rfl⟩, later, rfl⟩ := List.forall₂_cons_left_iff.mp closed
  simp only [List.length_append, List.length_singleton, Nat.add_sub_cancel, at_brace,
    matchingClose_eq_ok_iff] at close
  obtain ⟨e, rfl, close, -⟩ := close
  refine ⟨body, rest, cs', closingBoundary pass ⟨⟨scope, .opening⟩, next⟩
    (place + (body ++ ['\x7b']).length) e (marked rest), split, own, start, plain, ?_, ?_⟩
  · simp only [List.length_append, List.length_singleton, Nat.add_sub_cancel] at behind_brace ⊢
    exact boundaries_construct cs' behind_brace
  · have pending := h.pending
    have others := h.others
    rw [split] at tidy others
    rw [marked_char, text, List.append_assoc] at pending
    refine ⟨behind_brace, ?_, ?_, ?_, ?_, ?_⟩
    · have rest_tidy := tidy.behind_chars
      simpa [Text.lastOf] using rest_tidy
    · simpa using others
    · intro m mem
      rcases List.mem_cons.mp mem with h' | mem
      · cases h'
        exact own
      · exact h.own m mem
    · refine .mark close ?_
      have outer := (pending.behind_plain plain).behind_open
      simpa [Nat.add_assoc] using outer
    · simpa using later

end Searched

/-- A pass goes on from somewhere, with its marks exactly where the search has its boundaries. -/
def IsMarked (pass : Pass) (next place : Nat) (before : Option Char) (opened : List (Option Mark))
    (ps : List Piece) (cs : List Construct) (bs : List Boundary) : Prop :=
  ∃ qs, Marking pass next before opened ps qs ∧
    (placed pass place qs).Perm (boundaries next cs ++ bs)

/-- Whatever has been searched in fewer than `n` pieces is marked. -/
def MarksFewer (pass : Pass) (limit : Nat) (full : Text) (n : Nat) : Prop :=
  ∀ (next : Nat) {place : Nat} {before : Option Char} {opened : List (Option Mark)}
    {ps : List Piece} {cs : List Construct} {bs : List Boundary}, ps.length < n →
      Searched pass limit full place before opened ps cs bs →
        IsMarked pass next place before opened ps cs bs

namespace Searched

variable {pass : Pass} {limit : Nat} {full : Text} {place next : Nat} {before : Option Char}
  {opened : List (Option Mark)} {ps : List Piece} {cs : List Construct} {bs : List Boundary}
  {c : Char}

/-- A preamble becomes an opening mark, and the end of its construct waits on the stack. -/
theorem isMarked_preamble {scope : ScopeKind} {n : Nat}
    (fewer : MarksFewer pass limit full (ps.length + 1))
    (found : pass.preamble before (c :: marked ps) = some (scope, n))
    (h : Searched pass limit full place before opened (.char c :: ps) cs bs) :
    IsMarked pass next place before opened (.char c :: ps) cs bs := by
  obtain ⟨body, rest, cs', b, split, own, start, plain, numbered, inner⟩ :=
    h.exists_construct found next
  have shorter : rest.length < ps.length + 1 := by
    have length := congrArg List.length split
    simp only [chars, List.length_append, List.length_map, List.length_cons,
      List.length_nil] at length
    omega
  obtain ⟨qs, marking, perm⟩ := fewer (next + 1) shorter inner
  rw [IsMarked, split, numbered]
  refine ⟨_, .opening own start plain marking, ?_⟩
  simpa [placed, own] using perm.trans List.perm_middle

/-- A closing brace ends what is innermost on the stack: nothing, an ordinary brace or a scope. -/
theorem isMarked_close (fewer : MarksFewer pass limit full (ps.length + 1))
    (skip : openingsFrom pass.preamble place before ('\x7d' :: marked ps) =
      openingsFrom pass.preamble (place + 1) (some '\x7d') (marked ps))
    (h : Searched pass limit full place before opened (.char '\x7d' :: ps) cs bs) :
    IsMarked pass next place before opened (.char '\x7d' :: ps) cs bs := by
  match opened with
  | [] =>
    -- a stray close: nothing is open, so it ends no scope and stays as it is
    obtain rfl := h.pending.eq_nil
    have behind := h.behind_char [] skip (fun _ => id) .nil
    obtain ⟨qs, marking, perm⟩ := fewer next (Nat.lt_succ_self _) behind
    exact ⟨_, .closeBrace (by simp) marking, perm⟩
  | none :: outer =>
    have behind := h.behind_char outer skip (fun m mem => List.mem_cons_of_mem _ mem)
      h.pending.around_brace.behind_close
    obtain ⟨qs, marking, perm⟩ := fewer next (Nat.lt_succ_self _) behind
    exact ⟨_, .closeBrace (by simp) marking, perm⟩
  | some m :: outer =>
    obtain ⟨stretch, rest, bs', split, ends, rfl, behind⟩ := h.exists_ends
    have own : pass.owns m.kind.scope = true := h.own m List.mem_cons_self
    have shorter : rest.length < ps.length + 1 := by
      have length := congrArg List.length split
      have filled := ends.length_pos
      simp only [chars, List.length_append, List.length_map, List.length_cons] at length
      omega
    obtain ⟨qs, marking, perm⟩ := fewer next shorter behind
    rw [IsMarked, split]
    refine ⟨_, .closing ends marking, ?_⟩
    simpa [placed, own] using (perm.cons _).trans List.perm_middle.symm

/-- A character that starts no preamble. -/
theorem isMarked_char (fewer : MarksFewer pass limit full (ps.length + 1))
    (found : pass.preamble before (c :: marked ps) = none)
    (h : Searched pass limit full place before opened (.char c :: ps) cs bs) :
    IsMarked pass next place before opened (.char c :: ps) cs bs := by
  have skip : openingsFrom pass.preamble place before (c :: marked ps) =
      openingsFrom pass.preamble (place + 1) (some c) (marked ps) := openingsFrom_none found
  rcases brace_cases c with rfl | rfl | ⟨left, right⟩
  · have inner := h.behind_char (none :: opened) skip (by simp) (.brace h.pending.behind_open)
    obtain ⟨qs, marking, perm⟩ := fewer next (Nat.lt_succ_self _) inner
    exact ⟨_, .openBrace marking, perm⟩
  · exact h.isMarked_close fewer skip
  · have same := h.behind_char opened skip (fun _ => id) (h.pending.behind_other left right)
    obtain ⟨qs, marking, perm⟩ := fewer next (Nat.lt_succ_self _) same
    exact ⟨_, .other left right marking, perm⟩

end Searched

/-- **The search is a pass.**  Where a scan stands in a text that has been searched, a pass goes on
that puts its marks exactly where the search has its boundaries. -/
theorem exists_marking {pass : Pass} {limit : Nat} {full : Text} {place : Nat} (next : Nat)
    {before : Option Char} {opened : List (Option Mark)} {ps : List Piece} {cs : List Construct}
    {bs : List Boundary} (h : Searched pass limit full place before opened ps cs bs) :
    IsMarked pass next place before opened ps cs bs := by
  -- a preamble takes many characters at once, so the induction is on the number of pieces left
  induction hn : ps.length using Nat.strongRecOn
    generalizing place next before opened ps cs bs with
  | ind n ih =>
    subst hn
    have fewer : MarksFewer pass limit full ps.length :=
      fun next _ _ _ _ _ _ shorter searched => ih _ shorter next searched rfl
    cases ps with
    | nil =>
      obtain ⟨closed, rfl⟩ := h.pending.eq_none
      have none_found := h.closed
      rw [marked_nil, openingsFrom] at none_found
      cases none_found
      exact ⟨[], .done closed, .nil⟩
    | cons p ps =>
      cases p with
      | mark m stretch =>
        have other : pass.owns m.kind.scope = false := h.others m List.mem_cons_self
        obtain ⟨qs, marking, perm⟩ := fewer next (Nat.lt_succ_self _) h.behind_mark
        refine ⟨.mark m stretch :: qs, .earlier other marking, ?_⟩
        simpa [placed, other] using perm
      | char c =>
        cases found : pass.preamble before (c :: marked ps) with
        | some answer => exact h.isMarked_preamble fewer found
        | none => exact h.isMarked_char fewer found

/-! ## 6. Balanced texts -/

/-- The brace of an opening is where the opening says. -/
theorem exists_of_mem_openingsFrom {pass : Pass} {place : Nat} {before : Option Char} {t : Text}
    {o : Opening} (h : o ∈ openingsFrom pass.preamble place before t) :
    ∃ outer inner, t = outer ++ '\x7b' :: inner ∧ o.openAt = place + outer.length := by
  induction hn : t.length using Nat.strongRecOn generalizing place before t with
  | ind n ih =>
    subst hn
    cases t with
    | nil =>
      rw [openingsFrom] at h
      cases h
    | cons c t =>
      cases found : pass.preamble before (c :: t) with
      | none =>
        rw [openingsFrom_none found] at h
        obtain ⟨outer, inner, rfl, openAt⟩ := ih t.length (Nat.lt_succ_self _) h rfl
        exact ⟨c :: outer, inner, rfl, by rw [openAt, List.length_cons]; omega⟩
      | some answer =>
        obtain ⟨scope, n⟩ := answer
        obtain ⟨-, -, form⟩ := pass.sound found
        obtain ⟨body, rest, split, rfl⟩ := form.exists_body
        have taken : pass.preamble before ((body ++ ['\x7b']) ++ rest) =
            some (scope, (body ++ ['\x7b']).length) := by
          rw [← split, found, List.length_append, List.length_singleton]
        rw [split, openingsFrom_preamble (by simp) taken] at h
        rcases List.mem_cons.mp h with rfl | later
        · exact ⟨body, rest, by rw [split, List.append_assoc]; rfl, by simp⟩
        · have fewer : rest.length < (c :: t).length := by
            rw [split]
            simp only [List.length_append, List.length_singleton]
            omega
          obtain ⟨outer, inner, rfl, openAt⟩ := ih rest.length fewer later rfl
          exact ⟨body ++ ['\x7b'] ++ outer, inner, by simp [split],
            by simp only [openAt, List.length_append]; omega⟩

/-- **On balanced braces the search succeeds**, with a limit that is no less than their number. -/
theorem findConstructs_isOk (pass : Pass) {limit : Nat} (header : Text) {t : Text}
    (balanced : depthAfter? 0 t = some 0) (enough : (braces t).length ≤ limit) :
    ∃ cs, findConstructs pass.preamble pass.takesSemicolon limit header t = .ok cs := by
  have each (o : Opening) (mem : o ∈ openings pass.preamble t) :
      ∃ d, matchingClose limit (t.drop o.openAt) = .ok d := by
    obtain ⟨outer, inner, rfl, openAt⟩ := exists_of_mem_openingsFrom mem
    rw [openAt, Nat.zero_add, List.drop_left]
    rw [depthAfter_append] at balanced
    obtain ⟨d, -, inner_zero⟩ := Option.bind_eq_some_iff.mp balanced
    obtain ⟨e, close⟩ := Option.isSome_iff_exists.mp
      (closePlace_isSome inner_zero (Nat.zero_le d) Nat.one_pos)
    refine ⟨e + 1, matchingClose_eq_ok_iff.mpr ⟨e, rfl, close, ?_⟩⟩
    have part : (braces (inner.take (e + 1))).length ≤ (braces inner).length :=
      ((List.take_sublist _ _).filter _).length_le
    rw [braces_append, braces_cons_open, List.length_append, List.length_cons] at enough
    omega
  cases found : findConstructs pass.preamble pass.takesSemicolon limit header t with
  | ok cs => exact ⟨cs, rfl⟩
  | error e =>
    obtain ⟨o, mem, fails⟩ := exists_of_mapM_error found
    obtain ⟨d, close⟩ := each o mem
    rw [close] at fails
    cases fails

end AccessorCatalog.Outline

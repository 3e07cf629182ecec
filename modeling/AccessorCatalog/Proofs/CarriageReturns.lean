/-
# Carriage returns

A header can have carriage returns in front of its line feeds, and in the normalized text they
should leave no trace.  `WithReturns s t` says that `t` is `s` with some of them put in.  Each pass
of `programText` looks at the ends of lines in its own way, and keeps the relation as long as no
literal and no directive goes on behind a line feed; then all runs of blanks become single blanks,
and both texts are the same (`normalize_eq_of_withReturns`).

A literal or a directive goes on behind a backslash at the end of its line.  There a carriage return
does leave a trace: it stands between the backslash and the line feed, which is then not seen to be
escaped.  A macro is cut off behind its first line, and the rest of it is read as program text
(`lineEndings_irrelevant_continued`).
-/
import AccessorCatalog.Proofs.Comments
import AccessorCatalog.Proofs.TidyTypes

namespace AccessorCatalog

/-! ## 1. Texts with carriage returns -/

namespace Text

/-- A text, and the same text with carriage returns in front of some of its line feeds. -/
inductive WithReturns : Text → Text → Prop
  | nil : WithReturns [] []
  | same (c : Char) {s t : Text} (rest : WithReturns s t) : WithReturns (c :: s) (c :: t)
  | added {s t : Text} (rest : WithReturns s t) : WithReturns ('\n' :: s) ('\r' :: '\n' :: t)

/-- The text with a carriage return in front of every line feed. -/
def withReturns (t : Text) : Text :=
  t.flatMap fun c => if c = '\n' then ['\r', '\n'] else [c]

theorem withReturns_all (t : Text) : WithReturns t (withReturns t) := by
  induction t with
  | nil => exact .nil
  | cons c t ih =>
    unfold withReturns at ih ⊢
    rw [List.flatMap_cons]
    split
    · next feed =>
      rw [feed]
      exact .added ih
    · exact .same c ih

namespace WithReturns

variable {s t : Text}

theorem refl (t : Text) : WithReturns t t := by
  induction t with
  | nil => exact .nil
  | cons c t ih => exact .same c ih

theorem append {s' t' : Text} (h : WithReturns s t) (h' : WithReturns s' t') :
    WithReturns (s ++ s') (t ++ t') := by
  induction h with
  | nil => exact h'
  | same c _ ih => exact .same c ih
  | added _ ih => exact .added ih

/-- A stretch without line feeds is the same in both texts. -/
theorem of_append {stretch : Text} (unbroken : '\n' ∉ stretch)
    (h : WithReturns (stretch ++ s) t) : ∃ t', t = stretch ++ t' ∧ WithReturns s t' := by
  induction stretch generalizing t with
  | nil => exact ⟨t, rfl, h⟩
  | cons c stretch ih =>
    rw [List.cons_append] at h
    cases h with
    | same _ rest =>
      obtain ⟨t', rfl, behind⟩ := ih (List.not_mem_of_not_mem_cons unbroken) rest
      exact ⟨t', rfl, behind⟩
    | added _ => exact absurd List.mem_cons_self unbroken

/-- So are the texts behind a run of characters, if the run takes carriage returns whenever it takes
line feeds. -/
theorem dropWhile {p : Char → Bool} (together : p '\n' = true → p '\r' = true)
    (h : WithReturns s t) : WithReturns (s.dropWhile p) (t.dropWhile p) := by
  induction h with
  | nil => exact .nil
  | same c rest ih =>
    rw [List.dropWhile_cons, List.dropWhile_cons]
    split
    · exact ih
    · exact .same c rest
  | added rest ih =>
    rw [List.dropWhile_cons, List.dropWhile_cons]
    cases feed : p '\n' with
    | true =>
      rw [if_pos (together feed), if_pos rfl, List.dropWhile_cons, if_pos feed]
      exact ih
    | false =>
      rw [if_neg Bool.false_ne_true]
      split
      · rw [List.dropWhile_cons, if_neg (by rw [feed]; exact Bool.false_ne_true)]
        exact .same '\n' rest
      · exact .added rest

end WithReturns

/-! ## 2. Replacing -/

/-- The stretches of a text that a pattern takes, in their order. -/
def stretchesFrom (pattern : Pattern) (before : Option Char) : Text → List Text
  | [] => []
  | c :: t =>
    match pattern before (c :: t) with
    | some n =>
      let taken := c :: t.take (n - 1)
      taken :: stretchesFrom pattern (lastOf before taken) (t.drop (n - 1))
    | none => stretchesFrom pattern (some c) t
termination_by t => t.length
decreasing_by all_goals simp; try omega

/-- The stretches of the whole text that a pattern takes. -/
def stretches (pattern : Pattern) (t : Text) : List Text :=
  stretchesFrom pattern none t

section Scanning

variable {pattern : Pattern} {before : Option Char} {c : Char} {t : Text}

theorem stretchesFrom_cons_none (h : pattern before (c :: t) = none) :
    stretchesFrom pattern before (c :: t) = stretchesFrom pattern (some c) t := by
  rw [stretchesFrom, h]

theorem stretchesFrom_cons_some {n : Nat} (h : pattern before (c :: t) = some n) :
    stretchesFrom pattern before (c :: t) =
      (c :: t.take (n - 1)) ::
        stretchesFrom pattern (lastOf before (c :: t.take (n - 1))) (t.drop (n - 1)) := by
  rw [stretchesFrom, h]

end Scanning

theorem replaceMatches_of_some {pattern : Pattern} {image : Text → Text} {before : Option Char}
    {t : Text} {n : Nat} (filled : t ≠ []) (h : pattern before t = some n) (some_taken : 0 < n) :
    replaceMatchesFrom pattern image before t =
      image (t.take n) ++
        replaceMatchesFrom pattern image (lastOf before (t.take n)) (t.drop n) := by
  obtain ⟨c, t, rfl⟩ := List.exists_cons_of_ne_nil filled
  rw [replaceMatches_cons_some h, List.take_cons some_taken, List.drop_cons some_taken]

/-- At one place of a text and of the same text with carriage returns, a pattern takes nothing in
both, or it takes stretches whose images are the same up to carriage returns.  What the pattern may
ask of the character before a place (`near`) has one answer on both sides, here and behind what is
taken. -/
inductive Agree (pattern : Pattern) (image : Text → Text) (near : Option Char → Option Char → Prop)
    (before before' : Option Char) (s t : Text) : Prop
  | kept (here : pattern before s = none) (here' : pattern before' t = none)
  | taken {n m : Nat} (here : pattern before s = some n) (here' : pattern before' t = some m)
    (some_taken : 0 < n ∧ 0 < m) (images : WithReturns (image (s.take n)) (image (t.take m)))
    (rest : WithReturns (s.drop n) (t.drop m))
    (behind : near (lastOf before (s.take n)) (lastOf before' (t.take m)))

/-- **What agrees at every place agrees in the whole.**  A line feed that is kept must be kept
behind a carriage return as well, since there the pattern looks at it with another character before
it. -/
theorem WithReturns.replaceMatchesFrom {pattern : Pattern} {image : Text → Text}
    {Fits : Text → Prop}
    (near : Option Char → Option Char → Prop) (same : ∀ c, near (some c) (some c))
    (feed_kept : ∀ {before : Option Char} {s : Text}, pattern before ('\n' :: s) = none →
      ∀ t, pattern (some '\r') ('\n' :: t) = none)
    (agree : ∀ (before before' : Option Char) (s t : Text), near before before' → WithReturns s t →
      s ≠ [] → (∀ n, pattern before s = some n → 0 < n → Fits (s.take n)) →
      Agree pattern image near before before' s t)
    {before before' : Option Char} {s t : Text} (starts : near before before') (h : WithReturns s t)
    (fits : ∀ stretch ∈ stretchesFrom pattern before s, Fits stretch) :
    WithReturns (replaceMatchesFrom pattern image before s)
      (replaceMatchesFrom pattern image before' t) := by
  fun_induction Text.replaceMatchesFrom pattern image before s generalizing before' t with
  | case1 =>
    cases h
    rw [replaceMatchesFrom_nil]
    exact .nil
  | case2 before c s n found taken =>
    rename_i ih
    rw [stretchesFrom_cons_some found] at fits
    obtain ⟨first, fits⟩ := List.forall_mem_cons.mp fits
    have filled : t ≠ [] := by
      rintro rfl
      cases h
    have first_fits (k : Nat) (here : pattern before (c :: s) = some k) (some_taken : 0 < k) :
        Fits ((c :: s).take k) := by
      rw [found] at here
      cases here
      rwa [List.take_cons some_taken]
    cases agree _ _ _ _ starts h (List.cons_ne_nil c s) first_fits with
    | kept here _ =>
      rw [found] at here
      cases here
    | taken here here' some_taken images rest behind =>
      rw [found] at here
      cases here
      rw [List.take_cons some_taken.1] at images behind
      rw [List.drop_cons some_taken.1] at rest
      rw [replaceMatches_of_some filled here' some_taken.2]
      exact images.append (ih behind rest fits)
  | case3 before c s found ih =>
    rw [stretchesFrom_cons_none found] at fits
    have nothing (k : Nat) (here : pattern before (c :: s) = some k) (_ : 0 < k) :
        Fits ((c :: s).take k) := by
      rw [found] at here
      cases here
    cases agree _ _ _ _ starts h (List.cons_ne_nil c s) nothing with
    | taken here _ _ _ _ _ =>
      rw [found] at here
      cases here
    | kept _ here' =>
      cases h with
      | same _ rest =>
        rw [replaceMatches_cons_none here']
        exact .same c (ih (same c) rest fits)
      | added rest =>
        rw [replaceMatches_cons_none here', replaceMatches_cons_none (feed_kept found _)]
        exact .added (ih (same '\n') rest fits)

end Text

namespace Source

open Text (WithReturns Agree countWhile isBlank)

variable {s t : Text}

/-! ## 3. Comments and literals -/

/-- A block comment ends in both texts, or in none. -/
theorem blockRest?_withReturns (h : WithReturns s t) :
    blockRest? s = none ∧ blockRest? t = none ∨
      ∃ n m, blockRest? s = some n ∧ blockRest? t = some m ∧ WithReturns (s.drop n) (t.drop m) := by
  have step {c : Char} {s : Text} (other : ∀ after, c = '*' → s = '/' :: after → False) :
      blockRest? (c :: s) = (blockRest? s).map (· + 1) := by
    rw [blockRest?]
    exact other
  fun_induction blockRest? s generalizing t with
  | case1 =>
    cases h
    exact .inl ⟨rfl, rfl⟩
  | case2 s =>
    cases h with
    | same _ h =>
      cases h with
      | same _ rest => exact .inr ⟨2, 2, rfl, rfl, rest⟩
  | case3 c s other ih =>
    cases h with
    | @same _ _ t rest =>
      have other' (after : Text) (star : c = '*') (slash : t = '/' :: after) : False := by
        subst slash
        cases rest with
        | same _ _ => exact other _ star rfl
      rw [step other']
      obtain ⟨open_s, open_t⟩ | ⟨n, m, closed_s, closed_t, rest⟩ := ih rest
      · exact .inl ⟨by rw [open_s]; rfl, by rw [open_t]; rfl⟩
      · exact .inr ⟨n + 1, m + 1, by rw [closed_s]; rfl, by rw [closed_t]; rfl, rest⟩
    | @added _ t rest =>
      rw [step fun _ star _ => absurd star (by decide),
        step fun _ star _ => absurd star (by decide)]
      obtain ⟨open_s, open_t⟩ | ⟨n, m, closed_s, closed_t, rest⟩ := ih rest
      · exact .inl ⟨by rw [open_s]; rfl, by rw [open_t]; rfl⟩
      · exact .inr ⟨n + 1, m + 2, by rw [closed_s]; rfl, by rw [closed_t]; rfl, rest⟩

/-- A literal that ends on its line ends there in both texts. -/
theorem literalRest?_withReturns {quote : Char} {n : Nat} (h : WithReturns s t)
    (closed : literalRest? quote s = some n) (unbroken : '\n' ∉ s.take n) :
    literalRest? quote t = some n ∧ WithReturns (s.drop n) (t.drop n) := by
  fun_induction literalRest? quote s generalizing n t with
  | case1 | case2 | case5 => cases closed
  | case3 c s ih =>
    obtain ⟨m, found, rfl⟩ := Option.map_eq_some_iff.mp closed
    rw [List.take_succ_cons, List.take_succ_cons] at unbroken
    have first : '\n' ∉ ['\\', c] := fun mem => unbroken (List.mem_append_left _ mem)
    obtain ⟨t, rfl, rest⟩ := WithReturns.of_append first h
    obtain ⟨found', rest⟩ := ih rest found fun mem => unbroken (List.mem_append_right ['\\', c] mem)
    refine ⟨?_, rest⟩
    rw [List.cons_append, List.singleton_append, literalRest?, found']
    rfl
  | case4 s single pair =>
    cases closed
    have first : '\n' ∉ [quote] := unbroken
    obtain ⟨t, rfl, rest⟩ := WithReturns.of_append first h
    refine ⟨?_, rest⟩
    rw [List.singleton_append, literalRest?_cons (escapes_nothing single pair), if_pos rfl]
  | case6 c s single pair other no_break ih =>
    obtain ⟨m, found, rfl⟩ := Option.map_eq_some_iff.mp closed
    rw [List.take_succ_cons] at unbroken
    have first : '\n' ∉ [c] := fun mem => unbroken (List.mem_append_left _ mem)
    obtain ⟨t, rfl, rest⟩ := WithReturns.of_append first h
    obtain ⟨found', rest⟩ := ih rest found fun mem => unbroken (List.mem_append_right [c] mem)
    refine ⟨?_, rest⟩
    rw [List.singleton_append, literalRest?_cons (escapes_nothing single pair), if_neg other,
      if_neg no_break, found']
    rfl

/-- A quote that opens a literal in front of carriage returns opens one without them. -/
theorem exists_literalRest? {quote : Char} {n : Nat} (plain : quote = '"' ∨ quote = '\'')
    (h : WithReturns s t) (closed : literalRest? quote t = some n) :
    ∃ m, literalRest? quote s = some m := by
  have no_feed : quote ≠ '\n' := by rcases plain with rfl | rfl <;> decide
  have no_return : quote ≠ '\r' := by rcases plain with rfl | rfl <;> decide
  have open_before_feed (t : Text) : literalRest? quote ('\n' :: t) = none := by
    rw [literalRest?_cons (by decide), if_neg no_feed.symm, if_pos rfl]
  fun_induction literalRest? quote t generalizing n s with
  | case1 | case2 | case5 => cases closed
  | case3 c t ih =>
    obtain ⟨m, found, -⟩ := Option.map_eq_some_iff.mp closed
    cases h with
    | same _ h =>
      cases h with
      | same _ rest =>
        obtain ⟨k, found'⟩ := ih rest found
        exact ⟨k + 2, by rw [literalRest?, found']; rfl⟩
      | added rest =>
        -- the return is escaped, and the line feed behind it leaves the literal open
        rw [open_before_feed] at found
        cases found
  | case4 t single pair =>
    cases h with
    | same _ rest =>
      exact ⟨1, by rw [literalRest?_cons (escapes_nothing single pair), if_pos rfl]⟩
    | added rest => exact absurd rfl no_return
  | case6 c t single pair other no_break ih =>
    obtain ⟨m, found, -⟩ := Option.map_eq_some_iff.mp closed
    cases h with
    | same _ rest =>
      obtain ⟨k, found'⟩ := ih rest found
      refine ⟨k + 1, ?_⟩
      rw [literalRest?_cons (escapes_nothing single pair), if_neg other, if_neg no_break, found']
      rfl
    | added rest =>
      rw [open_before_feed] at found
      cases found

/-- Of what the scan takes, the literals start with a quote. -/
def IsLiteral (stretch : Text) : Prop :=
  stretch.head? = some '"' ∨ stretch.head? = some '\''

instance (stretch : Text) : Decidable (IsLiteral stretch) :=
  inferInstanceAs (Decidable (_ ∨ _))

/-- A stretch ends on the line on which it starts, if it is a literal. -/
def EndsOnLine (stretch : Text) : Prop :=
  IsLiteral stretch → '\n' ∉ stretch

instance (stretch : Text) : Decidable (EndsOnLine stretch) :=
  inferInstanceAs (Decidable (_ → _))

variable {before before' : Option Char}

theorem agree_literal {quote : Char} (plain : quote = '"' ∨ quote = '\'') (h : WithReturns s t)
    (ends : ∀ n, commentOrLiteral before (quote :: s) = some n → 0 < n →
      EndsOnLine ((quote :: s).take n)) :
    Agree commentOrLiteral residue (fun _ _ => True) before before' (quote :: s) (quote :: t) := by
  have opened (before : Option Char) (t : Text) :
      commentOrLiteral before (quote :: t) = (literalRest? quote t).map (· + 1) := by
    rcases plain with rfl | rfl <;> rfl
  have left_of (t : Text) (n : Nat) : residue ((quote :: t).take (n + 1)) = [quote, quote] := by
    rcases plain with rfl | rfl <;> rfl
  cases closed : literalRest? quote s with
  | none =>
    refine .kept (by rw [opened, closed]; rfl) ?_
    rw [opened]
    cases closed' : literalRest? quote t with
    | none => rfl
    | some n =>
      obtain ⟨m, found⟩ := exists_literalRest? plain h closed'
      rw [closed] at found
      cases found
  | some n =>
    have here : commentOrLiteral before (quote :: s) = some (n + 1) := by rw [opened, closed]; rfl
    have unbroken : '\n' ∉ s.take n := by
      have whole := ends _ here n.succ_pos (by rcases plain with rfl | rfl <;> simp [IsLiteral])
      exact fun mem => whole (List.mem_cons_of_mem quote mem)
    obtain ⟨closed', rest⟩ := literalRest?_withReturns h closed unbroken
    refine .taken here (by rw [opened, closed']; rfl) ⟨n.succ_pos, n.succ_pos⟩ ?_ rest trivial
    rw [left_of, left_of]
    exact .refl _

/-- Two characters that may open a comment, with the same ones in front of carriage returns. -/
theorem agree_slash {d : Char} (h : WithReturns s t) :
    Agree commentOrLiteral residue (fun _ _ => True) before before'
      ('/' :: d :: s) ('/' :: d :: t) := by
  by_cases block : d = '*'
  · subst block
    have opened (before : Option Char) (t : Text) :
        commentOrLiteral before ('/' :: '*' :: t) = (blockRest? t).map (· + 2) := rfl
    obtain ⟨open_s, open_t⟩ | ⟨n, m, closed, closed', rest⟩ := blockRest?_withReturns h
    · exact .kept (by rw [opened, open_s]; rfl) (by rw [opened, open_t]; rfl)
    · exact .taken (n := n + 2) (m := m + 2) (by rw [opened, closed]; rfl)
        (by rw [opened, closed']; rfl) ⟨n.succ.succ_pos, m.succ.succ_pos⟩ (.refl [' ']) rest trivial
  by_cases line : d = '/'
  · subst line
    have opened (before : Option Char) (t : Text) : commentOrLiteral before ('/' :: '/' :: t) =
        some (countWhile (· != '\n') t + 2) := by
      rw [Nat.add_comm]
      rfl
    refine .taken (opened before s) (opened before' t) ⟨Nat.succ_pos _, Nat.succ_pos _⟩ .nil ?_
      trivial
    show WithReturns (s.drop _) (t.drop _)
    rw [Text.drop_countWhile, Text.drop_countWhile]
    exact h.dropWhile fun feed => absurd feed (by decide)
  · have no_opener (t : Text) : commentOrLiteral none ('/' :: d :: t) = none :=
      commentOrLiteral_eq_none (by decide) fun _ => ⟨by simpa using block, by simpa using line⟩
    exact .kept (no_opener s) (no_opener t)

/-- **Comments and literals are read alike at every place.** -/
theorem agree_commentOrLiteral (h : WithReturns s t) (filled : s ≠ [])
    (ends : ∀ n, commentOrLiteral before s = some n → 0 < n → EndsOnLine (s.take n)) :
    Agree commentOrLiteral residue (fun _ _ => True) before before' s t := by
  cases h with
  | nil => exact absurd rfl filled
  | added rest => exact .kept rfl rfl
  | @same c s t rest =>
    by_cases quote : c = '"' ∨ c = '\''
    · exact agree_literal quote rest ends
    by_cases slash : c = '/'
    · subst slash
      cases rest with
      | nil => exact .kept rfl rfl
      | added _ => exact .kept rfl rfl
      | same d rest => exact agree_slash rest
    · have no_opener (t : Text) : commentOrLiteral none (c :: t) = none :=
        commentOrLiteral_eq_none (not_or.mp quote) fun is_slash => absurd is_slash slash
      exact .kept (no_opener s) (no_opener t)

/-- Without comments and contents of literals, the texts are still the same up to carriage
returns. -/
theorem stripComments_withReturns (h : WithReturns s t)
    (ends : ∀ stretch ∈ Text.stretches commentOrLiteral s, EndsOnLine stretch) :
    WithReturns (stripComments s) (stripComments t) :=
  .replaceMatchesFrom (fun _ _ => True) (fun _ => trivial) (fun _ _ => rfl)
    (fun _ _ _ _ _ => agree_commentOrLiteral) trivial h ends

/-! ## 4. Directives -/

/-- Whether a place with this character in front of it starts a line. -/
def StartsLine (before : Option Char) : Prop :=
  before = none ∨ before = some '\n'

/-- A blank or a tab. -/
def isIndent (c : Char) : Bool :=
  c == ' ' || c == '\t'

theorem directive_of_not_startsLine (inside : ¬ StartsLine before) : directive before t = none :=
  if_neg inside

theorem directive_of_startsLine (starts : StartsLine before) :
    directive before t = match t.dropWhile isIndent with
      | '#' :: s => some (countWhile isIndent t + 1 + directiveRest s)
      | _ => none := by
  rw [← Text.drop_countWhile]
  exact if_pos starts

/-- A directive that ends on its line ends in front of the same line feed, with a carriage return or
without. -/
theorem directiveRest_withReturns (h : WithReturns s t)
    (unbroken : '\n' ∉ s.take (directiveRest s)) :
    WithReturns (s.drop (directiveRest s)) (t.drop (directiveRest t)) ∧
      '\n' ∉ t.take (directiveRest t) := by
  fun_induction directiveRest s generalizing t with
  | case1 =>
    cases h
    exact ⟨.nil, List.not_mem_nil⟩
  | case2 s ih => exact absurd (by simp) unbroken
  | case3 s other =>
    cases h with
    | same _ rest => exact ⟨.same '\n' rest, List.not_mem_nil⟩
    | @added _ t rest =>
      have stop : directiveRest ('\r' :: '\n' :: t) = 1 := rfl
      rw [stop]
      exact ⟨.same '\n' rest, by simp⟩
  | case4 c s other no_feed ih =>
    cases h with
    | @same _ _ t rest =>
      rw [List.take_succ_cons] at unbroken
      obtain ⟨rest', unbroken'⟩ := ih rest fun mem => unbroken (List.mem_cons_of_mem c mem)
      have step : directiveRest (c :: t) = directiveRest t + 1 := by
        rw [directiveRest, if_neg no_feed]
        rintro after rfl rfl
        cases rest with
        | same _ _ => exact other _ rfl rfl
      rw [step]
      refine ⟨rest', ?_⟩
      rw [List.take_succ_cons]
      exact List.not_mem_cons_of_ne_of_not_mem (Ne.symm no_feed) unbroken'
    | added _ => exact absurd rfl no_feed

/-- A directive is cut into blanks and tabs, the `#`, and what belongs to it. -/
theorem cut_directive (hash : t.dropWhile isIndent = '#' :: s) (k : Nat) :
    t.take (countWhile isIndent t + 1 + k) = t.takeWhile isIndent ++ '#' :: s.take k ∧
      t.drop (countWhile isIndent t + 1 + k) = s.drop k := by
  have cut : t = t.takeWhile isIndent ++ '#' :: s := by
    rw [← hash, List.takeWhile_append_dropWhile]
  have length : countWhile isIndent t + 1 + k = (t.takeWhile isIndent).length + (k + 1) := by
    rw [countWhile, Nat.add_assoc, Nat.add_comm 1 k]
  rw [length]
  generalize t.takeWhile isIndent = lead at cut
  rw [cut, List.take_length_add_append, List.drop_length_add_append, List.take_succ_cons,
    List.drop_succ_cons]
  exact ⟨rfl, rfl⟩

/-- Behind a stretch without line feeds no line starts. -/
theorem not_startsLine_lastOf {stretch : Text} (filled : stretch ≠ []) (unbroken : '\n' ∉ stretch)
    (before : Option Char) : ¬ StartsLine (Text.lastOf before stretch) := by
  have last : Text.lastOf before stretch = some (stretch.getLast filled) := by
    rw [Text.lastOf, List.getLast?_eq_some_getLast filled]
    rfl
  rw [last]
  rintro (none_left | feed)
  · cases none_left
  · exact unbroken (Option.some.inj feed ▸ List.getLast_mem filled)

theorem not_mem_indent (t : Text) : '\n' ∉ t.takeWhile isIndent :=
  fun mem => absurd (List.mem_takeWhile_imp mem) (by decide)

/-- Two places that start a line, or two that do not. -/
def SameStart (before before' : Option Char) : Prop :=
  StartsLine before ↔ StartsLine before'

/-- **Directives are read alike at every place.** -/
theorem agree_directive (near : SameStart before before') (h : WithReturns s t)
    (unbroken : ∀ n, directive before s = some n → 0 < n → '\n' ∉ s.take n) :
    Agree directive (fun _ => []) SameStart before before' s t := by
  by_cases starts : StartsLine before
  · have rest : WithReturns (s.dropWhile isIndent) (t.dropWhile isIndent) :=
      h.dropWhile fun feed => absurd feed (by decide)
    have here := directive_of_startsLine (t := s) starts
    have here' := directive_of_startsLine (t := t) (near.mp starts)
    generalize hash : s.dropWhile isIndent = s₁ at rest here
    generalize hash' : t.dropWhile isIndent = t₁ at rest here'
    cases rest with
    | nil => exact .kept here here'
    | added _ => exact .kept here here'
    | @same c s₁ t₁ rest =>
      by_cases is_hash : c = '#'
      · subst is_hash
        have whole := unbroken _ here (by omega)
        obtain ⟨taken, behind⟩ := cut_directive hash (directiveRest s₁)
        obtain ⟨taken', behind'⟩ := cut_directive hash' (directiveRest t₁)
        rw [taken] at whole
        have inside : '\n' ∉ s₁.take (directiveRest s₁) := fun mem =>
          whole (List.mem_append_right _ (List.mem_cons_of_mem _ mem))
        obtain ⟨rest, inside'⟩ := directiveRest_withReturns rest inside
        refine .taken here here' ⟨by omega, by omega⟩ .nil ?_ ?_
        · rw [behind, behind']
          exact rest
        · have whole' : '\n' ∉ t.takeWhile isIndent ++ '#' :: t₁.take (directiveRest t₁) := by
            simp [not_mem_indent t, inside']
          rw [taken, taken']
          exact iff_of_false (not_startsLine_lastOf (by simp) whole _)
            (not_startsLine_lastOf (by simp) whole' _)
      · have no_directive (u : Text) (n : Text → Nat) :
            (match c :: u with
              | '#' :: u => some (n u)
              | _ => none) = none := by
          split
          · next eq => exact absurd (List.cons.inj eq).1 is_hash
          · rfl
        exact .kept (here.trans (no_directive s₁ _)) (here'.trans (no_directive t₁ _))
  · exact .kept (directive_of_not_startsLine starts)
      (directive_of_not_startsLine (mt near.mpr starts))

/-- Without directives, the texts are still the same up to carriage returns. -/
theorem stripDirectives_withReturns (h : WithReturns s t)
    (unbroken : ∀ stretch ∈ Text.stretches directive s, '\n' ∉ stretch) :
    WithReturns (stripDirectives s) (stripDirectives t) := by
  have behind_return (t : Text) : directive (some '\r') ('\n' :: t) = none :=
    directive_of_not_startsLine (by simp [StartsLine])
  exact .replaceMatchesFrom SameStart (fun _ => .rfl) (fun _ => behind_return)
    (fun _ _ _ _ near h _ => agree_directive near h) .rfl h unbroken

/-! ## 5. Blanks -/

/-- **With single blanks, the texts are the same.** -/
theorem replaceMatches_blankRun_withReturns (h : WithReturns s t) :
    Text.replaceMatches blankRun (fun _ => [' ']) s =
      Text.replaceMatches blankRun (fun _ => [' ']) t := by
  unfold Text.replaceMatches
  -- a run of blanks is taken at once, so the induction is on the length
  induction hn : s.length using Nat.strongRecOn generalizing s t with
  | ind n ih =>
    subst hn
    have behind {c : Char} {u v : Text} (cut : s = c :: u) (rest : WithReturns u v) :
        Text.replaceMatchesFrom blankRun (fun _ => [' ']) none (u.dropWhile isBlank) =
          Text.replaceMatchesFrom blankRun (fun _ => [' ']) none (v.dropWhile isBlank) := by
      have shorter : (u.dropWhile isBlank).length < s.length := by
        rw [cut, List.length_cons]
        exact Nat.lt_succ_of_le (List.dropWhile_sublist isBlank).length_le
      exact ih _ shorter (rest.dropWhile fun _ => rfl) rfl
    cases h with
    | nil => rfl
    | added rest =>
      have feed : isBlank '\n' = true := by decide
      rw [Text.replaceMatches_blankRun_blank feed, Text.replaceMatches_blankRun_blank (by decide),
        List.dropWhile_cons_of_pos feed, behind rfl rest]
    | same c rest =>
      cases blank : isBlank c with
      | true =>
        rw [Text.replaceMatches_blankRun_blank blank, Text.replaceMatches_blankRun_blank blank,
          behind rfl rest]
      | false =>
        rw [Text.replaceMatches_blankRun_solid blank, Text.replaceMatches_blankRun_solid blank,
          ih _ (Nat.lt_succ_self _) rest rfl]

/-- Every literal ends on its line, and so does every directive of what is left without comments. -/
structure Unbroken (t : Text) : Prop where
  literals : ∀ stretch ∈ Text.stretches commentOrLiteral t, EndsOnLine stretch
  directives : ∀ stretch ∈ Text.stretches directive (stripComments t), '\n' ∉ stretch

instance (t : Text) : Decidable (Unbroken t) :=
  decidable_of_iff ((∀ stretch ∈ Text.stretches commentOrLiteral t, EndsOnLine stretch) ∧
      ∀ stretch ∈ Text.stretches directive (stripComments t), '\n' ∉ stretch)
    ⟨fun h => ⟨h.1, h.2⟩, fun h => ⟨h.literals, h.directives⟩⟩

/-- Carriage returns leave no trace in the normalized text. -/
theorem normalize_eq_of_withReturns (h : WithReturns s t) (unbroken : Unbroken s) :
    normalize t = normalize s := by
  have program : WithReturns (programText s) (programText t) :=
    stripDirectives_withReturns (stripComments_withReturns h unbroken.literals) unbroken.directives
  have spaced : canonicalSpacing (programText t) = canonicalSpacing (programText s) := by
    unfold canonicalSpacing
    rw [replaceMatches_blankRun_withReturns program]
  unfold normalize
  rw [spaced]

end Source

namespace Outline

open Source (Unbroken normalize)

/-! ## 6. Line endings -/

/-- **Line endings do not matter where literals and directives end on their lines.**  A text and the
same text with a carriage return in front of every line feed are normalized to the same text, and
the same classes are read from them. -/
theorem lineEndings_irrelevant {t : Text} (unbroken : Unbroken t) :
    normalize (Text.withReturns t) = normalize t ∧
      ∀ limit header,
        parseHeader limit header (Text.withReturns t) = parseHeader limit header t := by
  have same : normalize (Text.withReturns t) = normalize t :=
    Source.normalize_eq_of_withReturns (Text.withReturns_all t) unbroken
  refine ⟨same, fun limit header => ?_⟩
  unfold parseHeader segmentHeader
  rw [same]

/-- A header with backslashes at the ends of lines, in comments. -/
def commentedHeader : Text :=
  "/* one \\\n two */\n#define A '#' // three \\\nclass X \x7b char* s = \"\\\"\"; \x7d;\n".toList

theorem lineEndings_irrelevant_commentedHeader :
    normalize (Text.withReturns commentedHeader) = normalize commentedHeader ∧
      ∀ limit header, parseHeader limit header (Text.withReturns commentedHeader) =
        parseHeader limit header commentedHeader :=
  lineEndings_irrelevant (by decide +kernel)

/-- A header with a macro that goes on behind its first line. -/
def macroHeader : Text :=
  "#ifndef X_H\n#define LONG(a) \\\n  (a)\nclass X \x7b\x7d;\n#endif\n".toList

/-- **The second line of a macro stays behind.**  It is program text if its line feed has a carriage
return in front of it, and part of the directive otherwise. -/
theorem lineEndings_irrelevant_continued :
    normalize macroHeader = "class X \x7b\n\x7d;".toList ∧
      normalize (Text.withReturns macroHeader) = "(a) class X \x7b\n\x7d;".toList := by
  constructor
  · decide +kernel
  · decide +kernel

end Outline
end AccessorCatalog

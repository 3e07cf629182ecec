/-
# Constructs and their matching braces

The search for the constructs of a text walks from the opening brace of each preamble to the brace
that closes it, with a count of the open braces and a bound on the braces read.  This file says what
it finds without the walk: the brace at `closeAt` is the *match* of the one at `openAt` if it is the
first place behind it at which as many braces have been closed as opened (`Matching`).

* `matchingClose_eq_ok_iff_matching`: the walk ends at the match, if the bound allows it;
* `Matching.inside`: matches nest, because before its match an opening brace is never cancelled;
* `countedClose_eq`: a walk whose count refuses to go below zero is the same walk;
* `findConstructs_matching`: the search as a whole, for both kinds of preambles.
-/
import AccessorCatalog.Proofs.Search

namespace AccessorCatalog.Outline

/-! ## 1. Matches -/

/-- A text closes as many braces as it opens. -/
def Cancels (t : Text) : Prop :=
  t.count '\x7b' = t.count '\x7d'

/-- The brace at `closeAt` is the match of the one at `openAt`: it is the first place behind it at
which the braces read from there on cancel out. -/
structure Matching (t : Text) (openAt closeAt : Nat) : Prop where
  opens : t[openAt]? = some '\x7b'
  closes : t[closeAt]? = some '\x7d'
  later : openAt < closeAt
  cancels : Cancels (slice openAt (closeAt + 1) t)
  first : ∀ place, openAt < place → place < closeAt → ¬ Cancels (slice openAt (place + 1) t)

/-- The match of the brace at `openAt` exists, and at most `limit` braces lie from the one to the
other, both of them counted. -/
def ClosesWithin (limit : Nat) (t : Text) (openAt : Nat) : Prop :=
  ∃ closeAt, Matching t openAt closeAt ∧ (braces (slice openAt (closeAt + 1) t)).length ≤ limit

variable {t : Text} {a b c : Nat}

theorem slice_append (first : a ≤ b) (second : b ≤ c) (t : Text) :
    slice a c t = slice a b t ++ slice b c t := by
  have length : c - a = (b - a) + (c - b) := by omega
  have behind : a + (b - a) = b := by omega
  unfold slice
  rw [length, List.take_add, List.drop_drop, behind]

theorem slice_succ (first : a ≤ b) (t : Text) :
    slice a (b + 1) t = slice a b t ++ t[b]?.toList := by
  rw [slice_append first (Nat.le_succ b)]
  have single : slice b (b + 1) t = t[b]?.toList := by
    unfold slice
    rw [Nat.add_sub_cancel_left, List.take_one, List.head?_drop]
  rw [single]

theorem drop_eq_cons {ch : Char} (here : t[a]? = some ch) : t.drop a = ch :: t.drop (a + 1) := by
  rw [← List.tail_drop]
  refine List.eq_cons_of_mem_head? ?_
  rw [List.head?_drop, here]
  rfl

theorem slice_eq_cons {ch : Char} (here : t[a]? = some ch) (k : Nat) :
    slice a (a + 1 + k) t = ch :: (t.drop (a + 1)).take k := by
  have length : a + 1 + k - a = k + 1 := by omega
  rw [slice, drop_eq_cons here, length, List.take_succ_cons]

namespace Matching

/-- **Up to its match, an opening brace is not cancelled**: more braces have been opened than
closed. -/
theorem count_lt (h : Matching t a b) (behind : a < c) (within : c ≤ b) :
    (slice a c t).count '\x7d' < (slice a c t).count '\x7b' := by
  induction c, behind using Nat.le_induction with
  | base =>
    have single := slice_eq_cons h.opens 0
    rw [Nat.add_zero, List.take_zero] at single
    rw [single]
    decide
  | succ c behind ih =>
    have before := ih (by omega)
    have uncancelled := h.first c behind (by omega)
    -- one more character changes one of the two counts by at most one
    rw [Cancels, slice_succ (by omega), List.count_append, List.count_append] at uncancelled
    rw [slice_succ (by omega), List.count_append, List.count_append]
    have single : (t[c]?.toList).count '\x7d' ≤ 1 := by
      refine Nat.le_trans List.count_le_length ?_
      cases t[c]? <;> simp
    omega

/-- **Matches nest**: a brace that is opened before the match of another is closed before it. -/
theorem inside {a' b' : Nat} (outer : Matching t a b) (inner : Matching t a' b') (behind : a < a')
    (within : a' < b) : b' < b := by
  by_contra crossing
  have crossing : b ≤ b' := by omega
  have cut := slice_append (t := t) (Nat.le_of_lt behind) (by omega : a' ≤ b + 1)
  have front := outer.count_lt behind (Nat.le_of_lt within)
  have rest : (slice a' (b + 1) t).count '\x7d' ≤ (slice a' (b + 1) t).count '\x7b' := by
    rcases Nat.eq_or_lt_of_le crossing with rfl | crossing
    · exact inner.cancels.ge
    · exact Nat.le_of_lt (inner.count_lt (by omega) crossing)
  have cancels := outer.cancels
  rw [Cancels, cut, List.count_append, List.count_append] at cancels
  omega

end Matching

/-! ## 2. The walk to the match -/

/-- The brace at `place` closes `depth` open braces and all that are opened before it. -/
structure ClosesAt (depth : Nat) (t : Text) (place : Nat) : Prop where
  closes : t[place]? = some '\x7d'
  cancels : depth + (t.take (place + 1)).count '\x7b' = (t.take (place + 1)).count '\x7d'
  first : ∀ k < place, depth + (t.take (k + 1)).count '\x7b' ≠ (t.take (k + 1)).count '\x7d'

/-- Reading one character moves the depth and leaves the rest to what follows. -/
theorem closesAt_cons {depth d place : Nat} {ch : Char} (inside : 0 < d)
    (step : depth + [ch].count '\x7b' = d + [ch].count '\x7d') :
    ClosesAt depth (ch :: t) place ↔ ∃ k, ClosesAt d t k ∧ k + 1 = place := by
  have counts (k : Nat) (brace : Char) :
      ((ch :: t).take (k + 1)).count brace = [ch].count brace + (t.take k).count brace := by
    rw [List.take_succ_cons, ← List.singleton_append, List.count_append]
  constructor
  · intro h
    cases place with
    | zero =>
      have cancels := h.cancels
      rw [counts, counts, List.take_zero, List.count_nil, List.count_nil] at cancels
      omega
    | succ k =>
      refine ⟨k, ⟨by simpa using h.closes, ?_, fun j before => ?_⟩, rfl⟩
      · have cancels := h.cancels
        rw [counts, counts] at cancels
        omega
      · have first := h.first (j + 1) (by omega)
        rw [counts, counts] at first
        omega
  · rintro ⟨k, h, rfl⟩
    refine ⟨by simpa using h.closes, ?_, fun j before => ?_⟩
    · rw [counts, counts]
      have cancels := h.cancels
      omega
    · rw [counts, counts]
      cases j with
      | zero =>
        rw [List.take_zero, List.count_nil, List.count_nil]
        omega
      | succ j =>
        have first := h.first j (by omega)
        omega

theorem closesAt_close_one {place : Nat} : ClosesAt 1 ('\x7d' :: t) place ↔ place = 0 := by
  constructor
  · intro h
    by_contra behind
    exact h.first 0 (by omega) rfl
  · rintro rfl
    exact ⟨rfl, rfl, by simp⟩

/-- The close of `depth` open braces is found by its counts. -/
theorem closePlace_eq_some_iff {depth place : Nat} (inside : 0 < depth) :
    closePlace? depth t = some place ↔ ClosesAt depth t place := by
  induction t generalizing depth place with
  | nil => exact ⟨fun h => by simp at h, fun h => by simpa using h.closes⟩
  | cons ch t ih =>
    rcases brace_cases ch with rfl | rfl | ⟨left, right⟩
    · rw [closePlace_open, Option.map_eq_some_iff, closesAt_cons (Nat.succ_pos depth) (by simp)]
      simp only [ih (Nat.succ_pos depth)]
    · obtain ⟨d, rfl⟩ : ∃ d, depth = d + 1 := ⟨depth - 1, by omega⟩
      cases d with
      | zero => rw [closePlace_close_one, closesAt_close_one, Option.some.injEq, eq_comm]
      | succ d =>
        rw [closePlace_close_succ, Option.map_eq_some_iff, closesAt_cons (Nat.succ_pos d) (by simp)]
        simp only [ih (Nat.succ_pos d)]
    · rw [closePlace_other left right, Option.map_eq_some_iff,
        closesAt_cons inside (by simp [left, right])]
      simp only [ih inside]

/-- The match of a brace closes one open brace in the text behind it. -/
theorem matching_iff_closesAt {openAt k : Nat} (opens : t[openAt]? = some '\x7b') :
    Matching t openAt (openAt + 1 + k) ↔ ClosesAt 1 (t.drop (openAt + 1)) k := by
  have counts (j : Nat) : Cancels (slice openAt (openAt + 1 + j + 1) t) ↔
      1 + ((t.drop (openAt + 1)).take (j + 1)).count '\x7b' =
        ((t.drop (openAt + 1)).take (j + 1)).count '\x7d' := by
    rw [Cancels, Nat.add_assoc _ j 1, slice_eq_cons opens, List.count_cons_self,
      List.count_cons_of_ne (by decide), Nat.add_comm 1]
  have closes : (t.drop (openAt + 1))[k]? = t[openAt + 1 + k]? := List.getElem?_drop
  constructor
  · intro h
    refine ⟨by rw [closes]; exact h.closes, (counts k).mp h.cancels, fun j before => ?_⟩
    rw [ne_eq, ← counts]
    exact h.first (openAt + 1 + j) (by omega) (by omega)
  · intro h
    refine ⟨opens, by rw [← closes]; exact h.closes, by omega, (counts k).mpr h.cancels, ?_⟩
    intro place later before
    obtain ⟨j, rfl⟩ := Nat.exists_eq_add_of_le later
    rw [Nat.succ_eq_add_one, counts]
    exact h.first j (by omega)

/-- **The walk ends at the match**, if the bound allows it. -/
theorem matchingClose_eq_ok_iff_matching {limit d openAt : Nat} (opens : t[openAt]? = some '\x7b') :
    matchingClose limit (t.drop openAt) = .ok d ↔
      Matching t openAt (openAt + d) ∧
        (braces (slice openAt (openAt + d + 1) t)).length ≤ limit := by
  have split : t.drop openAt = '\x7b' :: t.drop (openAt + 1) := drop_eq_cons opens
  rw [split, matchingClose_eq_ok_iff]
  cases d with
  | zero =>
    constructor
    · rintro ⟨e, h, -⟩
      cases h
    · rintro ⟨h, -⟩
      exact absurd h.later (Nat.lt_irrefl openAt)
  | succ e =>
    have place : openAt + (e + 1) = openAt + 1 + e := by omega
    have read : (braces (slice openAt (openAt + 1 + e + 1) t)).length =
        (braces ((t.drop (openAt + 1)).take (e + 1))).length + 1 := by
      rw [Nat.add_assoc _ e 1, slice_eq_cons opens, braces_cons_open, List.length_cons]
    rw [place, read, matching_iff_closesAt opens, Nat.succ_le_iff]
    constructor
    · rintro ⟨_, ⟨⟩, close, few⟩
      exact ⟨(closePlace_eq_some_iff Nat.one_pos).mp close, few⟩
    · rintro ⟨close, few⟩
      exact ⟨e, rfl, (closePlace_eq_some_iff Nat.one_pos).mpr close, few⟩

/-- Why a walk fails: there are more braces than the bound allows, or none that closes. -/
def closeFault (limit : Nat) (t : Text) : BraceFault :=
  if limit < (braces t).length then .beyondLimit limit else .neverClosed

theorem closeWithin_eq_error {limit depth : Nat} {fault : BraceFault}
    (h : closeWithin limit depth t = .error fault) :
    fault = if limit < (braces t).length then .beyondLimit 0 else .neverClosed := by
  induction t generalizing limit depth with
  | nil => exact (Except.error.inj h).symm
  | cons ch t ih =>
    rcases brace_cases ch with rfl | rfl | ⟨left, right⟩
    · rw [braces_cons_open, List.length_cons]
      cases limit with
      | zero => exact (Except.error.inj h).symm
      | succ limit =>
        rw [closeWithin_open, map_eq_error_iff] at h
        simpa using ih h
    · rw [braces_cons_close, List.length_cons]
      cases limit with
      | zero => exact (Except.error.inj h).symm
      | succ limit =>
        have inner : closeWithin limit (depth - 1) t = .error fault := by
          simp only [closeWithin, Char.reduceEq, if_false, if_true] at h
          split at h
          · cases h
          · exact map_eq_error_iff.mp h
        simpa using ih inner
    · rw [closeWithin_other left right, map_eq_error_iff] at h
      rw [braces_cons_other left right]
      exact ih h

theorem matchingClose_eq_error {limit : Nat} {fault : BraceFault}
    (h : matchingClose limit t = .error fault) : fault = closeFault limit t := by
  unfold matchingClose at h
  unfold closeFault
  split at h
  · next found =>
    have cause := closeWithin_eq_error found
    split at cause
    · next many => rw [if_pos many, Except.error.inj h]
    · cases cause
  · next other =>
    have cause := closeWithin_eq_error h
    split at cause
    · exact absurd (h.trans (congrArg _ cause)) (other 0)
    · next few => rw [if_neg few, cause]

/-! ## 3. The count of open braces -/

/-- The walk with a count that cannot go below zero: there is no answer if it had to. -/
def countedClose? (limit depth : Nat) : Text → Option (Except BraceFault Nat)
  | [] => some (.error .neverClosed)
  | c :: t =>
    if c = '\x7b' then
      match limit with
      | 0 => some (.error (.beyondLimit 0))
      | limit + 1 => (countedClose? limit (depth + 1) t).map (·.map (· + 1))
    else if c = '\x7d' then
      match limit with
      | 0 => some (.error (.beyondLimit 0))
      | limit + 1 =>
        match depth with
        | 0 => none
        | 1 => some (.ok 0)
        | depth + 2 => (countedClose? limit (depth + 1) t).map (·.map (· + 1))
    else (countedClose? limit depth t).map (·.map (· + 1))

/-- Inside braces the count stays above zero. -/
theorem countedClose_inside {limit depth : Nat} (inside : 0 < depth) :
    countedClose? limit depth t = some (closeWithin limit depth t) := by
  induction t generalizing limit depth with
  | nil => rfl
  | cons ch t ih =>
    rcases brace_cases ch with rfl | rfl | ⟨left, right⟩
    · cases limit with
      | zero => rfl
      | succ limit => exact congrArg (Option.map _) (ih (Nat.succ_pos depth))
    · obtain ⟨d, rfl⟩ : ∃ d, depth = d + 1 := ⟨depth - 1, by omega⟩
      cases limit with
      | zero => rfl
      | succ limit =>
        cases d with
        | zero => rfl
        | succ d => exact congrArg (Option.map _) (ih (Nat.succ_pos d))
    · rw [closeWithin_other left right]
      simp only [countedClose?, left, right, if_false]
      exact congrArg (Option.map _) (ih inside)

/-- **From an opening brace on, the count never goes below zero.** -/
theorem countedClose_eq {openAt : Nat} (opens : t[openAt]? = some '\x7b') (limit : Nat) :
    countedClose? limit 0 (t.drop openAt) = some (closeWithin limit 0 (t.drop openAt)) := by
  have split : t.drop openAt = '\x7b' :: t.drop (openAt + 1) := drop_eq_cons opens
  rw [split]
  cases limit with
  | zero => rfl
  | succ limit => exact congrArg (Option.map _) (countedClose_inside Nat.one_pos)

/-! ## 4. Openings -/

/-- An opening is a stretch of the text that starts with a letter and ends with its only brace. -/
structure Opening.Stands (o : Opening) (t : Text) : Prop where
  starts : ∃ c, t[o.start]? = some c ∧ c.isAlpha = true
  order : o.start < o.openAt
  brace : t[o.openAt]? = some '\x7b'
  plain : ∀ place, o.start ≤ place → place < o.openAt → t[place]? ≠ some '\x7d'

/-- What a preamble takes at a place stands there. -/
theorem stands_of_preambleAt {n place : Nat} {full : Text} (scope : ScopeKind)
    (here : full.drop place = t) (form : PreambleAt t n) :
    Opening.Stands ⟨scope, place, place + (n - 1)⟩ full := by
  obtain ⟨k, rfl, ⟨-, free⟩, brace⟩ := form.brace
  have at_place (j : Nat) : full[place + j]? = t[j]? := by rw [← here, List.getElem?_drop]
  have letter := form.letter
  rw [List.head?_drop] at brace
  rw [List.head?_eq_getElem?] at letter
  have behind_letter : 0 < k := by
    by_contra at_start
    obtain rfl : k = 0 := by omega
    rw [brace] at letter
    exact absurd letter (by decide)
  refine ⟨?_, Nat.lt_add_of_pos_right behind_letter, (at_place k).trans brace, ?_⟩
  · cases first : t[0]? with
    | none =>
      rw [first] at letter
      cases letter
    | some c =>
      rw [first] at letter
      exact ⟨c, (at_place 0).trans first, letter⟩
  · intro position start before close
    obtain ⟨j, rfl⟩ := Nat.exists_eq_add_of_le start
    have inside : j < k := by
      dsimp only at before
      omega
    rw [at_place] at close
    have mem : '\x7d' ∈ t.take k := by
      rw [List.mem_iff_getElem?]
      exact ⟨j, by rw [List.getElem?_take_of_lt inside, close]⟩
    exact absurd (free _ mem) (by decide)

/-- The openings of a text stand in it, each behind the brace of the one before it. -/
theorem stands_openingsFrom (pass : Pass) {full : Text} {place : Nat} (before : Option Char)
    (here : full.drop place = t) :
    (∀ o ∈ openingsFrom pass.preamble place before t, place ≤ o.start ∧ o.Stands full) ∧
      (openingsFrom pass.preamble place before t).Pairwise fun o p => o.openAt < p.start := by
  fun_induction openingsFrom pass.preamble place before t with
  | case1 => exact ⟨by simp, .nil⟩
  | case2 place before c t scope n found taken ih =>
    have form := (pass.sound found).2.2
    have behind_brace : n - 1 < taken.length := by
      obtain ⟨body, rest, split, rfl⟩ := form.exists_body
      have long : (c :: t).length = ((body ++ ['\x7b']) ++ rest).length := congrArg _ split
      simp only [List.length_append, List.length_cons, List.length_nil] at long
      simp only [taken, List.length_cons, List.length_take]
      omega
    have cut : c :: t = taken ++ t.drop (n - 1) := by
      rw [List.cons_append, List.take_append_drop]
    obtain ⟨later, sorted⟩ := ih (drop_behind (here.trans cut))
    have first := stands_of_preambleAt scope here form
    refine ⟨fun o mem => ?_, List.pairwise_cons.mpr ⟨fun p mem => ?_, sorted⟩⟩
    · rcases List.mem_cons.mp mem with rfl | mem
      · exact ⟨Nat.le_refl place, first⟩
      · exact ⟨by have := (later o mem).1; omega, (later o mem).2⟩
    · have := (later p mem).1
      dsimp only
      omega
  | case3 place before c t found ih =>
    obtain ⟨later, sorted⟩ := ih (drop_behind (s := [c]) here)
    exact ⟨fun o mem => ⟨by have := (later o mem).1; omega, (later o mem).2⟩, sorted⟩

/-! ## 5. Constructs -/

/-- What the search makes of an opening: the construct that ends with the match of its brace, and
with the semicolon behind it where that is taken. -/
structure Encloses (takeSemicolon : Bool) (t : Text) (o : Opening) (c : Construct) : Prop where
  scope : c.scope = o.scope
  start : c.start = o.start
  openAt : c.openAt = o.openAt
  closeAt : Matching t o.openAt c.closeAt
  stop : c.stop =
    if takeSemicolon = true ∧ t[c.closeAt + 1]? = some ';' then c.closeAt + 2 else c.closeAt + 1

/-- The second of two constructs lies behind the first, or strictly inside its body. -/
def Construct.Apart (c d : Construct) : Prop :=
  c.stop ≤ d.start ∨ (c.openAt < d.start ∧ d.stop ≤ c.closeAt)

/-- What ends a construct is no character of another one's preamble, and no letter. -/
theorem Encloses.apart {takeSemicolon : Bool} {o p : Opening} {c d : Construct}
    (first : Encloses takeSemicolon t o c) (second : Encloses takeSemicolon t p d)
    (stands : p.Stands t) (order : o.openAt < p.start) : c.Apart d := by
  obtain ⟨letter, at_start, alpha⟩ := stands.starts
  have ordered := stands.order
  rcases Nat.lt_or_ge c.closeAt p.start with closed | within
  · left
    rw [first.stop, second.start]
    split
    · next semicolon =>
      -- a preamble starts with a letter, so the semicolon is in front of it
      have apart : c.closeAt + 1 ≠ p.start := by
        intro same
        rw [← same, semicolon.2] at at_start
        cases at_start
        exact absurd alpha (by decide)
      omega
    · omega
  · right
    have behind_brace : p.openAt < c.closeAt := by
      by_contra before
      rcases Nat.eq_or_lt_of_le (by omega : c.closeAt ≤ p.openAt) with same | before
      · have brace := first.closeAt.closes
        rw [same, stands.brace] at brace
        cases brace
      · exact stands.plain c.closeAt within before first.closeAt.closes
    have inner : d.closeAt < c.closeAt :=
      first.closeAt.inside second.closeAt (by omega) behind_brace
    refine ⟨by rw [first.openAt, second.start]; exact order, ?_⟩
    rw [second.stop]
    split
    · next semicolon =>
      have apart : d.closeAt + 1 ≠ c.closeAt := by
        intro same
        have brace := first.closeAt.closes
        rw [← same, semicolon.2] at brace
        cases brace
      omega
    · omega

/-- The search answers an opening with the construct that it encloses, if the bound allows it. -/
theorem closed_iff {pass : Pass} {limit : Nat} {o : Opening} {c : Construct} (stands : o.Stands t) :
    Closed pass limit t o c ↔
      Encloses pass.takesSemicolon t o c ∧
        (braces (slice o.openAt (c.closeAt + 1) t)).length ≤ limit := by
  have stop (closeAt : Nat) :
      closeAt + 1 + (if (pass.takesSemicolon && (t.drop (closeAt + 1)).head? == some ';') = true
        then 1 else 0) =
      if pass.takesSemicolon = true ∧ t[closeAt + 1]? = some ';' then closeAt + 2
        else closeAt + 1 := by
    simp only [List.head?_drop, Bool.and_eq_true, beq_iff_eq]
    split <;> rfl
  constructor
  · rintro ⟨d, close, rfl⟩
    obtain ⟨matching, few⟩ := (matchingClose_eq_ok_iff_matching stands.brace).mp close
    exact ⟨⟨rfl, rfl, rfl, matching, stop _⟩, few⟩
  · rintro ⟨encloses, few⟩
    obtain ⟨d, distance⟩ := Nat.exists_eq_add_of_le (Nat.le_of_lt encloses.closeAt.later)
    have matching := encloses.closeAt
    rw [distance] at matching few
    refine ⟨d, (matchingClose_eq_ok_iff_matching stands.brace).mpr ⟨matching, few⟩, ?_⟩
    obtain ⟨scope, start, openAt, closeAt, stopAt⟩ := c
    obtain ⟨rfl, rfl, rfl, -, stopped⟩ := encloses
    cases distance
    rw [Opening.construct, stop]
    exact congrArg _ stopped

/-- The two recognisers of preambles, each with and without the semicolon. -/
theorem exists_pass {preamble : Preamble} (known : preamble ∈ [namespacePreamble, classPreamble])
    (takeSemicolon : Bool) :
    ∃ pass : Pass, pass.preamble = preamble ∧ pass.takesSemicolon = takeSemicolon := by
  rcases List.mem_pair.mp known with rfl | rfl
  · exact ⟨{ namespacePass with takesSemicolon := takeSemicolon }, rfl, rfl⟩
  · exact ⟨{ classPass with takesSemicolon := takeSemicolon }, rfl, rfl⟩

theorem exists_of_mem_forall₂ {α β : Type} {R : α → β → Prop} {as : List α} {bs : List β}
    (answers : List.Forall₂ R as bs) : ∀ b ∈ bs, ∃ a ∈ as, R a b := by
  induction answers with
  | nil => simp
  | @cons a b as bs here _ ih =>
    intro b' mem
    rcases List.mem_cons.mp mem with rfl | mem
    · exact ⟨a, List.mem_cons_self, here⟩
    · obtain ⟨a', mem, there⟩ := ih b' mem
      exact ⟨a', List.mem_cons_of_mem a mem, there⟩

/-- Constructs of a sorted list of openings are apart. -/
theorem pairwise_apart {takeSemicolon : Bool} {os : List Opening} {cs : List Construct}
    (answers : List.Forall₂ (fun o c => o.Stands t ∧ Encloses takeSemicolon t o c) os cs)
    (sorted : os.Pairwise fun o p => o.openAt < p.start) : cs.Pairwise Construct.Apart := by
  induction answers with
  | nil => exact .nil
  | @cons o c os cs here rest ih =>
    obtain ⟨first, sorted⟩ := List.pairwise_cons.mp sorted
    refine List.pairwise_cons.mpr ⟨fun d mem => ?_, ih sorted⟩
    obtain ⟨p, mem, stands, encloses⟩ := exists_of_mem_forall₂ rest d mem
    exact here.2.apart encloses stands (first p mem)

/-! ## 6. The search -/

theorem stands_openings (pass : Pass) (t : Text) :
    (∀ o ∈ openings pass.preamble t, o.Stands t) ∧
      (openings pass.preamble t).Pairwise fun o p => o.openAt < p.start := by
  have all := stands_openingsFrom pass none (List.drop_zero (l := t))
  exact ⟨fun o mem => (all.1 o mem).2, all.2⟩

/-- The walk from an opening succeeds exactly if its match lies within the bound. -/
theorem matchingClose_isOk_iff {limit : Nat} {o : Opening} (stands : o.Stands t) :
    (∃ d, matchingClose limit (t.drop o.openAt) = .ok d) ↔ ClosesWithin limit t o.openAt := by
  simp only [matchingClose_eq_ok_iff_matching stands.brace]
  constructor
  · rintro ⟨d, found⟩
    exact ⟨_, found⟩
  · rintro ⟨closeAt, matching, few⟩
    obtain ⟨d, rfl⟩ := Nat.exists_eq_add_of_le (Nat.le_of_lt matching.later)
    exact ⟨d, matching, few⟩

section
variable (pass : Pass) (limit : Nat) (header t : Text)

/-- **The constructs found are those that the openings enclose**, each within the bound. -/
theorem findConstructs_eq_ok_iff_encloses {cs : List Construct} :
    findConstructs pass.preamble pass.takesSemicolon limit header t = .ok cs ↔
      List.Forall₂
        (fun o c => Encloses pass.takesSemicolon t o c ∧
          (braces (slice o.openAt (c.closeAt + 1) t)).length ≤ limit)
        (openings pass.preamble t) cs := by
  have stands := (stands_openings pass t).1
  rw [findConstructs_eq_ok_iff]
  constructor
  · intro answers
    refine ((List.forall₂_and_left _ _).mpr ⟨stands, answers⟩).imp ?_
    rintro o c ⟨stands, closed⟩
    exact (closed_iff stands).mp closed
  · intro answers
    refine ((List.forall₂_and_left _ _).mpr ⟨stands, answers⟩).imp ?_
    rintro o c ⟨stands, encloses⟩
    exact (closed_iff stands).mpr encloses

/-- The first opening without a match in reach is reported. -/
theorem findConstructs_eq_error {front behind : List Opening} {o : Opening}
    (split : openings pass.preamble t = front ++ o :: behind)
    (closed : ∀ p ∈ front, ClosesWithin limit t p.openAt)
    (fails : ¬ ClosesWithin limit t o.openAt) :
    findConstructs pass.preamble pass.takesSemicolon limit header t = .error
      (.malformedConstruct header (Text.byteLength (t.take o.start))
        (closeFault limit (t.drop o.openAt))) := by
  have stands (p : Opening) (mem : p ∈ front ++ o :: behind) : p.Stands t :=
    (stands_openings pass t).1 p (split ▸ mem)
  refine mapM_eq_error_iff.mpr ⟨front, o, behind, split, fun p mem => ?_, ?_⟩
  · obtain ⟨d, close⟩ :=
      (matchingClose_isOk_iff (stands p (List.mem_append_left _ mem))).mpr (closed p mem)
    rw [close]
    exact ⟨_, rfl⟩
  · cases walk : matchingClose limit (t.drop o.openAt) with
    | ok d => exact absurd ((matchingClose_isOk_iff (stands o (by simp))).mp ⟨d, walk⟩) fails
    | error fault => rw [matchingClose_eq_error walk]

end

/-- **The search for constructs is the matching of braces.**

* It succeeds exactly if the brace of every preamble has its match within the bound.
* Its constructs answer the preambles one by one and end at the matches; any two of them are
  disjoint or one lies inside the body of the other; and no larger bound changes them.
* The count of open braces never goes below zero.
* Otherwise it fails with a malformed construct at the start of the first preamble without a match
  in reach. -/
theorem findConstructs_matching {preamble : Preamble}
    (known : preamble ∈ [namespacePreamble, classPreamble]) (takeSemicolon : Bool) (limit : Nat)
    (header t : Text) :
    ((∃ cs, findConstructs preamble takeSemicolon limit header t = .ok cs) ↔
      ∀ o ∈ openings preamble t, ClosesWithin limit t o.openAt) ∧
    (∀ cs, findConstructs preamble takeSemicolon limit header t = .ok cs →
      List.Forall₂ (Encloses takeSemicolon t) (openings preamble t) cs ∧
      cs.Pairwise Construct.Apart ∧
      ∀ more, limit ≤ more → findConstructs preamble takeSemicolon more header t = .ok cs) ∧
    (∀ o ∈ openings preamble t,
      countedClose? limit 0 (t.drop o.openAt) = some (closeWithin limit 0 (t.drop o.openAt))) ∧
    ∀ front o behind, openings preamble t = front ++ o :: behind →
      (∀ p ∈ front, ClosesWithin limit t p.openAt) → ¬ ClosesWithin limit t o.openAt →
      findConstructs preamble takeSemicolon limit header t = .error
        (.malformedConstruct header (Text.byteLength (t.take o.start))
          (closeFault limit (t.drop o.openAt))) := by
  obtain ⟨pass, rfl, rfl⟩ := exists_pass known takeSemicolon
  obtain ⟨stands, sorted⟩ := stands_openings pass t
  refine ⟨⟨?_, ?_⟩, ?_, ?_, ?_⟩
  · rintro ⟨cs, found⟩ o mem
    have answers := findConstructs_eq_ok_iff.mp found
    obtain ⟨c, -, d, close, -⟩ := exists_of_mem_forall₂ answers.flip o mem
    exact (matchingClose_isOk_iff (stands o mem)).mp ⟨d, close⟩
  · intro closed
    cases found : findConstructs pass.preamble pass.takesSemicolon limit header t with
    | ok cs => exact ⟨cs, rfl⟩
    | error e =>
      obtain ⟨o, mem, fails⟩ := exists_of_mapM_error found
      obtain ⟨d, close⟩ := (matchingClose_isOk_iff (stands o mem)).mpr (closed o mem)
      rw [close] at fails
      cases fails
  · intro cs found
    have answers := (findConstructs_eq_ok_iff_encloses pass limit header t).mp found
    have encloses := answers.imp fun o c h => h.1
    refine ⟨encloses, ?_, fun more le => ?_⟩
    · exact pairwise_apart ((List.forall₂_and_left _ _).mpr ⟨stands, encloses⟩) sorted
    · refine (findConstructs_eq_ok_iff_encloses pass more header t).mpr
        (answers.imp fun o c h => ?_)
      exact ⟨h.1, Nat.le_trans h.2 le⟩
  · intro o mem
    exact countedClose_eq (stands o mem).brace limit
  · intro front o behind split closed fails
    exact findConstructs_eq_error pass limit header t split closed fails

/-- A class inside a class: four braces are enough for both, and three are not for the outer one. -/
theorem findConstructs_matching_innerClass :
    classPreamble ∈ [namespacePreamble, classPreamble] ∧
      (∀ more, 4 ≤ more →
        findConstructs classPreamble true more "a.h".toList
            "class A \x7b\nstruct B \x7b\n\x7d;\n\x7d;".toList =
          .ok [⟨.classScope, 0, 8, 24, 26⟩, ⟨.structScope, 10, 19, 21, 23⟩]) ∧
      findConstructs classPreamble true 3 "a.h".toList
          "class A \x7b\nstruct B \x7b\n\x7d;\n\x7d;".toList =
        .error (.malformedConstruct "a.h".toList 0 (.beyondLimit 3)) := by
  have known : classPreamble ∈ [namespacePreamble, classPreamble] := by simp
  obtain ⟨-, found_ok, -, -⟩ := findConstructs_matching known true 4 "a.h".toList
    "class A \x7b\nstruct B \x7b\n\x7d;\n\x7d;".toList
  exact ⟨known, (found_ok _ (by decide +kernel)).2.2, by decide +kernel⟩

end AccessorCatalog.Outline

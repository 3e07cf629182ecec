/-
# Tidy types

`tidyType` takes out the blanks in front of a decoration or an array bracket and those behind a
template bracket.  On a text in single spaces this is one scan that looks at the character it wrote
last and at the next one (`tidyType_eq`).  From the scan it is seen that a tidy type stays tidy
(`tighten_tighten`), that what stands behind a type is tidied apart from it (`tighten_append`), and
that nothing which a cut outside brackets looks at is lost.
-/
import AccessorCatalog.Declaration.DataMember
import AccessorCatalog.Proofs.TopLevel

namespace AccessorCatalog

open Text (isBlank IsSpaced Depth)

namespace Text

variable {s t : Text}

theorem IsSpaced.replaceMatches_blankRun (h : IsSpaced t) (before : Option Char) :
    replaceMatchesFrom Source.blankRun (fun _ => [' ']) before t = t := by
  refine Source.replaceMatches_eq_self Source.blankRun_takes (fun taken inside blanks => ?_) before
  obtain ⟨b, rest, rfl⟩ := List.exists_cons_of_ne_nil blanks.1
  have b_blank := blanks.2 b List.mem_cons_self
  cases rest with
  | nil => rw [h.space b (inside.subset List.mem_cons_self) b_blank]
  | cons c rest =>
    have chain := List.IsChain.infix h.single inside
    have next := (List.isChain_cons_cons.mp chain).1 b_blank
    rw [blanks.2 c (by simp)] at next
    cases next

/-- A pass whose pattern does not look back can start anywhere. -/
theorem replaceMatchesFrom_before {pattern : Pattern} (h : ∀ b b' t, pattern b t = pattern b' t)
    (image : Text → Text) (before before' : Option Char) (t : Text) :
    replaceMatchesFrom pattern image before t = replaceMatchesFrom pattern image before' t := by
  cases t with
  | nil => rw [replaceMatchesFrom_nil, replaceMatchesFrom_nil]
  | cons c t =>
    have last (b : Option Char) (n : Nat) :
        lastOf b (c :: t.take n) = (c :: t.take n).getLast? := by
      rw [lastOf, List.getLast?_cons]
      rfl
    cases found : pattern before (c :: t) with
    | none =>
      rw [replaceMatches_cons_none found, replaceMatches_cons_none (h before before' _ ▸ found)]
    | some n =>
      rw [replaceMatches_cons_some found, replaceMatches_cons_some (h before before' _ ▸ found),
        last, last]

theorem blankRun_solid {c : Char} (solid : isBlank c = false) (before : Option Char) (t : Text) :
    Source.blankRun before (c :: t) = none := by
  simp [Source.blankRun, countWhile, solid]

theorem drop_countWhile (p : Char → Bool) (t : Text) : t.drop (countWhile p t) = t.dropWhile p := by
  have cut := @List.drop_left _ (t.takeWhile p) (t.dropWhile p)
  rwa [List.takeWhile_append_dropWhile] at cut

theorem replaceMatches_blankRun_solid {c : Char} (solid : isBlank c = false) (before : Option Char)
    (t : Text) :
    replaceMatchesFrom Source.blankRun (fun _ => [' ']) before (c :: t) =
      c :: replaceMatchesFrom Source.blankRun (fun _ => [' ']) none t := by
  rw [replaceMatches_cons_none (blankRun_solid solid before t),
    replaceMatchesFrom_before (fun _ _ _ => rfl) _ (some c) none]

/-- A run of blanks becomes one space, and the pass goes on behind it. -/
theorem replaceMatches_blankRun_blank {b : Char} (blank : isBlank b = true) (before : Option Char)
    (t : Text) :
    replaceMatchesFrom Source.blankRun (fun _ => [' ']) before (b :: t) =
      ' ' :: replaceMatchesFrom Source.blankRun (fun _ => [' ']) none (t.dropWhile isBlank) := by
  have found : Source.blankRun before (b :: t) = some (countWhile isBlank t + 1) := by
    simp [Source.blankRun, countWhile, blank]
  rw [replaceMatches_cons_some found, Nat.add_sub_cancel, drop_countWhile]
  exact congrArg (' ' :: ·) (replaceMatchesFrom_before (fun _ _ _ => rfl) _ _ _ _)

theorem replaceMatches_blankRun_gap {gap : Text} {c : Char} (blank : ∀ b ∈ gap, isBlank b = true)
    (filled : gap ≠ []) (solid : isBlank c = false) (before : Option Char) (t : Text) :
    replaceMatchesFrom Source.blankRun (fun _ => [' ']) before (gap ++ c :: t) =
      ' ' :: replaceMatchesFrom Source.blankRun (fun _ => [' ']) none (c :: t) := by
  obtain ⟨b, gap, rfl⟩ := List.exists_cons_of_ne_nil filled
  obtain ⟨first, rest⟩ := List.forall_mem_cons.mp blank
  rw [List.cons_append, replaceMatches_blankRun_blank first, List.dropWhile_append_of_pos rest,
    List.dropWhile_cons_of_neg (by simp [solid])]

/-- Behind a text in single spaces, runs of blanks become single ones as they do by themselves. -/
theorem IsSpaced.replaceMatches_blankRun_append (h : IsSpaced s) (before : Option Char) (t : Text) :
    replaceMatchesFrom Source.blankRun (fun _ => [' ']) before (s ++ t) =
      s ++ replaceMatchesFrom Source.blankRun (fun _ => [' ']) none t := by
  have space := h.space
  have single := h.single
  have last := h.last
  clear h
  induction s generalizing before with
  | nil => exact replaceMatchesFrom_before (fun _ _ _ => rfl) _ _ _ _
  | cons c s ih =>
    have rest :=
      ih none (fun d mem => space d (List.mem_cons_of_mem c mem)) (List.isChain_cons.mp single).2
    cases blank : isBlank c with
    | false =>
      have last_rest : ∀ d ∈ s.getLast?, isBlank d = false := by
        intro d at_end
        cases s with
        | nil => cases at_end
        | cons e s => exact last d (by rwa [List.getLast?_cons_cons])
      rw [List.cons_append, replaceMatches_blankRun_solid blank, rest last_rest]
      rfl
    | true =>
      obtain rfl := space c List.mem_cons_self blank
      cases s with
      | nil => exact absurd (last ' ' rfl) (by decide)
      | cons d s =>
        have solid := (List.isChain_cons_cons.mp single).1 blank
        have one := replaceMatches_blankRun_blank blank before (d :: s ++ t)
        rw [List.cons_append, List.dropWhile_cons_of_neg (by simp [solid])] at one
        exact one.trans (congrArg (' ' :: ·) (rest last))

end Text

namespace Declaration

variable {s t : Text}

/-! ## 1. The scan -/

/-- Whether a text starts with a character that a type has no blank in front of. -/
def startsLoose : Text → Bool
  | c :: _ => c == '*' || c == '&' || c == '['
  | [] => false

/-- The text without the blanks that a tidy type does not have; `before` is the character that was
written last. -/
def tighten (before : Option Char) : Text → Text
  | [] => []
  | c :: t =>
    if isBlank c && (before == some '<' || startsLoose t) then tighten before t
    else c :: tighten (some c) t

theorem tighten_cons_solid {c : Char} (solid : isBlank c = false) (before : Option Char) :
    tighten before (c :: t) = c :: tighten (some c) t := by
  rw [tighten, solid]
  rfl

/-- No two blanks are next to each other. -/
def SingleBlanks (t : Text) : Prop :=
  t.IsChain fun c d => isBlank c = true → isBlank d = false

theorem SingleBlanks.tail {c : Char} (h : SingleBlanks (c :: t)) : SingleBlanks t :=
  (List.isChain_cons.mp h).2

theorem SingleBlanks.head {c d : Char} (h : SingleBlanks (c :: d :: t)) (blank : isBlank c = true) :
    isBlank d = false :=
  (List.isChain_cons_cons.mp h).1 blank

variable {before last : Option Char} {b c d : Char}

theorem countWhile_blank (single : SingleBlanks (b :: t)) (blank : isBlank b = true) :
    Text.countWhile isBlank (b :: t) = 1 := by
  cases t with
  | nil => simp [Text.countWhile, blank]
  | cons c t => simp [Text.countWhile, blank, single.head blank]

/-- A blank in front of a decoration or an array bracket is taken with it. -/
theorem looseDecoration_blank (single : SingleBlanks (b :: t)) (blank : isBlank b = true) :
    looseDecoration before (b :: t) = if startsLoose t then some 2 else none := by
  rw [looseDecoration, countWhile_blank single blank]
  cases t <;> rfl

/-- A template bracket is taken with a blank behind it. -/
theorem looseDecoration_angle (single : SingleBlanks ('<' :: b :: t)) (blank : isBlank b = true) :
    looseDecoration before ('<' :: b :: t) = some 2 := by
  have gap := countWhile_blank single.tail blank
  have first : Text.countWhile isBlank ('<' :: b :: t) = 0 := rfl
  simp [looseDecoration, Source.blankBehind, Text.afterPrefix?, first, gap]

/-- Nothing else is taken. -/
theorem looseDecoration_solid (solid : isBlank c = false)
    (plain : c = '<' → ∀ d ∈ t.head?, isBlank d = false) :
    looseDecoration before (c :: t) = none := by
  have first : Text.countWhile isBlank (c :: t) = 0 := by simp [Text.countWhile, solid]
  rw [looseDecoration, first]
  by_cases angle : c = '<'
  · have no_gap : Text.countWhile isBlank t = 0 := by
      cases t with
      | nil => rfl
      | cons d t => simp [Text.countWhile, plain angle d rfl]
    simp [Source.blankBehind, Text.afterPrefix?, angle, no_gap]
  · simp [Source.blankBehind, Text.afterPrefix?, Ne.symm angle]

/-- Two characters taken leave the one of them that is no blank. -/
theorem replaceMatches_pair {pattern : Text.Pattern} (found : pattern before (b :: c :: t) = some 2)
    (image : Source.solid [b, c] = [d]) :
    Text.replaceMatchesFrom pattern Source.solid before (b :: c :: t) =
      d :: Text.replaceMatchesFrom pattern Source.solid (some c) t := by
  rw [Text.replaceMatches_cons_some found]
  simp only [Nat.add_one_sub_one, List.take_succ_cons, List.take_zero, List.drop_succ_cons,
    List.drop_zero, image]
  rfl

/-- At a place the pass leaves one character, or takes two of which one stays, and the scan writes
the same. Behind an angle bracket neither goes on with a blank. -/
inductive ScanStep (before last : Option Char) (c : Char) (t : Text) : Prop
  | kept (left : looseDecoration before (c :: t) = none)
      (scan : tighten last (c :: t) = c :: tighten (some c) t)
      (behind : c = '<' → ∀ d ∈ t.head?, isBlank d = false)
  | taken {d e : Char} {u : Text} (cut : t = d :: u)
      (two : looseDecoration before (c :: t) = some 2) (image : Source.solid [c, d] = [e])
      (scan : tighten last (c :: t) = e :: tighten (some e) u)
      (behind : e = '<' → ∀ f ∈ u.head?, isBlank f = false)

/-- A blank goes with the character behind it, if that is loose. -/
theorem scanStep_blank (before last : Option Char) (single : SingleBlanks (c :: t))
    (blank : isBlank c = true) (start : last ≠ some '<') : ScanStep before last c t := by
  have no_angle : (last == some '<') = false := beq_eq_false_iff_ne.mpr start
  have taken : looseDecoration before (c :: t) = if startsLoose t then some 2 else none :=
    looseDecoration_blank single blank
  have scan : tighten last (c :: t) =
      if startsLoose t then tighten last t else c :: tighten (some c) t := by
    rw [tighten, blank, no_angle, Bool.false_or, Bool.true_and]
  cases loose : startsLoose t with
  | false =>
    rw [loose, if_neg (by decide)] at taken scan
    refine .kept taken scan ?_
    rintro rfl
    cases blank
  | true =>
    rw [loose, if_pos rfl] at taken scan
    obtain _ | ⟨d, u⟩ := t
    · cases loose
    have solid := single.head blank
    rw [tighten_cons_solid solid] at scan
    refine .taken rfl taken (by simp [Source.solid, blank, solid]) scan ?_
    rintro rfl
    cases loose

/-- Anything else stays, and only an angle bracket takes a blank with it. -/
theorem scanStep_solid (before last : Option Char) (single : SingleBlanks (c :: t))
    (solid : isBlank c = false) : ScanStep before last c t := by
  by_cases gap : c = '<' ∧ ∃ b ∈ t.head?, isBlank b = true
  · obtain ⟨rfl, b, first, blank⟩ := gap
    obtain _ | ⟨b', u⟩ := t
    · cases first
    cases first
    have dropped : tighten (some '<') (b :: u) = tighten (some '<') u := by
      rw [tighten, blank]
      rfl
    refine .taken (e := '<') rfl (looseDecoration_angle single blank)
      (by simp [Source.solid, blank, solid]) (by rw [tighten_cons_solid solid, dropped]) ?_
    rintro - f mem
    obtain _ | ⟨e, u⟩ := u
    · cases mem
    · cases mem
      exact single.tail.head blank
  · have plain : c = '<' → ∀ b ∈ t.head?, isBlank b = false := fun angle b mem =>
      Bool.eq_false_iff.mpr fun blank => gap ⟨angle, b, mem, blank⟩
    exact .kept (looseDecoration_solid solid plain) (tighten_cons_solid solid last) plain

/-- One pass over loose decorations is the scan. -/
theorem replaceMatches_looseDecoration (before last : Option Char) (single : SingleBlanks t)
    (start : last = some '<' → ∀ c ∈ t.head?, isBlank c = false) :
    Text.replaceMatchesFrom looseDecoration Source.solid before t = tighten last t := by
  -- a step may take two characters, so the induction is on the length
  induction hn : t.length using Nat.strongRecOn generalizing t before last with
  | ind n ih =>
    subst hn
    obtain _ | ⟨c, t⟩ := t
    · rw [Text.replaceMatchesFrom_nil, tighten]
    have step : ScanStep before last c t := by
      cases blank : isBlank c with
      | true =>
        refine scanStep_blank before last single blank fun angle => ?_
        rw [start angle c rfl] at blank
        cases blank
      | false => exact scanStep_solid before last single blank
    cases step with
    | kept left scan behind =>
      rw [Text.replaceMatches_cons_none left, scan,
        ih t.length (by simp) (some c) (some c) single.tail ?_ rfl]
      rintro ⟨⟩
      exact behind rfl
    | @taken d e u cut two image scan behind =>
      subst cut
      rw [replaceMatches_pair two image, scan,
        ih u.length (by simp only [List.length_cons]; omega) (some d) (some e) single.tail.tail ?_
          rfl]
      rintro ⟨⟩
      exact behind rfl

/-- **On a text in single spaces, tidying is one scan.** -/
theorem tidyType_eq (h : IsSpaced t) : tidyType t = tighten none t := by
  have single : Text.replaceMatches Source.blankRun (fun _ => [' ']) t = t :=
    h.replaceMatches_blankRun none
  rw [tidyType, h.trim, singleBlanks, single]
  exact replaceMatches_looseDecoration none none h.single nofun

/-! ## 2. What the scan keeps -/

theorem tighten_of_solid (solid : ∀ c ∈ t, isBlank c = false) (before : Option Char) :
    tighten before t = t := by
  induction t generalizing before with
  | nil => rfl
  | cons c t ih =>
    rw [tighten_cons_solid (solid c List.mem_cons_self),
      ih fun d mem => solid d (List.mem_cons_of_mem c mem)]

/-- A text that ends with no blank is tidied apart from what stands behind it. -/
theorem tighten_append (filled : s ≠ []) (solid : ∀ c ∈ s.getLast?, isBlank c = false)
    (before : Option Char) (t : Text) :
    tighten before (s ++ t) = tighten before s ++ tighten s.getLast? t := by
  induction s generalizing before with
  | nil => exact absurd rfl filled
  | cons c s ih =>
    cases s with
    | nil =>
      have c_solid := solid c rfl
      rw [List.singleton_append, tighten_cons_solid c_solid, tighten_cons_solid c_solid]
      rfl
    | cons d s =>
      have rest := ih (List.cons_ne_nil d s) solid
      rw [List.cons_append, tighten, tighten, rest, rest, List.getLast?_cons_cons]
      -- the next character is the same with the text behind or without it
      have same : startsLoose (d :: s ++ t) = startsLoose (d :: s) := rfl
      rw [same]
      split <;> rfl

theorem tighten_sublist (before : Option Char) (t : Text) : (tighten before t).Sublist t := by
  induction t generalizing before with
  | nil => exact .slnil
  | cons c t ih =>
    rw [tighten]
    split
    · exact (ih before).cons c
    · exact (ih (some c)).cons_cons c

/-- The first character stays, unless it is a blank that goes. -/
theorem head_tighten (solid : ∀ c ∈ t.head?, isBlank c = false) (before : Option Char) :
    (tighten before t).head? = t.head? := by
  cases t with
  | nil => rfl
  | cons c t =>
    rw [tighten_cons_solid (solid c rfl)]
    rfl

theorem startsLoose_tighten (solid : ∀ c ∈ t.head?, isBlank c = false) (before : Option Char) :
    startsLoose (tighten before t) = startsLoose t := by
  cases t with
  | nil => rfl
  | cons c t =>
    rw [tighten_cons_solid (solid c rfl)]
    rfl

/-- And so does the last one. -/
theorem getLast_tighten (solid : ∀ c ∈ t.getLast?, isBlank c = false) (before : Option Char) :
    (tighten before t).getLast? = t.getLast? := by
  induction t generalizing before with
  | nil => rfl
  | cons c t ih =>
    cases t with
    | nil => rw [tighten_cons_solid (solid c rfl), tighten]
    | cons d t =>
      have rest := ih solid
      rw [List.getLast?_cons_cons, tighten]
      split
      · exact rest before
      · rw [List.getLast?_cons, rest]
        cases last : (d :: t).getLast? with
        | none => simp at last
        | some e => rfl

theorem SingleBlanks.solid_head (h : SingleBlanks (b :: t)) (blank : isBlank b = true) :
    ∀ c ∈ t.head?, isBlank c = false :=
  fun c first => (List.isChain_cons.mp h).1 c first blank

theorem SingleBlanks.tighten (single : SingleBlanks t) (before : Option Char) :
    SingleBlanks (tighten before t) := by
  induction t generalizing before with
  | nil => exact .nil
  | cons c t ih =>
    rw [Declaration.tighten]
    split
    · exact ih single.tail before
    · refine List.isChain_cons.mpr ⟨fun d first blank => ?_, ih single.tail (some c)⟩
      rw [head_tighten (single.solid_head blank)] at first
      exact single.solid_head blank d first

/-- **A tidy type stays as it is.** -/
theorem tighten_tighten (single : SingleBlanks t) (before : Option Char) :
    tighten before (tighten before t) = tighten before t := by
  induction t generalizing before with
  | nil => rfl
  | cons c t ih =>
    have rest := ih single.tail
    rw [tighten]
    split
    · exact rest before
    · next keeps =>
      have same : (isBlank c && (before == some '<' || startsLoose (tighten (some c) t))) =
          (isBlank c && (before == some '<' || startsLoose t)) := by
        cases blank : isBlank c with
        | false => rfl
        | true => rw [startsLoose_tighten (single.solid_head blank)]
      rw [tighten, same, if_neg keeps, rest]

/-- The blanks that go change no depth. -/
theorem read_tighten (d : Depth) (before : Option Char) (t : Text) :
    d.read (tighten before t) = d.read t := by
  induction t generalizing d before with
  | nil => rfl
  | cons c t ih =>
    rw [tighten, Depth.read_cons]
    split
    · next goes => rw [ih, Depth.feed_blank (Bool.and_eq_true_iff.mp goes).1]
    · rw [Depth.read_cons, ih]

theorem clear_tighten {p : Char → Bool} {d : Depth} (clear : Text.Clear p d t)
    (before : Option Char) : Text.Clear p d (tighten before t) := by
  induction t generalizing d before with
  | nil => exact Text.clear_nil
  | cons c t ih =>
    obtain ⟨first, rest⟩ := Text.clear_cons.mp clear
    rw [tighten]
    split
    · next goes =>
      rw [Depth.feed_blank (Bool.and_eq_true_iff.mp goes).1] at rest
      exact ih rest before
    · exact Text.clear_cons.mpr ⟨first, ih rest (some c)⟩

theorem isSpaced_tighten (h : IsSpaced t) : IsSpaced (tighten none t) where
  space c mem := h.space c ((tighten_sublist none t).subset mem)
  single := SingleBlanks.tighten h.single none
  first c first := h.first c (by rwa [head_tighten h.first] at first)
  last c last := h.last c (by rwa [getLast_tighten h.last] at last)

/-- Tidying a type first makes no difference to the whole. -/
theorem tighten_tighten_append (h : IsSpaced s) (filled : s ≠ []) (t : Text) :
    tighten none (tighten none s ++ t) = tighten none (s ++ t) := by
  have filled_tight : tighten none s ≠ [] := by
    intro empty
    have first := head_tighten h.first none
    rw [empty] at first
    exact filled (List.head?_eq_none_iff.mp first.symm)
  rw [tighten_append filled_tight (by rw [getLast_tighten h.last]; exact h.last),
    tighten_tighten h.single, getLast_tighten h.last, tighten_append filled h.last]

/-! ## 3. Lone colons -/

open Text (cutAtColonFrom?)

variable {δ : Depth}

theorem cutAtColonFrom_cons : cutAtColonFrom? δ before (c :: t) = none ↔
    ¬ (c = ':' ∧ δ.isTop ∧ before ≠ some ':' ∧ t.head? ≠ some ':') ∧
      cutAtColonFrom? (δ.feed c) (some c) t = none := by
  rw [cutAtColonFrom?]
  split
  · next lone => simp [lone]
  · next other => simp [other]

/-- The character in front matters only if it is a colon. -/
theorem cutAtColonFrom_congr (same : before = some ':' ↔ last = some ':')
    (h : cutAtColonFrom? δ before t = none) : cutAtColonFrom? δ last t = none := by
  cases t with
  | nil => rfl
  | cons c t =>
    obtain ⟨other, rest⟩ := cutAtColonFrom_cons.mp h
    exact cutAtColonFrom_cons.mpr ⟨by rwa [ne_eq, ← same], rest⟩

theorem cutAtColonFrom_of_clear (clear : Text.Clear (· == ':') δ t) :
    cutAtColonFrom? δ before t = none := by
  induction t generalizing δ before with
  | nil => rfl
  | cons c t ih =>
    obtain ⟨first, rest⟩ := Text.clear_cons.mp clear
    refine cutAtColonFrom_cons.mpr ⟨?_, ih rest⟩
    rintro ⟨rfl, top, -⟩
    rw [first rfl] at top
    cases top

theorem cutAtColonFrom_append (front : cutAtColonFrom? δ before s = none)
    (behind : cutAtColonFrom? (δ.read s) (Text.lastOf before s) t = none) :
    cutAtColonFrom? δ before (s ++ t) = none := by
  induction s generalizing δ before with
  | nil => exact behind
  | cons c s ih =>
    obtain ⟨other, rest⟩ := cutAtColonFrom_cons.mp front
    rw [Text.lastOf_cons, Depth.read_cons] at behind
    refine cutAtColonFrom_cons.mpr ⟨fun lone => other ?_, ih rest behind⟩
    cases s with
    | nil => exact ⟨lone.1, lone.2.1, lone.2.2.1, by simp⟩
    | cons e s => exact lone

theorem cutAtColonFrom_behind (h : cutAtColonFrom? δ before (s ++ b :: t) = none) :
    cutAtColonFrom? (δ.read (s ++ [b])) (some b) t = none := by
  induction s generalizing δ before with
  | nil => exact (cutAtColonFrom_cons.mp h).2
  | cons c s ih => exact ih (cutAtColonFrom_cons.mp h).2

/-- The blanks that go make no colon a lone one: what stood in front of a character, and is not what
was written last, was a blank. -/
theorem cutAtColonFrom_tighten (single : SingleBlanks t)
    (state : before = last ∨ before ≠ some ':')
    (h : cutAtColonFrom? δ before t = none) : cutAtColonFrom? δ last (tighten last t) = none := by
  induction t generalizing δ before last with
  | nil => rfl
  | cons c t ih =>
    obtain ⟨other, rest⟩ := cutAtColonFrom_cons.mp h
    rw [tighten]
    split
    · next goes =>
      have blank := (Bool.and_eq_true_iff.mp goes).1
      rw [Depth.feed_blank blank] at rest
      refine ih single.tail (.inr ?_) rest
      rintro ⟨⟩
      cases blank
    · refine cutAtColonFrom_cons.mpr ⟨?_, ih single.tail (.inl rfl) rest⟩
      rintro ⟨rfl, top, colon, next⟩
      refine other ⟨rfl, top, ?_, fun colon_next => next ?_⟩
      · rcases state with rfl | plain
        · exact colon
        · exact plain
      · have solid : ∀ c ∈ t.head?, isBlank c = false := by
          intro c first
          rw [colon_next] at first
          cases first
          decide
        rw [head_tighten solid, colon_next]

end Declaration
end AccessorCatalog

/-
# Cuts outside brackets

The readers of declarations cut at commas, signs and blanks, and no cut goes through a bracket.  So
a separator counts only where it stands outside brackets.  A text is *clear* of a separator if it
has none there (`Clear`), and it is *whole* if besides all its brackets are closed (`Whole`): it is
a piece that a cut leaves as it is.

* `splitTopFrom_append`: a cut at a separator behind closed brackets;
* `splitTop_join`: whole pieces that are joined are found again;
* `IsSpaced.join_words`, `IsSpaced.join_topWords`: words in single spaces, cut and joined.
-/
import Mathlib.Data.List.Chain
import AccessorCatalog.Proofs.Spacing
import AccessorCatalog.Proofs.TrimmedNames

namespace AccessorCatalog.Text

/-! ## 1. Depth along a text -/

namespace Depth

/-- The characters that change a depth. -/
def brackets : Text :=
  ['(', ')', '[', ']', '<', '>']

theorem feed_of_not_mem {c : Char} (plain : c ∉ brackets) (d : Depth) : d.feed c = d := by
  simp only [brackets, List.mem_cons, List.not_mem_nil, or_false, not_or] at plain
  simp [feed, plain]

theorem not_mem_of_isWord {c : Char} (word : isWord c = true) : c ∉ brackets := by
  intro mem
  have none_word : ∀ e ∈ brackets, isWord e = false := by decide
  exact ne_of_isWord word (none_word c mem) rfl

theorem not_mem_of_isBlank {c : Char} (blank : isBlank c = true) : c ∉ brackets := by
  intro mem
  have solid : ∀ e ∈ brackets, isBlank e = false := by decide
  rw [solid c mem] at blank
  cases blank

theorem read_append (d : Depth) (s t : Text) : d.read (s ++ t) = (d.read s).read t :=
  List.foldl_append

theorem read_of_plain {t : Text} (plain : ∀ c ∈ t, c ∉ brackets) (d : Depth) : d.read t = d := by
  induction t with
  | nil => rfl
  | cons c t ih =>
    rw [read_cons, feed_of_not_mem (plain c List.mem_cons_self),
      ih fun e mem => plain e (List.mem_cons_of_mem c mem)]

theorem read_blanks {t : Text} (blank : ∀ b ∈ t, isBlank b = true) (d : Depth) : d.read t = d :=
  read_of_plain (fun b mem => not_mem_of_isBlank (blank b mem)) d

theorem feed_of_separator {sep : Char} (no_bracket : sep ∉ brackets) (c : Char)
    (same : (c == sep) = true) (d : Depth) : d.feed c = d := by
  rw [beq_iff_eq.mp same]
  exact feed_of_not_mem no_bracket d

end Depth

variable {p : Char → Bool} {d : Depth} {s t : Text}

/-- Every character of a class stands inside brackets, if the text is read at a depth. -/
def Clear (p : Char → Bool) (d : Depth) (t : Text) : Prop :=
  ∀ s c u, t = s ++ c :: u → p c = true → (d.read s).isTop = false

theorem clear_nil : Clear p d [] := by
  intro s c u cut
  simp at cut

theorem clear_cons {c : Char} :
    Clear p d (c :: t) ↔ (p c = true → d.isTop = false) ∧ Clear p (d.feed c) t := by
  constructor
  · intro clear
    refine ⟨clear [] c t rfl, fun s e u cut => ?_⟩
    rw [← Depth.read_cons]
    exact clear (c :: s) e u (by rw [cut, List.cons_append])
  · rintro ⟨first, rest⟩ s e u cut
    cases s with
    | nil =>
      cases cut
      exact first
    | cons b s =>
      cases cut
      rw [Depth.read_cons]
      exact rest s e u rfl

theorem clear_append : Clear p d (s ++ t) ↔ Clear p d s ∧ Clear p (d.read s) t := by
  induction s generalizing d with
  | nil => exact ⟨fun clear => ⟨clear_nil, clear⟩, fun clear => clear.2⟩
  | cons c s ih => rw [List.cons_append, clear_cons, clear_cons, ih, Depth.read_cons, and_assoc]

theorem clear_of_forall (absent : ∀ c ∈ t, p c = false) : Clear p d t := by
  rintro s c u rfl found
  rw [absent c (by simp)] at found
  cases found

/-- A piece of a cut: its brackets are closed, and the separators stand inside them. -/
structure Whole (p : Char → Bool) (t : Text) : Prop where
  closed : Depth.read {} t = {}
  clear : Clear p {} t

theorem Whole.append (hs : Whole p s) (ht : Whole p t) : Whole p (s ++ t) :=
  ⟨by rw [Depth.read_append, hs.closed, ht.closed],
    clear_append.mpr ⟨hs.clear, by rw [hs.closed]; exact ht.clear⟩⟩

theorem whole_of_plain (plain : ∀ c ∈ t, c ∉ Depth.brackets ∧ p c = false) : Whole p t :=
  ⟨Depth.read_of_plain (fun c mem => (plain c mem).1) {},
    clear_of_forall fun c mem => (plain c mem).2⟩

/-- A word is a whole piece for a reader that cuts at no word character. -/
theorem whole_of_word (letters : ∀ c ∈ t, isWord c = true)
    (no_word : ∀ c, isWord c = true → p c = false) :
    Whole p t :=
  whole_of_plain fun c mem => ⟨Depth.not_mem_of_isWord (letters c mem), no_word c (letters c mem)⟩

/-- Blanks are a whole piece for a reader that cuts at a solid character. -/
theorem whole_of_blanks {gap : Text} {sep : Char} (blank : ∀ b ∈ gap, isBlank b = true)
    (solid : isBlank sep = false) : Whole (· == sep) gap := by
  refine whole_of_plain fun c mem =>
    ⟨Depth.not_mem_of_isBlank (blank c mem), beq_eq_false_iff_ne.mpr ?_⟩
  rintro rfl
  rw [blank c mem] at solid
  cases solid

/-! ## 2. Brackets that match -/

/-- The brackets of a text match each other: a reader comes out at the depth at which it went in,
and if that was inside brackets, it was inside them all along. -/
structure Balanced (t : Text) : Prop where
  closed : ∀ d : Depth, d.read t = d
  inside : ∀ (d : Depth) (s : Text), s <+: t → d.isTop = false → (d.read s).isTop = false

namespace Balanced

theorem of_plain (plain : ∀ c ∈ t, c ∉ Depth.brackets) : Balanced t := by
  refine ⟨Depth.read_of_plain plain, fun d s start inner => ?_⟩
  rw [Depth.read_of_plain fun c mem => plain c (start.subset mem)]
  exact inner

theorem of_word (letters : ∀ c ∈ t, isWord c = true) : Balanced t :=
  of_plain fun c mem => Depth.not_mem_of_isWord (letters c mem)

theorem append (hs : Balanced s) (ht : Balanced t) : Balanced (s ++ t) := by
  refine ⟨fun d => by rw [Depth.read_append, hs.closed, ht.closed], fun d u start inner => ?_⟩
  rcases List.prefix_or_prefix_of_prefix start (List.prefix_append s t) with within | ⟨v, rfl⟩
  · exact hs.inside d u within inner
  · rw [Depth.read_append, hs.closed]
    exact ht.inside d v ((List.prefix_append_right_inj s).mp start) inner

/-- A pair of brackets around a text whose brackets match. -/
theorem enclose {left right : Char}
    (pair : ∀ d : Depth, (d.feed left).feed right = d ∧ (d.feed left).isTop = false)
    (ht : Balanced t) : Balanced (left :: (t ++ [right])) := by
  have whole (d : Depth) : d.read (left :: (t ++ [right])) = d := by
    rw [Depth.read_cons, Depth.read_append, ht.closed]
    exact (pair d).1
  refine ⟨whole, fun d s start inner => ?_⟩
  rcases List.prefix_cons_iff.mp start with rfl | ⟨u, rfl, behind⟩
  · exact inner
  · rcases List.prefix_concat_iff.mp behind with rfl | within
    · rw [whole]
      exact inner
    · exact ht.inside (d.feed left) u within (pair d).2

/-- Inside brackets, such a text is clear of everything. -/
theorem clear (ht : Balanced t) (inner : d.isTop = false) : Clear p d t :=
  fun s c u cut _ => ht.inside d s ⟨c :: u, cut.symm⟩ inner

/-- With a pair of brackets around it, it is a whole piece. -/
theorem whole_enclose {left right : Char}
    (pair : ∀ d : Depth, (d.feed left).feed right = d ∧ (d.feed left).isTop = false)
    (ht : Balanced t) (no_left : p left = false) : Whole p (left :: (t ++ [right])) := by
  refine ⟨(ht.enclose pair).closed {}, clear_cons.mpr ⟨fun found => ?_, clear_append.mpr ⟨?_, ?_⟩⟩⟩
  · rw [no_left] at found
    cases found
  · exact ht.clear (pair {}).2
  · rw [ht.closed]
    exact clear_cons.mpr ⟨fun _ => (pair {}).2, clear_nil⟩

end Balanced

theorem pair_angle (d : Depth) : (d.feed '<').feed '>' = d ∧ (d.feed '<').isTop = false := by
  obtain ⟨paren, square, angle⟩ := d
  simp [Depth.feed, Depth.isTop]

theorem pair_square (d : Depth) : (d.feed '[').feed ']' = d ∧ (d.feed '[').isTop = false := by
  obtain ⟨paren, square, angle⟩ := d
  simp [Depth.feed, Depth.isTop]

/-! ## 3. Cuts -/

theorem consFirst_append {pieces : List Text} (some_piece : pieces ≠ []) (c : Char)
    (more : List Text) : consFirst c (pieces ++ more) = consFirst c pieces ++ more := by
  obtain ⟨piece, pieces, rfl⟩ := List.exists_cons_of_ne_nil some_piece
  rfl

/-- What is clear of separators goes to the first piece. -/
theorem splitTopFrom_clear_append (clear : Clear p d s) (t : Text) :
    splitTopFrom p d (s ++ t) = (splitTopFrom p (d.read s) t).modifyHead (s ++ ·) := by
  induction s generalizing d with
  | nil => cases h : splitTopFrom p d t <;> simp [Depth.read, h]
  | cons c s ih =>
    obtain ⟨first, rest⟩ := clear_cons.mp clear
    have joined : ¬ (p c && d.isTop) = true := by
      intro separates
      obtain ⟨found, top⟩ := Bool.and_eq_true_iff.mp separates
      rw [first found] at top
      cases top
    rw [List.cons_append, splitTopFrom, if_neg joined, ih rest, Depth.read_cons]
    obtain ⟨piece, pieces, split⟩ :=
      List.exists_cons_of_ne_nil (splitTopFrom_ne_nil p ((d.feed c).read s) t)
    simp [split, consFirst]

theorem splitTopFrom_of_clear (clear : Clear p d t) : splitTopFrom p d t = [t] := by
  simpa [splitTopFrom] using splitTopFrom_clear_append clear []

/-- A text is clear of separators exactly if nothing is cut, and so this can be decided. -/
theorem clear_iff : Clear p d t ↔ splitTopFrom p d t = [t] := by
  refine ⟨splitTopFrom_of_clear, fun whole => ?_⟩
  induction t generalizing d with
  | nil => exact clear_nil
  | cons c t ih =>
    rw [splitTopFrom] at whole
    split at whole
    · cases whole
    · next joined =>
      obtain ⟨piece, pieces, split⟩ :=
        List.exists_cons_of_ne_nil (splitTopFrom_ne_nil p (d.feed c) t)
      rw [split, consFirst] at whole
      obtain ⟨same, rfl⟩ := List.cons.inj whole
      obtain rfl := (List.cons.inj same).2
      exact clear_cons.mpr ⟨fun found => by simpa [found] using joined, ih split⟩

instance : Decidable (Clear p d t) :=
  decidable_of_iff _ clear_iff.symm

instance : Decidable (Whole p t) :=
  decidable_of_iff (Depth.read {} t = {} ∧ Clear p {} t) ⟨fun h => ⟨h.1, h.2⟩, fun h => ⟨h.1, h.2⟩⟩

/-- **A separator cuts where all brackets are closed.** -/
theorem splitTopFrom_append {sep : Char} (plain : ∀ c, p c = true → ∀ d : Depth, d.feed c = d)
    (separates : p sep = true) (top : (d.read s).isTop = true) (t : Text) :
    splitTopFrom p d (s ++ sep :: t) = splitTopFrom p d s ++ splitTopFrom p (d.read s) t := by
  induction s generalizing d with
  | nil =>
    have here : d.isTop = true := top
    simp [splitTopFrom, separates, here, Depth.read]
  | cons c s ih =>
    rw [Depth.read_cons] at top ⊢
    rw [List.cons_append, splitTopFrom, splitTopFrom, ih top]
    split
    · next cut =>
      rw [plain c (Bool.and_eq_true_iff.mp cut).1 d] at top ⊢
      rw [ih top, List.cons_append]
    · rw [consFirst_append (splitTopFrom_ne_nil _ _ _)]

/-- Cuts depend on the separators that occur. -/
theorem splitTopFrom_congr {q : Char → Bool} (d : Depth) (agree : ∀ c ∈ t, p c = q c) :
    splitTopFrom p d t = splitTopFrom q d t := by
  induction t generalizing d with
  | nil => rfl
  | cons c t ih =>
    have rest := fun d => ih d fun e mem => agree e (List.mem_cons_of_mem c mem)
    rw [splitTopFrom, splitTopFrom, agree c List.mem_cons_self, rest, rest]

theorem splitWhere_congr {q : Char → Bool} (agree : ∀ c ∈ t, p c = q c) :
    splitWhere p t = splitWhere q t := by
  induction t with
  | nil => rfl
  | cons c t ih =>
    rw [splitWhere, splitWhere, agree c List.mem_cons_self,
      ih fun e mem => agree e (List.mem_cons_of_mem c mem)]

variable {w : Text} {ws : List Text}

/-- **Whole pieces are found again where they were joined**, with what stands in front of each. -/
theorem splitTop_join {sep : Char} {gap : Text} (no_bracket : sep ∉ Depth.brackets)
    (plain : ∀ c ∈ gap, c ∉ Depth.brackets ∧ (c == sep) = false)
    (whole : ∀ piece ∈ w :: ws, Whole (· == sep) piece) :
    splitTop sep (join (sep :: gap) (w :: ws)) = w :: ws.map (gap ++ ·) := by
  unfold splitTop splitTopWhere
  induction ws generalizing w with
  | nil => simpa [join] using splitTopFrom_of_clear (whole w List.mem_cons_self).clear
  | cons next ws ih =>
    have first := whole w List.mem_cons_self
    have rest := ih fun piece mem => whole piece (List.mem_cons_of_mem w mem)
    have top : (Depth.read {} w).isTop = true := by rw [first.closed]; rfl
    rw [Source.join_cons_cons, List.append_assoc, List.cons_append,
      splitTopFrom_append (Depth.feed_of_separator no_bracket) (by simp) top,
      splitTopFrom_of_clear first.clear, first.closed,
      splitTopFrom_clear_append (whole_of_plain plain).clear, (whole_of_plain plain).closed, rest]
    rfl

/-- The part before the first separator. -/
theorem beforeTop_append {sep : Char} (no_bracket : sep ∉ Depth.brackets)
    (whole : Whole (· == sep) s) (t : Text) : beforeTop sep (s ++ sep :: t) = s := by
  have top : (Depth.read {} s).isTop = true := by rw [whole.closed]; rfl
  rw [beforeTop, splitTop, splitTopWhere,
    splitTopFrom_append (Depth.feed_of_separator no_bracket) (by simp) top,
    splitTopFrom_of_clear whole.clear]
  rfl

theorem beforeTop_of_clear {sep : Char} (clear : Clear (· == sep) {} t) : beforeTop sep t = t := by
  rw [beforeTop, splitTop, splitTopWhere, splitTopFrom_of_clear clear]
  rfl

/-! ## 4. Words outside brackets -/

/-- A blank outside brackets cuts the words in front of it from those behind it. -/
theorem topWords_append {b : Char} (blank : isBlank b = true) (closed : Depth.read {} s = {})
    (t : Text) : topWords (s ++ b :: t) = topWords s ++ topWords t := by
  have top : (Depth.read {} s).isTop = true := by rw [closed]; rfl
  rw [topWords, splitTopWhere, splitTopFrom_append (fun c => Depth.feed_blank) blank top,
    List.filter_append, closed]
  rfl

theorem topWords_of_clear (filled : w ≠ []) (clear : Clear isBlank {} w) : topWords w = [w] := by
  rw [topWords, splitTopWhere, splitTopFrom_of_clear clear]
  simp [filled]

/-! ## 5. Words in single spaces -/

theorem isChain_of_forall {near : Char → Char → Prop} (all : ∀ c ∈ t, ∀ d ∈ t, near c d) :
    t.IsChain near :=
  List.Pairwise.isChain (List.pairwise_of_forall_mem_list all)

/-- The only blanks of a text are single spaces between other characters. -/
structure IsSpaced (t : Text) : Prop where
  space : ∀ c ∈ t, isBlank c = true → c = ' '
  single : t.IsChain fun c d => isBlank c = true → isBlank d = false
  first : ∀ c ∈ t.head?, isBlank c = false
  last : ∀ c ∈ t.getLast?, isBlank c = false

instance (t : Text) : Decidable (IsSpaced t) :=
  decidable_of_iff ((∀ c ∈ t, isBlank c = true → c = ' ') ∧
      (t.IsChain fun c d => isBlank c = true → isBlank d = false) ∧
      (∀ c ∈ t.head?, isBlank c = false) ∧ ∀ c ∈ t.getLast?, isBlank c = false)
    ⟨fun ⟨a, b, c, d⟩ => ⟨a, b, c, d⟩, fun ⟨a, b, c, d⟩ => ⟨a, b, c, d⟩⟩

namespace IsSpaced

theorem trim (h : IsSpaced t) : trim t = t :=
  trim_of_edges h.first h.last

theorem of_solid (solid : ∀ c ∈ t, isBlank c = false) : IsSpaced t where
  space c mem blank := by
    rw [solid c mem] at blank
    cases blank
  single := isChain_of_forall fun _ _ d mem _ => solid d mem
  first c first := solid c (List.mem_of_head? first)
  last c last := solid c (List.mem_of_getLast? last)

theorem append (hs : IsSpaced s) (ht : IsSpaced t) : IsSpaced (s ++ t) where
  space c mem := (List.mem_append.mp mem).elim (hs.space c) (ht.space c)
  single := List.isChain_append.mpr ⟨hs.single, ht.single, fun _ _ d first _ => ht.first d first⟩
  first c first := by
    rw [List.head?_append] at first
    rcases Option.or_eq_some_iff.mp first with here | ⟨-, behind⟩
    · exact hs.first c here
    · exact ht.first c behind
  last c last := by
    rw [List.getLast?_append] at last
    rcases Option.or_eq_some_iff.mp last with here | ⟨-, before⟩
    · exact ht.last c here
    · exact hs.last c before

theorem append_space (hs : IsSpaced s) (ht : IsSpaced t) (some_front : s ≠ [])
    (some_rest : t ≠ []) :
    IsSpaced (s ++ ' ' :: t) where
  space c mem blank := by
    rcases List.mem_append.mp mem with mem | mem
    · exact hs.space c mem blank
    · rcases List.mem_cons.mp mem with rfl | mem
      · rfl
      · exact ht.space c mem blank
  single := by
    refine List.isChain_append.mpr ⟨hs.single, List.isChain_cons.mpr
      ⟨fun c first _ => ht.first c first, ht.single⟩, fun c last d _ blank => ?_⟩
    rw [hs.last c last] at blank
    cases blank
  first c first := by
    obtain ⟨b, s, rfl⟩ := List.exists_cons_of_ne_nil some_front
    exact hs.first c first
  last c last := by
    obtain ⟨b, t, rfl⟩ := List.exists_cons_of_ne_nil some_rest
    rw [List.getLast?_append, List.getLast?_cons_cons] at last
    rcases Option.or_eq_some_iff.mp last with here | ⟨none_there, -⟩
    · exact ht.last c here
    · simp at none_there

/-- Behind a space, and in front of one, stands such a text again. -/
theorem of_append (h : IsSpaced (s ++ ' ' :: t)) : (s ≠ [] ∧ IsSpaced s) ∧ t ≠ [] ∧ IsSpaced t := by
  have chain := List.isChain_append.mp h.single
  have behind := List.isChain_cons.mp chain.2.1
  have some_front : s ≠ [] := by
    rintro rfl
    exact absurd (h.first ' ' rfl) (by decide)
  have some_rest : t ≠ [] := by
    rintro rfl
    exact absurd (h.last ' ' (by simp)) (by decide)
  refine ⟨⟨some_front, fun c mem => h.space c (List.mem_append_left _ mem), chain.1, ?_, ?_⟩,
    some_rest, fun c mem => h.space c (by simp [mem]), behind.2,
    fun c first => behind.1 c first (by decide), ?_⟩
  · obtain ⟨b, s, rfl⟩ := List.exists_cons_of_ne_nil some_front
    exact h.first
  · intro c last
    cases blank : isBlank c with
    | false => rfl
    | true => exact absurd (chain.2.2 c last ' ' rfl blank) (by decide)
  · intro c last
    exact h.last c (by
      rw [Option.mem_def] at last ⊢
      rw [List.getLast?_append, List.getLast?_cons, last]
      rfl)

/-- Cut at its spaces, such a text has no empty piece. -/
theorem ne_nil_of_mem {pieces : List Text} (h : IsSpaced (join [' '] pieces))
    (filled : join [' '] pieces ≠ []) : ∀ piece ∈ pieces, piece ≠ [] := by
  induction pieces with
  | nil => exact absurd rfl filled
  | cons piece pieces ih =>
    cases pieces with
    | nil => simpa [join] using filled
    | cons next pieces =>
      rw [Source.join_cons_cons, List.append_assoc, List.singleton_append] at h
      obtain ⟨⟨some_piece, -⟩, some_rest, spaced⟩ := h.of_append
      intro other mem
      rcases List.mem_cons.mp mem with rfl | mem
      · exact some_piece
      · exact ih spaced some_rest other mem

/-- **Joining the words of such a text gives it back.** -/
theorem join_filter (h : IsSpaced t) {pieces : List Text} (joined : join [' '] pieces = t) :
    join [' '] (pieces.filter fun w => !w.isEmpty) = t := by
  by_cases filled : t = []
  · subst filled
    cases pieces with
    | nil => rfl
    | cons piece pieces =>
      cases pieces with
      | nil => cases piece <;> simp_all [join]
      | cons next pieces =>
        rw [Source.join_cons_cons] at joined
        simp at joined
  · subst joined
    have keep := h.ne_nil_of_mem filled
    rw [List.filter_eq_self.mpr fun piece mem => by simpa using keep piece mem]

/-- All blanks being spaces, cutting at blanks is cutting at spaces. -/
theorem isBlank_iff (h : IsSpaced t) : ∀ c ∈ t, isBlank c = (c == ' ') := by
  intro c mem
  cases blank : isBlank c with
  | true => rw [h.space c mem blank]; rfl
  | false =>
    have other : c ≠ ' ' := by
      rintro rfl
      cases blank
    simp [other]

theorem join_topWords (h : IsSpaced t) : join [' '] (topWords t) = t := by
  refine h.join_filter ?_
  rw [splitTopWhere, splitTopFrom_congr {} h.isBlank_iff]
  exact join_splitTop ' ' t

theorem join_words (h : IsSpaced t) : join [' '] (words t) = t := by
  refine h.join_filter ?_
  rw [splitWhere_congr h.isBlank_iff]
  exact join_splitOn ' ' t

end IsSpaced

end AccessorCatalog.Text

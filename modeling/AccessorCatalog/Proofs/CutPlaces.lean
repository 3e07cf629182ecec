/-
# Where a text is cut

A text is cut at the separators outside brackets.  Which these are is said here without the scan
that finds them: of each kind of brackets the text in front leaves none open, where a close without
an open counts for nothing (`CutAt`).  Such a text begins with a piece that is clear of separators,
and behind the separator all starts anew, so everything is proved along the cuts (`cut_induction`).

* `seams_splitTopWhere`: the pieces of a text meet at the places at which it is cut, and at no
  others;
* `exists_stretches`: the words of a text are its maximal stretches between blanks outside brackets;
* `splitTop_lossless`: both, with the pieces joined and split again.
-/
import AccessorCatalog.Proofs.TopLevel

namespace AccessorCatalog.Text

/-! ## 1. Places outside brackets -/

/-- The number of open brackets of a kind behind a character.  A close without an open counts for
nothing. -/
def countBracket (left right : Char) (n : Nat) (c : Char) : Nat :=
  if c = left then n + 1 else if c = right then n - 1 else n

/-- How many brackets of a kind a text leaves open. -/
def unclosed (left right : Char) (t : Text) : Nat :=
  t.foldl (countBracket left right) 0

/-- A text leaves no bracket open: what stands behind it is outside brackets. -/
def LeavesNoneOpen (t : Text) : Prop :=
  unclosed '(' ')' t = 0 ∧ unclosed '[' ']' t = 0 ∧ unclosed '<' '>' t = 0

instance (t : Text) : Decidable (LeavesNoneOpen t) :=
  inferInstanceAs (Decidable (_ ∧ _ ∧ _))

/-- At a place of the text stands a separator outside brackets. -/
def CutAt (p : Char → Bool) (t : Text) (i : Nat) : Prop :=
  t[i]?.any p = true ∧ LeavesNoneOpen (t.take i)

instance (p : Char → Bool) (t : Text) (i : Nat) : Decidable (CutAt p t i) :=
  inferInstanceAs (Decidable (_ ∧ _))

/-- The places at which a text is cut, from left to right. -/
def cutPlaces (p : Char → Bool) (t : Text) : List Nat :=
  (List.range t.length).filter fun i => CutAt p t i

namespace Depth

theorem feed_eq (d : Depth) (c : Char) : d.feed c =
    ⟨countBracket '(' ')' d.paren c, countBracket '[' ']' d.square c,
      countBracket '<' '>' d.angle c⟩ := by
  by_cases bracket : c ∈ brackets
  · simp only [brackets, List.mem_cons, List.not_mem_nil, or_false] at bracket
    rcases bracket with rfl | rfl | rfl | rfl | rfl | rfl <;> simp [feed, countBracket]
  · rw [feed_of_not_mem bracket]
    simp only [brackets, List.mem_cons, List.not_mem_nil, or_false, not_or] at bracket
    simp [countBracket, bracket]

/-- The three counts of a depth do not look at each other. -/
theorem read_eq (d : Depth) (t : Text) : d.read t =
    ⟨t.foldl (countBracket '(' ')') d.paren, t.foldl (countBracket '[' ']') d.square,
      t.foldl (countBracket '<' '>') d.angle⟩ := by
  induction t generalizing d with
  | nil => rfl
  | cons c t ih => rw [read_cons, ih, feed_eq]; rfl

theorem isTop_iff {d : Depth} : d.isTop = true ↔ d = {} := by
  obtain ⟨paren, square, angle⟩ := d
  simp [isTop, and_assoc]

end Depth

variable {p : Char → Bool} {s t : Text} {c : Char} {i j : Nat}

theorem leavesNoneOpen_iff : LeavesNoneOpen t ↔ Depth.read {} t = {} := by
  rw [Depth.read_eq, Depth.mk.injEq]
  rfl

/-! ## 2. Along the cuts -/

theorem exists_of_cutAt (h : CutAt p t i) :
    ∃ c, t = t.take i ++ c :: t.drop (i + 1) ∧ p c = true := by
  obtain ⟨c, here, separates⟩ := (Option.any_eq_true p _).mp h.1
  obtain ⟨inside, rfl⟩ := List.getElem?_eq_some_iff.mp here
  exact ⟨t[i], by rw [List.getElem_cons_drop, List.take_append_drop], separates⟩

/-- A text is clear of separators if it is cut nowhere. -/
theorem clear_iff_forall : Clear p {} t ↔ ∀ i, ¬ CutAt p t i := by
  constructor
  · intro clear i cut
    obtain ⟨c, parts, separates⟩ := exists_of_cutAt cut
    have inner := clear _ c _ parts separates
    rw [leavesNoneOpen_iff.mp cut.2] at inner
    cases inner
  · rintro no_cut s c u rfl separates
    refine Bool.eq_false_iff.mpr fun top => no_cut s.length ⟨by simp [separates], ?_⟩
    rw [List.take_left, leavesNoneOpen_iff, Depth.isTop_iff.mp top]

theorem exists_first_cut {d : Depth} (h : ¬ Clear p d t) : ∃ s c u, t = s ++ c :: u ∧ Clear p d s ∧
    d.read s = {} ∧ p c = true := by
  induction t generalizing d with
  | nil => exact absurd clear_nil h
  | cons c t ih =>
    by_cases here : p c = true ∧ d.isTop = true
    · exact ⟨[], c, t, rfl, clear_nil, Depth.isTop_iff.mp here.2, here.1⟩
    · have joined : p c = true → d.isTop = false := by
        intro found
        exact Bool.eq_false_iff.mpr fun top => here ⟨found, top⟩
      have later : ¬ Clear p (d.feed c) t := by
        intro rest
        exact h (clear_cons.mpr ⟨joined, rest⟩)
      obtain ⟨s, e, u, rfl, clear, closed, found⟩ := ih later
      exact ⟨c :: s, e, u, rfl, clear_cons.mpr ⟨joined, clear⟩, closed, found⟩

/-- **A text along its cuts**: it is clear of separators, or it begins with a piece that is, and a
separator behind it. -/
theorem cut_induction (p : Char → Bool) {motive : Text → Prop} (last : ∀ t, Clear p {} t → motive t)
    (more : ∀ s c t, Whole p s → p c = true → motive t → motive (s ++ c :: t)) (t : Text) :
    motive t := by
  induction hn : t.length using Nat.strongRecOn generalizing t with
  | ind n ih =>
    subst hn
    by_cases clear : Clear p {} t
    · exact last t clear
    · -- the rest behind the separator is shorter, whatever the piece in front of it is
      obtain ⟨s, c, u, rfl, clear, closed, separates⟩ := exists_first_cut clear
      exact more s c u ⟨closed, clear⟩ separates (ih u.length (by simp; omega) u rfl)

/-- No separator is a bracket. -/
def Unbracketed (p : Char → Bool) : Prop :=
  ∀ c, p c = true → c ∉ Depth.brackets

section Cut

variable (plain : Unbracketed p) (whole : Whole p s) (separates : p c = true)
include plain whole separates

theorem splitTopWhere_append (t : Text) :
    splitTopWhere p (s ++ c :: t) = s :: splitTopWhere p t := by
  have top : (Depth.read {} s).isTop = true := by rw [whole.closed]; rfl
  rw [splitTopWhere,
    splitTopFrom_append (fun c found => Depth.feed_of_not_mem (plain c found)) separates top,
    splitTopFrom_of_clear whole.clear, whole.closed]
  rfl

/-- Behind a cut all starts anew. -/
theorem cutAt_behind (t : Text) (i : Nat) :
    CutAt p (s ++ c :: t) (s.length + 1 + i) ↔ CutAt p t i := by
  have front : s ++ c :: t = (s ++ [c]) ++ t := by simp
  have length : s.length + 1 = (s ++ [c]).length := by simp
  have closed : Depth.read {} (s ++ [c]) = {} := by
    rw [Depth.read_append, whole.closed]
    exact Depth.feed_of_not_mem (plain c separates) {}
  rw [CutAt, CutAt, front, length, List.getElem?_append_right (by omega), Nat.add_sub_cancel_left,
    List.take_length_add_append, leavesNoneOpen_iff, leavesNoneOpen_iff, Depth.read_append, closed]

omit plain separates in
/-- In front of the first cut there is none. -/
theorem not_cutAt_front (inside : i < s.length) (t : Text) : ¬ CutAt p (s ++ t) i := by
  have none_there := clear_iff_forall.mp whole.clear i
  rwa [CutAt, List.getElem?_append_left inside, List.take_append_of_le_length (by omega)]

omit plain in
theorem cutAt_first (t : Text) : CutAt p (s ++ c :: t) s.length :=
  ⟨by simp [separates], by rw [List.take_left, leavesNoneOpen_iff, whole.closed]⟩

theorem cutPlaces_append (t : Text) :
    cutPlaces p (s ++ c :: t) = s.length :: (cutPlaces p t).map (s.length + 1 + ·) := by
  have front : (List.range s.length).filter (fun i => CutAt p (s ++ c :: t) i) = [] :=
    List.filter_eq_nil_iff.mpr fun i mem => by
      simpa using not_cutAt_front whole (List.mem_range.mp mem) (c :: t)
  have behind (i : Nat) := cutAt_behind plain whole separates t i
  have length : (s ++ c :: t).length = s.length + 1 + t.length := by simp; omega
  rw [cutPlaces, cutPlaces, length, List.range_add, List.range_succ, List.filter_append,
    List.filter_append, front, List.filter_map]
  simp [Function.comp_def, behind, cutAt_first whole separates t]

end Cut

theorem cutPlaces_of_clear (clear : Clear p {} t) : cutPlaces p t = [] :=
  List.filter_eq_nil_iff.mpr fun i _ => by simpa using clear_iff_forall.mp clear i

/-! ## 3. Pieces -/

/-- The places at which pieces meet that have one character between neighbours. -/
def seams : List Text → List Nat
  | piece :: next :: pieces => piece.length :: (seams (next :: pieces)).map (piece.length + 1 + ·)
  | _ => []

/-- **The pieces of a text meet where it is cut.** -/
theorem seams_splitTopWhere (plain : Unbracketed p) (t : Text) :
    seams (splitTopWhere p t) = cutPlaces p t := by
  induction t using cut_induction p with
  | last t clear =>
    rw [cutPlaces_of_clear clear, splitTopWhere, splitTopFrom_of_clear clear]
    rfl
  | more s c t whole separates ih =>
    rw [cutPlaces_append plain whole separates, ← ih, splitTopWhere_append plain whole separates]
    obtain ⟨piece, pieces, split⟩ := List.exists_cons_of_ne_nil (splitTopFrom_ne_nil p {} t)
    rw [splitTopWhere, split, seams]

/-! ## 4. Words -/

/-- A stretch of the text, from a place up to another, that is not cut and ends only where the text
is cut or over. -/
structure IsStretch (p : Char → Bool) (t : Text) (i j : Nat) : Prop where
  filled : i < j
  within : j ≤ t.length
  uncut : ∀ k, i ≤ k → k < j → ¬ CutAt p t k
  starts : i = 0 ∨ CutAt p t (i - 1)
  stops : j = t.length ∨ CutAt p t j

/-- All stretches of a text, from left to right. -/
structure AreStretches (p : Char → Bool) (t : Text) (spans : List (Nat × Nat)) : Prop where
  ordered : spans.Pairwise fun a b => a.2 < b.1
  mem_iff : ∀ i j, (i, j) ∈ spans ↔ IsStretch p t i j

/-- The text without the separators at which it is cut.  A separator inside brackets stays, so that
each character has its place with it. -/
def withoutCuts (p : Char → Bool) (t : Text) : Text :=
  (t.zipIdx.filter fun x => ¬ CutAt p t x.2).map Prod.fst

/-- The stretch that a piece at the start of a text is. -/
def firstStretch (s : Text) : List (Nat × Nat) :=
  if s = [] then [] else [(0, s.length)]

theorem mem_firstStretch : (i, j) ∈ firstStretch s ↔ s ≠ [] ∧ i = 0 ∧ j = s.length := by
  unfold firstStretch
  split_ifs with empty <;> simp [empty]

/-- There is at most one first stretch. -/
theorem pairwise_firstStretch (s : Text) : (firstStretch s).Pairwise fun a b => a.2 < b.1 := by
  unfold firstStretch
  split_ifs <;> simp

theorem areStretches_of_clear (clear : Clear p {} t) : AreStretches p t (firstStretch t) := by
  have no_cut := clear_iff_forall.mp clear
  refine ⟨pairwise_firstStretch t, fun i j => mem_firstStretch.trans ?_⟩
  constructor
  · rintro ⟨filled, rfl, rfl⟩
    exact ⟨List.length_pos_of_ne_nil filled, le_rfl, fun k _ _ => no_cut k, .inl rfl, .inl rfl⟩
  · intro h
    have first := h.starts.resolve_right (no_cut _)
    have last := h.stops.resolve_right (no_cut _)
    refine ⟨?_, first, last⟩
    rintro rfl
    exact absurd h.filled (by simp [last])

section Cut

variable (plain : Unbracketed p) (whole : Whole p s) (separates : p c = true)
include plain whole separates

/-- A stretch behind the first cut starts right there, or at a later cut. -/
theorem starts_behind (t : Text) (i : Nat) :
    CutAt p (s ++ c :: t) (s.length + 1 + i - 1) ↔ i = 0 ∨ CutAt p t (i - 1) := by
  cases i with
  | zero => simpa using cutAt_first whole separates t
  | succ i => simpa using cutAt_behind plain whole separates t i

/-- A stretch of the text is its first piece, or it lies behind the first cut. -/
theorem isStretch_append : IsStretch p (s ++ c :: t) i j ↔ (i, j) ∈ firstStretch s ∨
    ∃ i' j', IsStretch p t i' j' ∧ s.length + 1 + i' = i ∧ s.length + 1 + j' = j := by
  -- the cut behind the first piece is the only place that no stretch covers
  have behind (k : Nat) := cutAt_behind plain whole separates t k
  have starts (k : Nat) := starts_behind plain whole separates t k
  have front {k : Nat} (inside : k < s.length) := not_cutAt_front whole inside (c :: t)
  have first := cutAt_first whole separates t
  have length : (s ++ c :: t).length = s.length + 1 + t.length := by simp; omega
  rw [mem_firstStretch]
  constructor
  · intro h
    have filled := h.filled
    rcases Nat.lt_or_ge i (s.length + 1) with inside | outside
    · have short : j ≤ s.length := by
        by_contra beyond
        exact h.uncut s.length (by omega) (by omega) first
      refine .inl ⟨List.ne_nil_of_length_pos (by omega),
        h.starts.resolve_right (front (by omega)), ?_⟩
      rcases Nat.lt_or_eq_of_le short with shorter | rfl
      · exact absurd (h.stops.resolve_left (by omega)) (front shorter)
      · rfl
    · obtain ⟨i, rfl⟩ := Nat.exists_eq_add_of_le outside
      obtain ⟨j, rfl⟩ := Nat.exists_eq_add_of_le (show s.length + 1 ≤ j by omega)
      refine .inr ⟨i, j, ⟨by omega, ?_, fun k from_i to_j cut => ?_, ?_, ?_⟩, rfl, rfl⟩
      · have within := h.within
        omega
      · exact h.uncut (s.length + 1 + k) (by omega) (by omega) ((behind k).mpr cut)
      · exact (starts i).mp (h.starts.resolve_left (by omega))
      · exact h.stops.imp (by omega) (behind j).mp
  · rintro (⟨filled, rfl, rfl⟩ | ⟨i, j, h, rfl, rfl⟩)
    · have positive : 0 < s.length := List.length_pos_of_ne_nil filled
      exact ⟨positive, by omega, fun k _ inside => front inside, .inl rfl, .inr first⟩
    · have filled := h.filled
      have within := h.within
      refine ⟨by omega, by omega, fun k from_i to_j cut => ?_, .inr ((starts i).mpr h.starts), ?_⟩
      · obtain ⟨k, rfl⟩ := Nat.exists_eq_add_of_le (show s.length + 1 ≤ k by omega)
        exact h.uncut k (by omega) (by omega) ((behind k).mp cut)
      · exact h.stops.imp (by omega) (behind j).mpr

/-- The stretches of a text are its first piece and those behind the first cut. -/
theorem areStretches_append {spans : List (Nat × Nat)} (h : AreStretches p t spans) :
    AreStretches p (s ++ c :: t)
      (firstStretch s ++ spans.map fun (i, j) => (s.length + 1 + i, s.length + 1 + j)) := by
  constructor
  · refine List.pairwise_append.mpr ⟨pairwise_firstStretch s, ?_, ?_⟩
    · refine List.pairwise_map.mpr (h.ordered.imp ?_)
      rintro ⟨i, j⟩ ⟨i', j'⟩ before
      dsimp only at before ⊢
      omega
    · rintro ⟨i, j⟩ first ⟨i', j'⟩ later
      obtain ⟨-, -, rfl⟩ := mem_firstStretch.mp first
      obtain ⟨span, -, same⟩ := List.mem_map.mp later
      cases same
      dsimp only
      omega
  · intro i j
    rw [List.mem_append, isStretch_append plain whole separates]
    simp [h.mem_iff]

theorem withoutCuts_append (t : Text) : withoutCuts p (s ++ c :: t) = s ++ withoutCuts p t := by
  have front : (s.zipIdx.filter fun x => ¬ CutAt p (s ++ c :: t) x.2) = s.zipIdx :=
    List.filter_eq_self.mpr fun x mem => by
      simpa using not_cutAt_front whole (List.snd_lt_of_mem_zipIdx mem) (c :: t)
  have behind : ((t.zipIdx (s.length + 1)).filter fun x => ¬ CutAt p (s ++ c :: t) x.2) =
      (t.zipIdx.filter fun x => ¬ CutAt p t x.2).map fun x => (x.1, s.length + 1 + x.2) := by
    rw [List.zipIdx_eq_map_add, List.filter_map]
    refine congrArg _ (List.filter_congr fun x _ => ?_)
    simpa using cutAt_behind plain whole separates t x.2
  have first := cutAt_first whole separates t
  rw [withoutCuts, List.zipIdx_append, List.zipIdx_cons, List.filter_append, front, Nat.zero_add,
    List.filter_cons_of_neg (by simpa using first), behind, List.map_append, List.zipIdx_map_fst,
    List.map_map]
  rfl

end Cut

theorem withoutCuts_of_clear (clear : Clear p {} t) : withoutCuts p t = t := by
  have no_cut := clear_iff_forall.mp clear
  rw [withoutCuts, List.filter_eq_self.mpr fun x _ => by simpa using no_cut x.2,
    List.zipIdx_map_fst]

theorem unbracketed_isBlank : Unbracketed isBlank :=
  fun _ => Depth.not_mem_of_isBlank

/-- A piece that is not empty is a word. -/
theorem topWords_piece (clear : Clear isBlank {} s) :
    topWords s = (firstStretch s).map fun (i, j) => s.extract i j := by
  unfold firstStretch
  split_ifs with empty
  · rw [empty]
    rfl
  · rw [topWords_of_clear empty clear]
    simp [List.extract]

/-- **The words of a text are its stretches between blanks outside brackets.** -/
theorem exists_stretches (t : Text) : ∃ spans, AreStretches isBlank t spans ∧
    topWords t = spans.map fun (i, j) => t.extract i j := by
  induction t using cut_induction isBlank with
  | last t clear => exact ⟨firstStretch t, areStretches_of_clear clear, topWords_piece clear⟩
  | more s b t whole blank ih =>
    obtain ⟨spans, stretches, words⟩ := ih
    refine ⟨_, areStretches_append unbracketed_isBlank whole blank stretches, ?_⟩
    rw [topWords_append blank whole.closed, topWords_piece whole.clear, words, List.map_append,
      List.map_map]
    refine congrArg₂ (· ++ ·) (List.map_congr_left fun (i, j) first => ?_)
      (List.map_congr_left fun (i, j) _ => ?_)
    · obtain ⟨-, rfl, rfl⟩ := mem_firstStretch.mp first
      simp [List.extract]
    · have front : s ++ b :: t = (s ++ [b]) ++ t := by simp
      have length : s.length + 1 = (s ++ [b]).length := by simp
      dsimp only [Function.comp_apply, List.extract]
      rw [front, length, List.drop_length_add_append, Nat.add_sub_add_left]

/-- **A text is its words and the blanks outside brackets.** -/
theorem flatten_topWords (t : Text) : (topWords t).flatten = withoutCuts isBlank t := by
  have piece {s : Text} (clear : Clear isBlank {} s) : (topWords s).flatten = s := by
    by_cases empty : s = []
    · rw [empty]
      rfl
    · rw [topWords_of_clear empty clear, List.flatten_singleton]
  induction t using cut_induction isBlank with
  | last t clear => rw [piece clear, withoutCuts_of_clear clear]
  | more s b t whole blank ih =>
    rw [topWords_append blank whole.closed, List.flatten_append, piece whole.clear, ih,
      withoutCuts_append unbracketed_isBlank whole blank]

/-! ## 5. Cutting and joining -/

/-- **Cutting outside brackets loses nothing and cuts nowhere else.**  For a separator that is no
bracket, the pieces join to the text and meet where it is cut; pieces that leave no bracket open and
are not cut themselves are found again when they are joined.  The words are the stretches between
blanks outside brackets, and together they are the text without these blanks. -/
theorem splitTop_lossless {sep : Char} (no_bracket : sep ∉ Depth.brackets) (t : Text) :
    join [sep] (splitTop sep t) = t ∧
    seams (splitTop sep t) = cutPlaces (· == sep) t ∧
    (∀ parts ≠ [], (∀ part ∈ parts, LeavesNoneOpen part ∧ ∀ i, ¬ CutAt (· == sep) part i) →
      splitTop sep (join [sep] parts) = parts) ∧
    (∃ spans, AreStretches isBlank t spans ∧ topWords t = spans.map fun (i, j) => t.extract i j) ∧
    (topWords t).flatten = withoutCuts isBlank t := by
  have plain : Unbracketed (· == sep) := by
    intro c same
    rwa [beq_iff_eq.mp same]
  refine ⟨join_splitTop sep t, seams_splitTopWhere plain t, fun parts some_part pieces => ?_,
    exists_stretches t, flatten_topWords t⟩
  obtain ⟨part, parts, rfl⟩ := List.exists_cons_of_ne_nil some_part
  have whole : ∀ piece ∈ part :: parts, Whole (· == sep) piece := fun piece mem =>
    ⟨leavesNoneOpen_iff.mp (pieces piece mem).1, clear_iff_forall.mpr (pieces piece mem).2⟩
  have found : splitTop sep (join [sep] (part :: parts)) = part :: parts.map ([] ++ ·) :=
    splitTop_join no_bracket (by simp) whole
  simpa using found

/-- Three fields: a comma in a template, a close without an open, and an open without a close. -/
def looseFields : Text :=
  "std::map<Größe, int> m, x > y, f(a b, c".toList

/-- Two fields that leave no bracket open. -/
def closedFields : List Text :=
  ["std::map<Größe, int> m".toList, " x > y".toList]

theorem splitTop_lossless_looseFields :
    ',' ∉ Depth.brackets ∧
      splitTop ',' looseFields = closedFields ++ [" f(a b, c".toList] ∧
      cutPlaces (· == ',') looseFields = [22, 29] ∧
      seams (splitTop ',' looseFields) = [22, 29] ∧
      (∀ part ∈ closedFields, LeavesNoneOpen part ∧ ∀ i, ¬ CutAt (· == ',') part i) ∧
      splitTop ',' (join [','] closedFields) = closedFields ∧
      (topWords looseFields).flatten = withoutCuts isBlank looseFields := by
  have no_bracket : ',' ∉ Depth.brackets := by decide
  have places : cutPlaces (· == ',') looseFields = [22, 29] := by decide
  have pieces : ∀ part ∈ closedFields, LeavesNoneOpen part ∧ ∀ i, ¬ CutAt (· == ',') part i := by
    have closed : ∀ part ∈ closedFields, LeavesNoneOpen part ∧ Clear (· == ',') {} part := by decide
    exact fun part mem => ⟨(closed part mem).1, clear_iff_forall.mp (closed part mem).2⟩
  obtain ⟨-, meet, found, -, words⟩ := splitTop_lossless no_bracket looseFields
  have joined := found closedFields (by decide) pieces
  exact ⟨no_bracket, by decide, places, meet.trans places, pieces, joined, words⟩

end AccessorCatalog.Text

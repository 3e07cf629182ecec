/-
# Replacing stretches by marks

The segmentation finds all scopes of a kind and then replaces their boundaries in one go: the edits
are sorted, and the text is copied from edit to edit.  This file shows that nothing goes wrong in
that, whatever the braces of the text look like:

* `splice_eq_marked`: edits that are those of the pieces of a text, in any order, put exactly the
  marks of the pieces in place;
* `Written.substitute`: so the substitution gives the text with its marks, and the stretches of the
  marks as their fragments.

That the scopes which the search finds are those of a pass is the subject of `Proofs/Search`.
-/
import AccessorCatalog.Proofs.Marking

namespace AccessorCatalog.Outline

/-! ## 1. Boundaries -/

/-- A stretch of a text that a mark takes the place of. -/
structure Boundary where
  mark : Mark
  start : Nat
  stop : Nat

namespace Boundary

/-- The edit that puts the mark in place. -/
def edit (b : Boundary) : Edit :=
  ⟨b.start, b.stop, b.mark.shown⟩

/-- What the mark stands for: an opening one for the trimmed stretch. -/
def fragment (t : Text) (b : Boundary) : Mark × Text :=
  (b.mark, if b.mark.isOpening then Text.trim (slice b.start b.stop t) else slice b.start b.stop t)

end Boundary

/-- The two boundaries of the construct with a number. -/
def Construct.boundaries (c : Construct) (index : Nat) : List Boundary :=
  [⟨c.openingMark index, c.start, c.openAt + 1⟩, ⟨(c.openingMark index).partner, c.closeAt, c.stop⟩]

/-- The boundaries of constructs that are numbered from `next`. -/
def boundaries (next : Nat) (cs : List Construct) : List Boundary :=
  (cs.zipIdx next).flatMap fun (c, index) => c.boundaries index

theorem edits_eq (cs : List Construct) :
    (cs.zipIdx.flatMap fun (c, index) => c.edits index) = (boundaries 0 cs).map Boundary.edit := by
  rw [boundaries, List.map_flatMap]
  rfl

theorem fragments_eq (cs : List Construct) (t : Text) :
    (cs.zipIdx.flatMap fun (c, index) => c.fragments index t) =
      (boundaries 0 cs).map (Boundary.fragment t) := by
  rw [boundaries, List.map_flatMap]
  rfl

/-- What is replaced when the boundaries come in order. -/
theorem substitute_of_sorted (s : Segmented) {cs : List Construct}
    (sorted : ((boundaries 0 cs).map Boundary.edit).Pairwise fun a b => a.precedes b = true) :
    s.substitute cs = ⟨spliceFrom 0 s.text ((boundaries 0 cs).map Boundary.edit),
      s.fragments ++ (boundaries 0 cs).map (Boundary.fragment s.text)⟩ := by
  unfold Segmented.substitute splice
  rw [edits_eq, fragments_eq, List.mergeSort_of_pairwise sorted]

/-! ## 2. The boundaries of pieces -/

section
variable (pass : Pass)

/-- The text that a pass had before it. -/
def unmarked (qs : List Piece) : Text :=
  qs.flatMap fun
    | .char c => [c]
    | .mark m stretch => if pass.owns m.kind.scope then stretch else m.shown

/-- Where the marks of the pass are placed in that text. -/
def placed (place : Nat) : List Piece → List Boundary
  | [] => []
  | .char _ :: qs => placed (place + 1) qs
  | .mark m stretch :: qs =>
    if pass.owns m.kind.scope then
      ⟨m, place, place + stretch.length⟩ :: placed (place + stretch.length) qs
    else placed (place + m.shown.length) qs

end

variable {pass : Pass}

theorem unmarked_char (c : Char) (qs : List Piece) :
    unmarked pass (.char c :: qs) = c :: unmarked pass qs := rfl

theorem unmarked_own {m : Mark} (own : pass.owns m.kind.scope = true) (stretch : Text)
    (qs : List Piece) : unmarked pass (.mark m stretch :: qs) = stretch ++ unmarked pass qs := by
  simp [unmarked, own]

theorem unmarked_other {m : Mark} (other : pass.owns m.kind.scope = false) (stretch : Text)
    (qs : List Piece) : unmarked pass (.mark m stretch :: qs) = m.shown ++ unmarked pass qs := by
  simp [unmarked, other]

/-- Boundaries lie in the order of the text. -/
theorem le_start_of_mem_placed {place : Nat} {qs : List Piece} {b : Boundary}
    (h : b ∈ placed pass place qs) : place ≤ b.start ∧ b.start ≤ b.stop := by
  induction qs generalizing place with
  | nil => cases h
  | cons q qs ih =>
    cases q with
    | char c =>
      have := ih h
      omega
    | mark m stretch =>
      unfold placed at h
      split at h
      · rcases List.mem_cons.mp h with rfl | h
        · simp
        · have := ih h
          omega
      · have := ih h
        omega

/-- Text in front of the first edit is copied. -/
theorem spliceFrom_append (place : Nat) (s t : Text) {edits : List Edit}
    (behind : ∀ e ∈ edits, place + s.length ≤ e.start ∧ e.start ≤ e.stop) :
    spliceFrom place (s ++ t) edits = s ++ spliceFrom (place + s.length) t edits := by
  cases edits with
  | nil => rfl
  | cons e edits =>
    obtain ⟨start, stop⟩ := behind e List.mem_cons_self
    have now : ¬ e.start < place := by omega
    have later : ¬ e.start < place + s.length := by omega
    have cut_start : e.start - place = s.length + (e.start - (place + s.length)) := by omega
    have cut_stop : e.stop - place = s.length + (e.stop - (place + s.length)) := by omega
    simp only [spliceFrom, now, later, if_false]
    rw [cut_start, cut_stop, List.take_length_add_append, List.drop_length_add_append,
      List.append_assoc, List.append_assoc, List.append_assoc]

theorem behind_edits {place : Nat} {qs : List Piece} :
    ∀ e ∈ (placed pass place qs).map Boundary.edit, place ≤ e.start ∧ e.start ≤ e.stop := by
  intro e he
  obtain ⟨b, mem, rfl⟩ := List.mem_map.mp he
  exact le_start_of_mem_placed mem

/-- **Edits in the order of the text put the marks in place.** -/
theorem spliceFrom_placed (place : Nat) (qs : List Piece) :
    spliceFrom place (unmarked pass qs) ((placed pass place qs).map Boundary.edit) = marked qs := by
  induction qs generalizing place with
  | nil => rfl
  | cons q qs ih =>
    cases q with
    | char c =>
      have behind := @behind_edits pass (place + 1) qs
      have copy := spliceFrom_append place [c] (unmarked pass qs) behind
      exact copy.trans (congrArg (c :: ·) (ih (place + 1)))
    | mark m stretch =>
      cases own : pass.owns m.kind.scope with
      | true =>
        rw [unmarked_own own, marked_mark, ← ih (place + stretch.length)]
        simp [placed, own, spliceFrom, Boundary.edit]
      | false =>
        rw [unmarked_other own, marked_mark, ← ih (place + m.shown.length)]
        have skip : placed pass place (.mark m stretch :: qs) =
            placed pass (place + m.shown.length) qs := by
          simp [placed, own]
        rw [skip]
        exact spliceFrom_append place m.shown (unmarked pass qs) behind_edits

/-! ## 3. The order of the edits -/

/-- Every mark of the pass stands for some text. -/
def Filled (pass : Pass) (qs : List Piece) : Prop :=
  ∀ m stretch, Piece.mark m stretch ∈ qs → pass.owns m.kind.scope = true → stretch ≠ []

theorem Filled.tail {q : Piece} {qs : List Piece} (h : Filled pass (q :: qs)) : Filled pass qs :=
  fun m stretch mem => h m stretch (List.mem_cons_of_mem _ mem)

theorem Marking.filled {next : Nat} {before : Option Char} {opened : List (Option Mark)}
    {ps qs : List Piece} (h : Marking pass next before opened ps qs) : Filled pass qs := by
  have cons {q : Piece} {qs : List Piece} (rest : Filled pass qs)
      (first : ∀ m stretch, q = .mark m stretch → pass.owns m.kind.scope = true → stretch ≠ []) :
      Filled pass (q :: qs) := by
    intro m stretch mem own
    rcases List.mem_cons.mp mem with h | mem
    · exact first m stretch h.symm own
    · exact rest m stretch mem own
  induction h with
  | done _ => exact fun m stretch mem => absurd mem List.not_mem_nil
  | earlier other _ ih =>
    refine cons ih fun m stretch h own => ?_
    cases h
    simp [other] at own
  | opening _ _ _ _ ih =>
    refine cons ih fun m stretch h _ => ?_
    cases h
    simp
  | closing ends _ ih =>
    refine cons ih fun m stretch h _ => ?_
    cases h
    rcases ends with rfl | ⟨-, rfl⟩ <;> simp
  | openBrace _ ih => exact cons ih fun m stretch h => by cases h
  | closeBrace _ _ ih => exact cons ih fun m stretch h => by cases h
  | other _ _ _ ih => exact cons ih fun m stretch h => by cases h

theorem pairwise_placed {place : Nat} {qs : List Piece} (filled : Filled pass qs) :
    (placed pass place qs).Pairwise fun a b => a.start < b.start := by
  induction qs generalizing place with
  | nil => exact .nil
  | cons q qs ih =>
    cases q with
    | char c => exact ih filled.tail
    | mark m stretch =>
      unfold placed
      split
      · next own =>
        refine List.pairwise_cons.mpr ⟨fun b mem => ?_, ih filled.tail⟩
        have := List.length_pos_iff.mpr (filled m stretch List.mem_cons_self own)
        have := le_start_of_mem_placed mem
        dsimp only
        omega
      · exact ih filled.tail

theorem Edit.precedes_iff {a b : Edit} :
    a.precedes b = true ↔ a.start < b.start ∨ (a.start = b.start ∧ a.stop ≤ b.stop) := by
  simp [Edit.precedes]

/-- Where the starts increase, an edit is known by its start. -/
theorem eq_of_start {edits : List Edit} (increasing : edits.Pairwise fun a b => a.start < b.start)
    {a b : Edit} (ha : a ∈ edits) (hb : b ∈ edits) (same : a.start = b.start) : a = b := by
  induction increasing with
  | nil => cases ha
  | cons first _ ih =>
    rcases List.mem_cons.mp ha with rfl | a_later
    · rcases List.mem_cons.mp hb with rfl | b_later
      · rfl
      · exact absurd (first b b_later) (by omega)
    · rcases List.mem_cons.mp hb with rfl | b_later
      · exact absurd (first a a_later) (by omega)
      · exact ih a_later b_later

/-- Sorting finds the order of the text again. -/
theorem mergeSort_eq_of_perm {edits sorted : List Edit} (perm : edits.Perm sorted)
    (increasing : sorted.Pairwise fun a b => a.start < b.start) :
    edits.mergeSort Edit.precedes = sorted := by
  have trans (a b c : Edit) (ab : a.precedes b = true) (bc : b.precedes c = true) :
      a.precedes c = true := by
    rw [Edit.precedes_iff] at *
    omega
  have total (a b : Edit) : (a.precedes b || b.precedes a) = true := by
    rw [Bool.or_eq_true, Edit.precedes_iff, Edit.precedes_iff]
    omega
  have same : (edits.mergeSort Edit.precedes).Perm sorted := (List.mergeSort_perm _ _).trans perm
  -- no two edits start at one place, so the order leaves no choice
  refine List.Perm.eq_of_pairwise ?_ (List.pairwise_mergeSort trans total edits) ?_ same
  · intro a b ha hb ab ba
    rw [Edit.precedes_iff] at ab ba
    exact eq_of_start increasing (same.subset ha) hb (by omega)
  · exact increasing.imp fun h => Edit.precedes_iff.mpr (.inl h)

/-- **Edits in any order put the marks in place.** -/
theorem splice_eq_marked {edits : List Edit} {qs : List Piece} (filled : Filled pass qs)
    (perm : edits.Perm ((placed pass 0 qs).map Boundary.edit)) :
    splice edits (unmarked pass qs) = marked qs := by
  have increasing : ((placed pass 0 qs).map Boundary.edit).Pairwise fun a b => a.start < b.start :=
    List.pairwise_map.mpr (pairwise_placed filled)
  rw [splice, mergeSort_eq_of_perm perm increasing, spliceFrom_placed]

/-! ## 4. The substitution -/

theorem drop_behind {full s t : Text} {place : Nat} (here : full.drop place = s ++ t) :
    full.drop (place + s.length) = t := by
  rw [← List.drop_drop, here, List.drop_left]

theorem fragments_placed {place : Nat} {qs : List Piece} {t : Text}
    (here : t.drop place = unmarked pass qs) :
    (placed pass place qs).map (Boundary.fragment t) = pass.fragmentsIn (fragmentsOf qs) := by
  induction qs generalizing place with
  | nil => rfl
  | cons q qs ih =>
    cases q with
    | char c => exact ih (drop_behind (s := [c]) here)
    | mark m stretch =>
      rw [fragmentsOf_mark, Pass.fragmentsIn, placed, List.filter_cons]
      cases own : pass.owns m.kind.scope with
      | true =>
        rw [unmarked_own own] at here
        have cut : slice place (place + stretch.length) t = stretch := by
          rw [slice, here, Nat.add_sub_cancel_left, List.take_left]
        rw [if_pos rfl, if_pos rfl, List.map_cons, ih (drop_behind here), Boundary.fragment, cut]
        rfl
      | false =>
        rw [unmarked_other own] at here
        rw [if_neg (by simp), if_neg (by simp), ih (drop_behind here)]
        rfl

/-- A pass finds the text that was before it. -/
theorem Marking.unmarked {next : Nat} {before : Option Char} {opened : List (Option Mark)}
    {ps qs : List Piece} (h : Marking pass next before opened ps qs)
    (own : ∀ m, some m ∈ opened → pass.owns m.kind.scope = true) :
    unmarked pass qs = marked ps := by
  induction h with
  | done _ => rfl
  | earlier other _ ih => rw [unmarked_other other, ih own, marked_mark]
  | opening own_kind _ _ _ ih =>
    have rest := ih fun m mem => by
      rcases List.mem_cons.mp mem with h | mem
      · cases h
        exact own_kind
      · exact own m mem
    rw [unmarked_own own_kind, rest, marked_append, marked_chars]
  | closing _ _ ih =>
    have rest := ih fun m mem => own m (List.mem_cons_of_mem _ mem)
    have own_mark : pass.owns _ = true := own _ List.mem_cons_self
    rw [unmarked_own (Mark.scope_partner _ ▸ own_mark), rest, marked_append, marked_chars]
  | openBrace _ ih =>
    rw [unmarked_char, ih fun m mem => own m (by simpa using mem), marked_char]
  | closeBrace _ _ ih =>
    rw [unmarked_char, ih fun m mem => own m (List.mem_of_mem_tail mem), marked_char]
  | other _ _ _ ih => rw [unmarked_char, ih own, marked_char]

/-- A header with marks is written from pieces. -/
structure Written (s : Segmented) (ps : List Piece) : Prop where
  text : s.text = marked ps
  fragments : s.fragments.Perm (fragmentsOf ps)

/-- **The substitution is the pass**: it puts the marks in place and keeps their stretches. -/
theorem Written.substitute {s : Segmented} {cs : List Construct} {ps qs : List Piece}
    {before : Option Char} (written : Written s ps) (h : Marking pass 0 before [] ps qs)
    (perm : (placed pass 0 qs).Perm (boundaries 0 cs)) : Written (s.substitute cs) qs where
  text := by
    have before_pass : Outline.unmarked pass qs = s.text :=
      (h.unmarked (by simp)).trans written.text.symm
    show splice _ s.text = _
    rw [edits_eq, ← before_pass]
    exact splice_eq_marked h.filled (perm.symm.map _)
  fragments := by
    have here : s.text.drop 0 = Outline.unmarked pass qs :=
      written.text.trans (h.unmarked (by simp)).symm
    have others : s.fragments.Perm (pass.othersIn (fragmentsOf qs)) := by
      rw [h.othersIn (by simp)]
      exact written.fragments
    have own : ((boundaries 0 cs).map (Boundary.fragment s.text)).Perm
        (pass.fragmentsIn (fragmentsOf qs)) := by
      rw [← fragments_placed here]
      exact perm.symm.map _
    show (s.fragments ++ _).Perm _
    rw [fragments_eq]
    exact ((others.append own).trans List.perm_append_comm).trans (List.filter_append_perm _ _)

end AccessorCatalog.Outline

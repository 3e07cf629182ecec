/-
# One pass of the segmentation

`Marking` describes a pass over a text in pieces by what it does from left to right, with the braces
that are open on a stack: a preamble becomes an opening mark, the brace that closes it becomes its
partner, and everything else stays.  An open brace is written on the stack as its mark, or as no
mark if it is an ordinary one; at the end only ordinary ones may be open.

The pass itself works otherwise: it looks for the close of each preamble anew and replaces all
stretches at once (`Proofs/Substitution`).  What is proved here by one induction along the text:

* `Marking.original`: nothing is lost;
* `Marking.tidy`, `Marking.nests`: tidy pieces that nest stay so;
* `Marking.indices`: the opening marks are numbered in the order of the text;
* `Marking.othersIn`: the marks of other passes stay as they are, and so do their fragments;
* `Marking.depthAfter`: balanced braces stay balanced, and `Marking.count_open` counts them.
-/
import AccessorCatalog.Proofs.Pieces
import AccessorCatalog.Proofs.Preambles

namespace AccessorCatalog.Outline

open Source (atLineStart)

/-! ## 1. The relation -/

/-- The ends of a scope: its brace, or that and a semicolon where the pass takes one. -/
def Pass.Ends (pass : Pass) (stretch : Text) : Prop :=
  stretch = ['\x7d'] ∨ (pass.takesSemicolon = true ∧ stretch = ['\x7d', ';'])

/-- `Marking pass next before opened ps qs`: behind the character `before`, with the braces `opened`
open, the pass makes `qs` out of `ps` and numbers its scopes from `next`. -/
inductive Marking (pass : Pass) :
    Nat → Option Char → List (Option Mark) → List Piece → List Piece → Prop
  | done {next : Nat} {before : Option Char} {opened : List (Option Mark)}
      (closed : ∀ o ∈ opened, o = none) : Marking pass next before opened [] []
  | earlier {next : Nat} {before : Option Char} {opened : List (Option Mark)} {m : Mark}
      {stretch : Text} {ps qs : List Piece} (other : pass.owns m.kind.scope = false)
      (rest : Marking pass next (some '\n') opened ps qs) :
      Marking pass next before opened (.mark m stretch :: ps) (.mark m stretch :: qs)
  | opening {next : Nat} {before : Option Char} {opened : List (Option Mark)} {kind : ScopeKind}
      {body : Text} {ps qs : List Piece} (own : pass.owns kind = true)
      (start : atLineStart before = true) (plain : braces body = [])
      (rest : Marking pass (next + 1) (some '\x7b')
        (some ⟨⟨kind, .opening⟩, next⟩ :: opened) ps qs) :
      Marking pass next before opened (chars (body ++ ['\x7b']) ++ ps)
        (.mark ⟨⟨kind, .opening⟩, next⟩ (body ++ ['\x7b']) :: qs)
  | closing {next : Nat} {before : Option Char} {opened : List (Option Mark)} {m : Mark}
      {stretch : Text} {ps qs : List Piece} (ends : pass.Ends stretch)
      (rest : Marking pass next stretch.getLast? opened ps qs) :
      Marking pass next before (some m :: opened) (chars stretch ++ ps)
        (.mark m.partner stretch :: qs)
  | openBrace {next : Nat} {before : Option Char} {opened : List (Option Mark)} {ps qs : List Piece}
      (rest : Marking pass next (some '\x7b') (none :: opened) ps qs) :
      Marking pass next before opened (.char '\x7b' :: ps) (.char '\x7b' :: qs)
  | closeBrace {next : Nat} {before : Option Char} {opened : List (Option Mark)}
      {ps qs : List Piece} (ordinary : ∀ m, opened.head? ≠ some (some m))
      (rest : Marking pass next (some '\x7d') opened.tail ps qs) :
      Marking pass next before opened (.char '\x7d' :: ps) (.char '\x7d' :: qs)
  | other {next : Nat} {before : Option Char} {opened : List (Option Mark)} {c : Char}
      {ps qs : List Piece} (left : c ≠ '\x7b') (right : c ≠ '\x7d')
      (rest : Marking pass next (some c) opened ps qs) :
      Marking pass next before opened (.char c :: ps) (.char c :: qs)

namespace Marking

variable {pass : Pass} {next : Nat} {before : Option Char} {opened : List (Option Mark)}
  {ps qs : List Piece}

/-! ## 2. Nothing is lost -/

/-- **The pieces stand for the same text before and after a pass.** -/
theorem original (h : Marking pass next before opened ps qs) : original qs = original ps := by
  induction h with
  | done _ => rfl
  | earlier _ _ ih => simp [ih]
  | opening _ _ _ _ ih => simp [ih]
  | closing _ _ ih => simp [ih]
  | openBrace _ ih => simp [ih]
  | closeBrace _ _ ih => simp [ih]
  | other _ _ _ ih => simp [ih]

end Marking

/-! ## 3. Tidiness and nesting -/

/-- No line starts behind the end of a scope. -/
theorem Pass.Ends.not_atLineStart {pass : Pass} {stretch : Text} (ends : pass.Ends stretch) :
    atLineStart stretch.getLast? = false := by
  rcases ends with rfl | ⟨-, rfl⟩ <;> rfl

theorem Tidy.behind_chars {t : Text} {before : Option Char} {ps : List Piece}
    (tidy : Tidy before (chars t ++ ps)) : Tidy (Text.lastOf before t) ps := by
  induction t generalizing before with
  | nil => exact tidy
  | cons c t ih =>
    rw [Text.lastOf_cons]
    exact ih tidy.2

namespace Marking

variable {pass : Pass} {next : Nat} {before : Option Char} {opened : List (Option Mark)}
  {ps qs : List Piece}

/-- **A pass keeps pieces tidy.**  Where a line starts before the pass, one starts behind it:
nothing that becomes a mark ends with a line break. -/
theorem tidy (h : Marking pass next before opened ps qs) (tidy : Tidy before ps)
    {before' : Option Char} (starts : atLineStart before = true → atLineStart before' = true) :
    Tidy before' qs := by
  induction h generalizing before' with
  | done _ => trivial
  | earlier _ _ ih => exact ⟨fun opening => starts (tidy.1 opening), ih tidy.2 id⟩
  | opening _ start _ _ ih =>
    have rest := tidy.behind_chars
    simp only [Text.lastOf, List.getLast?_concat] at rest
    exact ⟨fun _ => starts start, ih rest fun h => absurd h (by decide)⟩
  | @closing _ before _ _ stretch _ _ ends _ ih =>
    have last : Text.lastOf before stretch = stretch.getLast? := by
      rcases ends with rfl | ⟨-, rfl⟩ <;> rfl
    have rest := tidy.behind_chars
    rw [last] at rest
    exact ⟨fun h => absurd h (by simp), ih rest fun h => by simp [ends.not_atLineStart] at h⟩
  | openBrace _ ih => exact ⟨tidy.1, ih tidy.2 id⟩
  | closeBrace _ _ ih => exact ⟨tidy.1, ih tidy.2 id⟩
  | other _ _ _ ih => exact ⟨tidy.1, ih tidy.2 id⟩

end Marking

/-- What is open behind a pass: a mark of before the pass is open as it was, and each brace that was
ordinary is open as the pass has it. -/
inductive Fills : List (Option Mark) → List (Option Mark) → List (Option Mark) → Prop
  | nil : Fills [] [] []
  | mark {m : Mark} {old own new : List (Option Mark)} (rest : Fills old own new) :
      Fills (some m :: old) own (some m :: new)
  | brace {o : Option Mark} {old own new : List (Option Mark)} (rest : Fills old own new) :
      Fills (none :: old) (o :: own) (o :: new)

theorem Fills.eq_none {old own new : List (Option Mark)} (h : Fills old own new)
    (old_none : ∀ o ∈ old, o = none) (own_none : ∀ o ∈ own, o = none) : ∀ o ∈ new, o = none := by
  induction h with
  | nil => simp
  | mark _ _ => exact absurd (old_none _ List.mem_cons_self) (by simp)
  | brace _ ih =>
    have rest := ih (fun o ho => old_none o (List.mem_cons_of_mem _ ho))
      fun o ho => own_none o (List.mem_cons_of_mem _ ho)
    intro o ho
    rcases List.mem_cons.mp ho with rfl | ho
    · exact own_none _ List.mem_cons_self
    · exact rest o ho

/-- The braces that end a scope close one brace. -/
theorem Pass.Ends.nests {pass : Pass} {stretch : Text} (ends : pass.Ends stretch)
    {opened : List (Option Mark)} {ps : List Piece} :
    Nests opened (chars stretch ++ ps) ↔
      (∀ m, opened.head? ≠ some (some m)) ∧ Nests opened.tail ps := by
  rcases ends with rfl | ⟨-, rfl⟩
  · exact nests_close
  · exact nests_close.trans (and_congr_right fun _ => nests_other (by decide) (by decide))

namespace Marking

variable {pass : Pass} {next : Nat} {before : Option Char} {opened : List (Option Mark)}
  {ps qs : List Piece}

/-- **A pass keeps marks and braces nested.**  The brace that is closed is the innermost one, so its
partner is the innermost mark. -/
theorem nests (h : Marking pass next before opened ps qs) {old new : List (Option Mark)}
    (fills : Fills old opened new) (nests : Nests old ps) : Nests new qs := by
  induction h generalizing old new with
  | done closed => exact fills.eq_none nests closed
  | @earlier _ _ _ m stretch _ _ _ _ ih =>
    cases opening : m.isOpening with
    | true =>
      rw [nests_opening opening] at nests ⊢
      exact ih fills.mark nests
    | false =>
      rw [nests_closing opening] at nests ⊢
      obtain ⟨inner, outer, rfl, pair, nests⟩ := nests
      cases fills with
      | mark rest => exact ⟨inner, _, rfl, pair, ih rest nests⟩
  | opening _ _ plain _ ih =>
    rw [chars_append, List.append_assoc, nests_chars plain] at nests
    exact (nests_opening rfl).mpr (ih fills.brace (nests_open.mp nests))
  | closing ends _ ih =>
    obtain ⟨ordinary, nests⟩ := ends.nests.mp nests
    cases fills with
    -- the brace cannot be the end of an earlier mark, whose own brace is gone from the text
    | mark rest => exact absurd rfl (ordinary _)
    | brace rest => exact (nests_closing (by simp)).mpr ⟨_, _, rfl, rfl, ih rest nests⟩
  | openBrace _ ih => exact nests_open.mpr (ih fills.brace (nests_open.mp nests))
  | closeBrace ordinary _ ih =>
    obtain ⟨no_mark, nests⟩ := nests_close.mp nests
    refine nests_close.mpr ?_
    cases fills with
    | nil => exact ⟨by simp, ih .nil nests⟩
    | mark rest => exact absurd rfl (no_mark _)
    | brace rest => exact ⟨ordinary, ih rest nests⟩
  | other left right _ ih =>
    exact (nests_other left right).mpr (ih fills ((nests_other left right).mp nests))

end Marking

/-! ## 4. The marks of a pass -/

/-- Those of the marks that open a scope of a kind that the pass looks for. -/
def Pass.openingsIn (pass : Pass) (ms : List Mark) : List Mark :=
  ms.filter fun m => m.isOpening && pass.owns m.kind.scope

/-- Those of the fragments that come from a pass. -/
def Pass.fragmentsIn (pass : Pass) (fragments : List (Mark × Text)) : List (Mark × Text) :=
  fragments.filter fun f => pass.owns f.1.kind.scope

/-- Those of the fragments that come from other passes. -/
def Pass.othersIn (pass : Pass) (fragments : List (Mark × Text)) : List (Mark × Text) :=
  fragments.filter fun f => !pass.owns f.1.kind.scope

theorem count_open_of_braces_nil {t : Text} (h : braces t = []) : t.count '\x7b' = 0 := by
  rw [List.count_eq_zero]
  intro mem
  have : '\x7b' ∈ braces t := List.mem_filter.mpr ⟨mem, rfl⟩
  rw [h] at this
  cases this

theorem Mark.braces_shown (m : Mark) : braces m.shown = [] := by
  unfold Mark.shown
  split
  · rw [braces_append, m.braces_render]
    rfl
  · rw [List.cons_append, braces_cons_other (by decide) (by decide), braces_append, m.braces_render]
    rfl

theorem Pass.Ends.braces {pass : Pass} {stretch : Text} (ends : pass.Ends stretch) :
    braces stretch = ['\x7d'] := by
  rcases ends with rfl | ⟨-, rfl⟩ <;> rfl

theorem Pass.Ends.count_open {pass : Pass} {stretch : Text} (ends : pass.Ends stretch) :
    stretch.count '\x7b' = 0 := by
  rcases ends with rfl | ⟨-, rfl⟩ <;> rfl

namespace Marking

variable {pass : Pass} {next : Nat} {before : Option Char} {opened : List (Option Mark)}
  {ps qs : List Piece}

/-- **The opening marks are numbered in the order of the text.** -/
theorem indices (h : Marking pass next before opened ps qs) :
    (pass.openingsIn (marksIn qs)).map Mark.index =
      List.range' next (pass.openingsIn (marksIn qs)).length := by
  induction h with
  | done _ => rfl
  | earlier other _ ih => simpa [Pass.openingsIn, other] using ih
  | opening own _ _ _ ih =>
    simpa [Pass.openingsIn, own, List.range'_succ] using ih
  | closing _ _ ih => simpa [Pass.openingsIn] using ih
  | openBrace _ ih => exact ih
  | closeBrace _ _ ih => exact ih
  | other _ _ _ ih => exact ih

/-- Every opening mark takes one opening brace out of the text. -/
theorem count_open (h : Marking pass next before opened ps qs) :
    (pass.openingsIn (marksIn qs)).length + (marked qs).count '\x7b' =
      (marked ps).count '\x7b' := by
  have shown (m : Mark) : m.shown.count '\x7b' = 0 := count_open_of_braces_nil m.braces_shown
  induction h with
  | done _ => rfl
  | earlier other _ ih => simpa [Pass.openingsIn, other, shown] using ih
  | opening own _ plain _ ih =>
    have none_in_body := count_open_of_braces_nil plain
    simp only [marked_append, marked_chars, marked_mark, marksIn_mark, Pass.openingsIn,
      Mark.isOpening_opening, own, Bool.and_self, List.filter_cons_of_pos, List.length_cons,
      List.count_append, none_in_body, shown, List.count_singleton_self] at ih ⊢
    omega
  | closing ends _ ih =>
    simpa [Pass.openingsIn, shown, ends.count_open] using ih
  | openBrace _ ih =>
    simp only [marksIn_char, marked_char, List.count_cons_self]
    omega
  | closeBrace _ _ ih => simpa using ih
  | other left _ _ ih => simpa [List.count_cons_of_ne left] using ih

/-- A pass adds no braces. -/
theorem length_braces_le (h : Marking pass next before opened ps qs) :
    (braces (marked qs)).length ≤ (braces (marked ps)).length := by
  induction h with
  | done _ => exact Nat.le_refl 0
  | earlier _ _ ih => simpa [Mark.braces_shown] using ih
  | opening _ _ plain _ ih => simpa [Mark.braces_shown, plain] using Nat.le_succ_of_le ih
  | closing ends _ ih => simpa [Mark.braces_shown, ends.braces] using Nat.le_succ_of_le ih
  | openBrace _ ih => simpa using ih
  | closeBrace _ _ ih => simpa using ih
  | other left right _ ih => simpa [braces_cons_other left right] using ih

/-- **The marks of other passes stay as they are**, and so do their fragments. -/
theorem othersIn (h : Marking pass next before opened ps qs)
    (own : ∀ m, some m ∈ opened → pass.owns m.kind.scope = true) :
    pass.othersIn (fragmentsOf qs) = fragmentsOf ps := by
  induction h with
  | done _ => rfl
  | earlier other _ ih => simpa [Pass.othersIn, other] using ih own
  | opening own_kind _ _ _ ih =>
    have rest := ih fun m mem => by
      rcases List.mem_cons.mp mem with h | mem
      · cases h
        exact own_kind
      · exact own m mem
    simpa [Pass.othersIn, own_kind] using rest
  | closing _ _ ih =>
    have rest := ih fun m mem => own m (List.mem_cons_of_mem _ mem)
    simpa [Pass.othersIn, own _ List.mem_cons_self] using rest
  | openBrace _ ih => exact ih fun m mem => own m (by simpa using mem)
  | closeBrace _ _ ih => exact ih fun m mem => own m (List.mem_of_mem_tail mem)
  | other _ _ _ ih => exact ih own

/-- **Balanced braces stay balanced**: what becomes a mark is a brace and the one that closes it. -/
theorem depthAfter (h : Marking pass next before opened ps qs)
    (balanced : depthAfter? opened.length (marked ps) = some 0) :
    depthAfter? (opened.count none) (marked qs) = some 0 := by
  induction h with
  | done closed =>
    rw [marked_nil, depthAfter_nil, Option.some.injEq, List.length_eq_zero_iff] at balanced
    rw [balanced]
    rfl
  | @earlier _ _ _ m _ _ _ _ _ ih =>
    rw [marked_mark, depthAfter_append_plain m.braces_shown] at balanced ⊢
    exact ih balanced
  | opening _ _ plain _ ih =>
    rw [marked_append, marked_chars, List.append_assoc, depthAfter_append_plain plain] at balanced
    rw [marked_mark, depthAfter_append_plain (Mark.braces_shown _)]
    exact ih balanced
  | closing ends _ ih =>
    rw [marked_append, marked_chars, ← depthAfter_braces, braces_append, ends.braces,
      List.singleton_append, List.length_cons, depthAfter_close_succ, depthAfter_braces] at balanced
    rw [marked_mark, depthAfter_append_plain (Mark.braces_shown _)]
    exact ih balanced
  | openBrace _ ih =>
    have rest := ih balanced
    rwa [List.count_cons_self] at rest
  | @closeBrace _ _ opened _ _ ordinary _ ih =>
    cases opened with
    | nil => simp at balanced
    | cons o outer =>
      cases o with
      | some m => exact absurd rfl (ordinary m)
      | none =>
        rw [List.count_cons_self, marked_char, depthAfter_close_succ]
        exact ih balanced
  | other left right _ ih =>
    rw [marked_char, depthAfter_other left right] at balanced ⊢
    exact ih balanced

end Marking

end AccessorCatalog.Outline

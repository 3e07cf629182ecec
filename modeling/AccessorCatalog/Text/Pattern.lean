/-
# Patterns

A pattern looks at one place of a text and says how many characters it takes there. `replaceMatches`
walks over a text from the left; where the pattern takes something, the image of what it took is
written instead, and the walk goes on behind it, so that matches never overlap.

* `replaceMatches_eq_self_of_none`: a pattern that takes nothing at any place of a text leaves it
  alone;
* `replaceMatches_cons_none`, `replaceMatches_cons_some`: what one step does.
-/
import AccessorCatalog.Text.Basic

namespace AccessorCatalog.Text

/-- A pattern: from the character before a place and the text from there on, the number of
characters taken, at least one. -/
abbrev Pattern := Option Char → Text → Option Nat

/-- The last character of a stretch, or the one before it if the stretch is empty. -/
def lastOf (before : Option Char) (taken : Text) : Option Char :=
  taken.getLast?.or before

theorem lastOf_append (before : Option Char) (s t : Text) :
    lastOf before (s ++ t) = lastOf (lastOf before s) t := by
  rw [lastOf, lastOf, lastOf, List.getLast?_append, Option.or_assoc]

theorem lastOf_cons (before : Option Char) (c : Char) (t : Text) :
    lastOf before (c :: t) = lastOf (some c) t :=
  lastOf_append before [c] t

/-- Replaces every stretch that the pattern takes by its image. -/
def replaceMatchesFrom (pattern : Pattern) (image : Text → Text) (before : Option Char) :
    Text → Text
  | [] => []
  | c :: t =>
    match pattern before (c :: t) with
    | some n =>
      let taken := c :: t.take (n - 1)
      image taken ++ replaceMatchesFrom pattern image (lastOf before taken) (t.drop (n - 1))
    | none => c :: replaceMatchesFrom pattern image (some c) t
termination_by t => t.length
decreasing_by all_goals simp; try omega

/-- Replaces every stretch of the whole text that the pattern takes by its image. -/
def replaceMatches (pattern : Pattern) (image : Text → Text) (t : Text) : Text :=
  replaceMatchesFrom pattern image none t

@[simp] theorem replaceMatchesFrom_nil (pattern : Pattern) (image : Text → Text)
    (before : Option Char) : replaceMatchesFrom pattern image before [] = [] := by
  rw [replaceMatchesFrom]

theorem replaceMatches_cons_none {pattern : Pattern} {image : Text → Text} {before : Option Char}
    {c : Char} {t : Text} (h : pattern before (c :: t) = none) :
    replaceMatchesFrom pattern image before (c :: t) =
      c :: replaceMatchesFrom pattern image (some c) t := by
  rw [replaceMatchesFrom, h]

theorem replaceMatches_cons_some {pattern : Pattern} {image : Text → Text} {before : Option Char}
    {c : Char} {t : Text} {n : Nat} (h : pattern before (c :: t) = some n) :
    replaceMatchesFrom pattern image before (c :: t) =
      image (c :: t.take (n - 1)) ++
        replaceMatchesFrom pattern image (lastOf before (c :: t.take (n - 1)))
          (t.drop (n - 1)) := by
  rw [replaceMatchesFrom, h]

/-- A pattern that takes nothing at any place of a text leaves the text alone. -/
theorem replaceMatches_eq_self_of_none {pattern : Pattern} {image : Text → Text} {t : Text}
    (before : Option Char)
    (nothing : ∀ s c u, t = s ++ c :: u → pattern (lastOf before s) (c :: u) = none) :
    replaceMatchesFrom pattern image before t = t := by
  induction t generalizing before with
  | nil => rw [replaceMatchesFrom_nil]
  | cons c t ih =>
    have here : pattern before (c :: t) = none := nothing [] c t rfl
    rw [replaceMatches_cons_none here, ih (some c) fun s e u cut => ?_]
    rw [← lastOf_cons before]
    exact nothing (c :: s) e u (by rw [cut, List.cons_append])

/-! ## Finding -/

/-- A stretch that a pattern takes, with what lies before and after it. -/
structure Match where
  before : Text
  taken : Text
  after : Text

/-- The first stretch that the pattern takes, starting with the character before the text. -/
def findFrom? (pattern : Pattern) (before : Option Char) : Text → Option Match
  | [] => none
  | c :: t =>
    match pattern before (c :: t) with
    | some n => some ⟨[], c :: t.take (n - 1), t.drop (n - 1)⟩
    | none => (findFrom? pattern (some c) t).map fun m => { m with before := c :: m.before }

/-- The first stretch of the text that the pattern takes. -/
def find? (pattern : Pattern) (t : Text) : Option Match :=
  findFrom? pattern none t

/-- The number of leading characters of a class. -/
def countWhile (p : Char → Bool) (t : Text) : Nat :=
  (t.takeWhile p).length

/-- The length of the first of the given words with which the text starts and that ends there at a
word boundary. -/
def keyword? (keywords : List Text) (t : Text) : Option Nat :=
  keywords.findSome? fun w =>
    match afterPrefix? w t with
    | some rest => if atBoundary w.getLast? rest then some w.length else none
    | none => none

end AccessorCatalog.Text

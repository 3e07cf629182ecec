/-
# Cuts outside brackets

A declaration is cut at commas, blanks or colons, but only where no bracket is open.  `Depth` counts
the open brackets of the three kinds `()`, `[]` and `<>` apart from each other; a close without an
open counts for nothing.  So `x > y, z` is cut at its comma and `map<a, b>` is not.

* `splitTopWhere`, `splitTop`, `topWords`: the pieces between separators at depth zero;
* `cutAtColon?`: the two sides of the first lone colon at depth zero;
* `closeOf?`: the close that matches an open, for one pair of brackets.

`join_splitTop` puts a text back together from its pieces.
-/
import AccessorCatalog.Text.Basic

namespace AccessorCatalog.Text

/-! ## 1. Depth -/

/-- How many brackets of each kind are open. -/
structure Depth where
  paren : Nat := 0
  square : Nat := 0
  angle : Nat := 0
  deriving DecidableEq

namespace Depth

/-- The depth behind a character. -/
def feed (d : Depth) (c : Char) : Depth :=
  if c = '(' then { d with paren := d.paren + 1 }
  else if c = ')' then { d with paren := d.paren - 1 }
  else if c = '[' then { d with square := d.square + 1 }
  else if c = ']' then { d with square := d.square - 1 }
  else if c = '<' then { d with angle := d.angle + 1 }
  else if c = '>' then { d with angle := d.angle - 1 }
  else d

/-- No bracket is open. -/
def isTop (d : Depth) : Bool :=
  d.paren == 0 && d.square == 0 && d.angle == 0

/-- The depth behind a text. -/
def read (d : Depth) (t : Text) : Depth :=
  t.foldl feed d

end Depth

/-! ## 2. Splitting -/

/-- The pieces between the characters at depth zero that satisfy `p`, starting at a depth. -/
def splitTopFrom (p : Char → Bool) (d : Depth) : Text → List Text
  | [] => [[]]
  | c :: t =>
    if p c && d.isTop then [] :: splitTopFrom p d t else consFirst c (splitTopFrom p (d.feed c) t)

/-- The pieces between the characters at depth zero that satisfy `p`. -/
def splitTopWhere (p : Char → Bool) (t : Text) : List Text :=
  splitTopFrom p {} t

/-- The pieces between the occurrences of `sep` at depth zero. -/
def splitTop (sep : Char) (t : Text) : List Text :=
  splitTopWhere (· == sep) t

/-- The stretches between blanks at depth zero, so that `map<int, int> m` is two words. -/
def topWords (t : Text) : List Text :=
  (splitTopWhere isBlank t).filter fun w => !w.isEmpty

/-- The part before the first `sep` at depth zero, or the whole text. -/
def beforeTop (sep : Char) (t : Text) : Text :=
  (splitTop sep t).headD []

theorem splitTopFrom_ne_nil (p : Char → Bool) (d : Depth) (t : Text) : splitTopFrom p d t ≠ [] := by
  cases t with
  | nil => simp [splitTopFrom]
  | cons c t =>
    unfold splitTopFrom
    split
    · simp
    · exact consFirst_ne_nil _ _

theorem join_consFirst (sep : Text) (c : Char) {pieces : List Text} (h : pieces ≠ []) :
    join sep (consFirst c pieces) = c :: join sep pieces := by
  obtain ⟨piece, pieces, rfl⟩ := List.exists_cons_of_ne_nil h
  cases pieces <;> simp [consFirst, join, List.intercalate]

theorem join_nil_cons (sep : Text) {pieces : List Text} (h : pieces ≠ []) :
    join sep ([] :: pieces) = sep ++ join sep pieces := by
  obtain ⟨piece, pieces, rfl⟩ := List.exists_cons_of_ne_nil h
  simp [join, List.intercalate]

/-- Joining the pieces with the separator gives the text back. -/
theorem join_splitTop (sep : Char) (t : Text) : join [sep] (splitTop sep t) = t := by
  unfold splitTop splitTopWhere
  generalize ({} : Depth) = d
  induction t generalizing d with
  | nil => rfl
  | cons c t ih =>
    unfold splitTopFrom
    split
    · next h =>
      have hc : c = sep := by simp at h; exact h.1
      rw [join_nil_cons _ (splitTopFrom_ne_nil _ _ _), ih, hc]
      rfl
    · rw [join_consFirst _ _ (splitTopFrom_ne_nil _ _ _), ih]

/-! ## 3. Colons and closes -/

/-- The two sides of the first colon at depth zero that has no colon next to it. -/
def cutAtColonFrom? (d : Depth) (before : Option Char) : Text → Option (Text × Text)
  | [] => none
  | c :: t =>
    if c = ':' ∧ d.isTop ∧ before ≠ some ':' ∧ t.head? ≠ some ':' then some ([], t)
    else (cutAtColonFrom? (d.feed c) (some c) t).map fun (left, right) => (c :: left, right)

/-- The two sides of the first lone colon at depth zero. -/
def cutAtColon? (t : Text) : Option (Text × Text) :=
  cutAtColonFrom? {} none t

/-- How far behind the start of a list the close lies that ends the open brackets; `depth` are open
already.  A close without an open ends the search. -/
def closeFrom? {α : Type} [DecidableEq α] (left right : α) (depth : Nat) : List α → Option Nat
  | [] => none
  | c :: t =>
    if c = left then (closeFrom? left right (depth + 1) t).map (· + 1)
    else if c = right then
      if depth = 0 then none
      else if depth = 1 then some 0
      else (closeFrom? left right (depth - 1) t).map (· + 1)
    else (closeFrom? left right depth t).map (· + 1)

/-- The place of the close that matches the first open at or behind the place `start`. -/
def closeOf? {α : Type} [DecidableEq α] (left right : α) (start : Nat) (t : List α) : Option Nat :=
  (closeFrom? left right 0 (t.drop start)).map (start + ·)

end AccessorCatalog.Text

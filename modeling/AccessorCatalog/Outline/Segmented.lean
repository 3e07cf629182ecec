/-
# Segmented headers

`segment` replaces the boundaries of every namespace, and then of every class and struct, by marks
on lines of their own, and keeps the text that each mark stands for as its fragment.  What is left
between the marks are the lines of the header in their order.

The namespaces go first, so that what the classes are searched in has no braces of namespaces; the
marks of each of the two passes are numbered from zero in the order of the text.
-/
import AccessorCatalog.Outline.Balance
import AccessorCatalog.Outline.Construct

namespace AccessorCatalog.Outline

/-! ## 1. Edits -/

/-- The replacement of a stretch of a text. -/
structure Edit where
  start : Nat
  stop : Nat
  replacement : Text
  deriving DecidableEq, Repr

/-- Whether an edit comes before another or at the same place. -/
def Edit.precedes (a b : Edit) : Bool :=
  a.start < b.start || (a.start == b.start && a.stop ≤ b.stop)

/-- Applies edits, sorted by place, to the text behind `cursor`.  An edit that starts before the
cursor is left out. -/
def spliceFrom (cursor : Nat) (t : Text) : List Edit → Text
  | [] => t
  | e :: edits =>
    if e.start < cursor then spliceFrom cursor t edits
    else
      t.take (e.start - cursor) ++ e.replacement ++
        spliceFrom e.stop (t.drop (e.stop - cursor)) edits

/-- Applies edits to a text. -/
def splice (edits : List Edit) (t : Text) : Text :=
  spliceFrom 0 t (edits.mergeSort Edit.precedes)

/-! ## 2. Marks for constructs -/

/-- The mark that opens the construct with a number. -/
def Construct.openingMark (c : Construct) (index : Nat) : Mark :=
  ⟨⟨c.scope, .opening⟩, index⟩

/-- The edits that put marks in place of the two boundaries of a construct. -/
def Construct.edits (c : Construct) (index : Nat) : List Edit :=
  let m := c.openingMark index
  [⟨c.start, c.openAt + 1, m.render ++ ['\n']⟩,
    ⟨c.closeAt, c.stop, '\n' :: m.partner.render ++ ['\n']⟩]

/-- The texts that the two marks of a construct stand for. -/
def Construct.fragments (c : Construct) (index : Nat) (t : Text) : List (Mark × Text) :=
  let m := c.openingMark index
  [(m, Text.trim (c.preamble t)), (m.partner, c.epilogue t)]

/-! ## 3. Segmented headers -/

/-- A header with marks in place of its boundaries, and what the marks stand for. -/
structure Segmented where
  text : Text
  fragments : List (Mark × Text)
  deriving DecidableEq, Repr

namespace Segmented

/-- The text that a mark stands for; nothing for an unknown mark. -/
def fragment (s : Segmented) (m : Mark) : Text :=
  (s.fragments.lookup m).getD []

/-- The tokens of the header, in the order of its text. -/
def tokens (s : Segmented) : List Token :=
  Outline.tokens s.text

/-- The fragments by kind and number of their marks. -/
def sortedFragments (s : Segmented) : List (Mark × Text) :=
  s.fragments.mergeSort fun a b => a.1.precedes b.1

/-- Replaces the boundaries of the constructs of a text by marks numbered from zero. -/
def substitute (s : Segmented) (constructs : List Construct) : Segmented :=
  { text := splice (constructs.zipIdx.flatMap fun (c, index) => c.edits index) s.text
    fragments :=
      s.fragments ++ constructs.zipIdx.flatMap fun (c, index) => c.fragments index s.text }

end Segmented

/-- Replaces the boundaries of a header by marks: type definitions become classes, then the
namespaces are replaced, then the classes and structs.  A header whose braces do not balance is an
error. -/
def segment (limit : Nat) (header t : Text) : Except ParseError Segmented := do
  let converted := Source.convertTypedefs t
  let namespaces ← findConstructs namespacePreamble false limit header converted
  let outer := Segmented.substitute ⟨converted, []⟩ namespaces
  let classes ← findConstructs classPreamble true limit header outer.text
  let segmented := outer.substitute classes
  checkBraces header t
  checkMarks header segmented.tokens
  return segmented

end AccessorCatalog.Outline

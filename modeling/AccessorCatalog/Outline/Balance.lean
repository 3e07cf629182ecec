/-
# Balance

Two checks that boundaries pair up.  `checkBraces` reads the braces of a text: every closing one
must close an open one, and none may stay open.  `checkMarks` reads the marks of a stream of tokens:
every closing mark must be the partner of the innermost open one, and none may stay open.

Both are said by a scan with the open boundaries on a stack, innermost first.
-/
import AccessorCatalog.ParseError
import AccessorCatalog.Source.Layout

namespace AccessorCatalog.Outline

/-! ## 1. Braces -/

/-- The brace fault of a text that starts at an offset, with the offsets of the open braces. -/
def braceFaultFrom? (offset : Nat) (opened : List Nat) : Text → Option (Nat × BraceFault)
  | [] => opened.getLast?.map fun first => (first, .unclosedOpen)
  | c :: t =>
    let next := offset + c.utf8Size
    if c = '\x7b' then braceFaultFrom? next (offset :: opened) t
    else if c = '\x7d' then
      match opened with
      | [] => some (offset, .strayClose)
      | _ :: opened => braceFaultFrom? next opened t
    else braceFaultFrom? next opened t

/-- Every brace of the text has its partner. -/
def checkBraces (header t : Text) : Except ParseError Unit :=
  match braceFaultFrom? 0 [] t with
  | some (offset, fault) => .error (.malformedConstruct header offset fault)
  | none => .ok ()

/-! ## 2. Tokens -/

/-- An item of a header whose boundaries have been replaced: a mark or a line of text. -/
inductive Token where
  | mark (m : Mark)
  | line (t : Text)
  deriving DecidableEq, Repr

/-- The token that a line is. -/
def Token.ofLine (line : Text) : Token :=
  match Mark.parse? line with
  | some m => .mark m
  | none => .line line

/-- The tokens of a text, one for each line that is not empty. -/
def tokens (t : Text) : List Token :=
  (Source.trimmedLines t).map Token.ofLine

/-! ## 3. Marks -/

/-- The first mark of a stream without its partner, given the open marks.  If every closing mark
fits, it is the innermost mark that stays open. -/
def unpairedMark? (opened : List Mark) : List Token → Option Mark
  | [] => opened.head?
  | .line _ :: ts => unpairedMark? opened ts
  | .mark m :: ts =>
    if m.isOpening then unpairedMark? (m :: opened) ts
    else
      match opened with
      | inner :: outer => if inner.partner = m then unpairedMark? outer ts else some m
      | [] => some m

/-- Every mark of the stream has its partner, and the pairs nest. -/
def checkMarks (header : Text) (ts : List Token) : Except ParseError Unit :=
  match unpairedMark? [] ts with
  | some m => .error (.unbalancedMark header m)
  | none => .ok ()

end AccessorCatalog.Outline

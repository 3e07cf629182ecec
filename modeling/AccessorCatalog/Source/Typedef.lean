/-
# Type definitions as classes

A line `typedef X Name;` makes `Name` a name of a class like any other, so it is written as an empty
class body.  Lines that define a member type of a template, an iterator or a function type are left
alone.
-/
import AccessorCatalog.Text.Pattern

namespace AccessorCatalog.Source

open Text (Pattern countWhile isBlank)

/-- Whether a place is the start of a line, from the character before it. -/
def atLineStart (before : Option Char) : Bool :=
  before == none || before == some '\n'

/-- The length of a run of blanks and of a body that follows them, up to the character `stop`.  The
body holds at least one character, if need be the last of the blanks. -/
def blanksAndBody? (allowed : Char → Bool) (stop : Char) (t : Text) : Option Nat :=
  let gap := countWhile isBlank t
  let body := countWhile allowed (t.drop gap)
  if gap = 0 || (t.drop (gap + body)).head? != some stop then none
  else if body != 0 || (gap ≥ 2 && (t.drop (gap - 1)).head?.any allowed) then some (gap + body)
  else none

/-- A type definition at the start of a line, its semicolon included. -/
def typedefLine : Pattern := fun before t =>
  if atLineStart before then
    (Text.afterPrefix? "typedef".toList t).bind fun t =>
      (blanksAndBody? (fun c => c != ';' && c != '\n') ';' t).map fun n => 7 + n + 1
  else none

/-- The pieces of text that keep a type definition as it is. -/
def keptTypedefs : List Text :=
  ["typename".toList, "iterator".toList, "_type".toList, "(".toList]

/-- The name that a type definition defines: its last word, without decorations. -/
def definedName (line : Text) : Text :=
  ((Text.words (Text.dropEnd (· == ';') line)).getLastD []).dropWhile fun c => c == '*' || c == '&'

/-- The class that stands for a type definition. -/
def typedefClass (line : Text) : Text :=
  let name := definedName line
  if keptTypedefs.any (fun piece => Text.hasPiece piece line) || name.isEmpty then line
  else "class ".toList ++ name ++ " \x7b\n\x7d;".toList

/-- The text with its type definitions written as empty classes. -/
def convertTypedefs (t : Text) : Text :=
  Text.replaceMatches typedefLine typedefClass t

end AccessorCatalog.Source

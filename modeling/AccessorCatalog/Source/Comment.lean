/-
# Comments and literals

What a header says in a comment, or inside a string or character literal, is no part of its
structure.  `stripComments` removes comments and empties literals, in one scan from the left in
which the first opener found wins:

* a block comment becomes one blank, a line comment nothing (its line feed stays);
* a literal becomes its two quotes, so that a default value still shows that it was there;
* an opener without a close is an ordinary character, and the scan goes on right behind it.
-/
import AccessorCatalog.Text.Pattern

namespace AccessorCatalog.Source

/-! ## 1. What the scan takes -/

/-- The length of what is left of a block comment, its close included. -/
def blockRest? : Text → Option Nat
  | [] => none
  | '*' :: '/' :: _ => some 2
  | _ :: t => (blockRest? t).map (· + 1)

/-- The length of what is left of a literal, the closing quote included.  A backslash takes the
character behind it, even a line feed; a line feed of its own leaves the literal open. -/
def literalRest? (quote : Char) : Text → Option Nat
  | [] => none
  | ['\\'] => none
  | '\\' :: _ :: t => (literalRest? quote t).map (· + 2)
  | c :: t =>
    if c = quote then some 1
    else if c = '\n' then none
    else (literalRest? quote t).map (· + 1)

/-- A whole comment or a whole literal. -/
def commentOrLiteral : Text.Pattern := fun _ t =>
  match t with
  | '/' :: '*' :: t => (blockRest? t).map (· + 2)
  | '/' :: '/' :: t => some (2 + Text.countWhile (· != '\n') t)
  | '"' :: t => (literalRest? '"' t).map (· + 1)
  | '\'' :: t => (literalRest? '\'' t).map (· + 1)
  | _ => none

/-- What stays of a comment or a literal. -/
def residue : Text → Text
  | '"' :: _ => ['"', '"']
  | '\'' :: _ => ['\'', '\'']
  | '/' :: '/' :: _ => []
  | _ => [' ']

/-! ## 2. The scan -/

/-- The text without its comments and with its literals emptied. -/
def stripComments (t : Text) : Text :=
  Text.replaceMatches commentOrLiteral residue t

/-! ## 3. Directives -/

/-- The length of what is left of a directive: up to the first line feed that no backslash
precedes. -/
def directiveRest : Text → Nat
  | [] => 0
  | '\\' :: '\n' :: t => directiveRest t + 2
  | c :: t => if c = '\n' then 0 else directiveRest t + 1

/-- A directive: from the start of a line, over blanks and tabs, a `#` and all that belongs to
it. -/
def directive : Text.Pattern := fun before t =>
  if before = none ∨ before = some '\n' then
    let indent := Text.countWhile (fun c => c == ' ' || c == '\t') t
    match t.drop indent with
    | '#' :: t => some (indent + 1 + directiveRest t)
    | _ => none
  else none

/-- The text without its directives; their line feeds stay. -/
def stripDirectives (t : Text) : Text :=
  Text.replaceMatches directive (fun _ => []) t

end AccessorCatalog.Source

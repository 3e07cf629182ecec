/-
# The layout of a header

`normalize` removes comments, literals' contents and directives, makes the spacing canonical, and
lays the text out so that a reader of lines needs no further scanning:

* an opening brace and a semicolon end their line;
* a closing brace starts its line and is alone on it, but for a semicolon that follows it;
* an access label such as `public:` ends its line;
* no line is empty or has blanks at an end.
-/
import AccessorCatalog.Source.Comment
import AccessorCatalog.Source.Spacing

namespace AccessorCatalog.Source

open Text (Pattern countWhile isBlank)

/-- A line break behind every opening brace and semicolon, and on both sides of a closing brace. -/
def breakLines (t : Text) : Text :=
  t.flatMap fun c =>
    if c = '\x7b' then ['\x7b', '\n']
    else if c = ';' then [';', '\n']
    else if c = '\x7d' then ['\n', '\x7d', '\n']
    else [c]

/-- A closing brace, blanks and a semicolon. -/
def closeWithSemicolon : Pattern := fun _ t =>
  match t with
  | '\x7d' :: t =>
    let gap := countWhile isBlank t
    match t.drop gap with
    | ';' :: _ => some (1 + gap + 1)
    | _ => none
  | _ => none

/-- The words that label a section of a class. -/
def accessWords : List Text :=
  ["public".toList, "protected".toList, "private".toList]

/-- An access word with a colon, and with a second colon if one follows. -/
def accessLabel : Pattern := fun before t =>
  if Text.atBoundary before t then
    accessWords.findSome? fun word =>
      (Text.afterPrefix? word t).bind fun t =>
        let gap := countWhile isBlank t
        match t.drop gap with
        | ':' :: ':' :: _ => some (word.length + gap + 2)
        | ':' :: _ => some (word.length + gap + 1)
        | _ => none
  else none

/-- An access label ends its line.  With a second colon it names a base class (`public ::ns::Base`)
and is left alone. -/
def endLabel (label : Text) : Text :=
  if Text.endsWith "::".toList label then label else solid label ++ ['\n']

/-- The lines of a text, trimmed and without the empty ones. -/
def trimmedLines (t : Text) : List Text :=
  ((Text.lines t).map Text.trim).filter fun line => !line.isEmpty

/-- The program text of a header: no comments, no contents of literals, no directives. -/
def programText (t : Text) : Text :=
  stripDirectives (stripComments t)

/-- The header in canonical spacing and layout. -/
def normalize (t : Text) : Text :=
  let t := joinOperatorName (canonicalSpacing (programText t))
  let t := Text.replaceMatches closeWithSemicolon (fun _ => ['\x7d', ';']) (breakLines t)
  let t := Text.replaceMatches accessLabel endLabel t
  Text.join ['\n'] (trimmedLines t)

end AccessorCatalog.Source

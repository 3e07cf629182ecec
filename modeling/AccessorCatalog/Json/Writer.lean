/-
# Writing JSON

Strings are quoted with the mandatory escapes only.  `compact` writes a document without blanks;
`pretty` gives every item and field a line of its own, indented by two blanks for each level, and
writes an empty array or object as its two brackets.
-/
import AccessorCatalog.Json.Basic

namespace AccessorCatalog.Json

/-- The hexadecimal digit of a number below sixteen. -/
def hexChar (n : Nat) : Char :=
  if n < 10 then Char.ofNat ('0'.toNat + n) else Char.ofNat ('a'.toNat + (n - 10))

/-- How a character is written inside quotes. -/
def escape (c : Char) : Text :=
  if c = '"' then ['\\', '"']
  else if c = '\\' then ['\\', '\\']
  else if c = '\n' then ['\\', 'n']
  else if c = '\r' then ['\\', 'r']
  else if c = '\t' then ['\\', 't']
  else if c = '\x08' then ['\\', 'b']
  else if c = '\x0c' then ['\\', 'f']
  else if c.toNat < 0x20 then ['\\', 'u', '0', '0', hexChar (c.toNat / 16), hexChar (c.toNat % 16)]
  else [c]

/-- A text in quotes. -/
def quote (t : Text) : Text :=
  '"' :: (t.flatMap escape ++ ['"'])

mutual

/-- The document without blanks. -/
def compact : Json → Text
  | .null => "null".toList
  | .bool true => "true".toList
  | .bool false => "false".toList
  | .number literal => literal
  | .text t => quote t
  | .brokenText => quote []
  | .brokenObject => ['\x7b', '\x7d']
  | .array items => '[' :: (Text.join [','] (compactItems items) ++ [']'])
  | .object fields => '\x7b' :: (Text.join [','] (compactFields fields) ++ ['\x7d'])

/-- The items of an array. -/
def compactItems : List Json → List Text
  | [] => []
  | item :: items => compact item :: compactItems items

/-- The fields of an object. -/
def compactFields : List (Text × Json) → List Text
  | [] => []
  | (name, value) :: fields => (quote name ++ ':' :: compact value) :: compactFields fields

end

/-- A line break and the indentation of a level. -/
def newLine (level : Nat) : Text :=
  '\n' :: List.replicate (2 * level) ' '

/-- Items, each on a line of its own, between two brackets. -/
def block (opening closing : Char) (level : Nat) : List Text → Text
  | [] => [opening, closing]
  | items =>
    opening :: (Text.join [','] (items.map (newLine (level + 1) ++ ·)) ++ newLine level ++
      [closing])

mutual

/-- The document laid out at a level of indentation. -/
def prettyAt (level : Nat) : Json → Text
  | .array items => block '[' ']' level (prettyItems (level + 1) items)
  | .object fields => block '\x7b' '\x7d' level (prettyFields (level + 1) fields)
  | .null => "null".toList
  | .bool true => "true".toList
  | .bool false => "false".toList
  | .number literal => literal
  | .text t => quote t
  | .brokenText => quote []
  | .brokenObject => ['\x7b', '\x7d']

/-- The items of an array, laid out at a level. -/
def prettyItems (level : Nat) : List Json → List Text
  | [] => []
  | item :: items => prettyAt level item :: prettyItems level items

/-- The fields of an object, laid out at a level. -/
def prettyFields (level : Nat) : List (Text × Json) → List Text
  | [] => []
  | (name, value) :: fields =>
    (quote name ++ ':' :: ' ' :: prettyAt level value) :: prettyFields level fields

end

/-- The document with one item or field a line. -/
def pretty (document : Json) : Text :=
  prettyAt 0 document

end AccessorCatalog.Json

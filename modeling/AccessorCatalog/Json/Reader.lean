/-
# Reading JSON

A strict reader: no byte order mark, nothing behind the document, no control characters inside
strings, no comma before a close, no leading zeros.  `Json.parse?` answers the document or nothing.

The recursion is bounded by a budget that is spent once for each call.  Twice the length of the text
is enough: between two spendings that read nothing an opening bracket, a comma or a scalar is read.
-/
import AccessorCatalog.Json.Basic

namespace AccessorCatalog.Json

/-! ## 1. Scalars -/

/-- The text without the blanks that may stand between tokens. -/
def skipBlanks (t : Text) : Text :=
  t.dropWhile fun c => c == ' ' || c == '\t' || c == '\n' || c == '\r'

/-- The value of a hexadecimal digit. -/
def hexDigit? (c : Char) : Option Nat :=
  if c.isDigit then some (c.toNat - '0'.toNat)
  else if 'a' ≤ c && c ≤ 'f' then some (c.toNat - 'a'.toNat + 10)
  else if 'A' ≤ c && c ≤ 'F' then some (c.toNat - 'A'.toNat + 10)
  else none

/-- The value of four hexadecimal digits. -/
def hexUnit? (a b c d : Char) : Option Nat := do
  return (((← hexDigit? a) * 16 + (← hexDigit? b)) * 16 + (← hexDigit? c)) * 16 + (← hexDigit? d)

/-- What one item of a string stands for: a character, or the first or second half of one. -/
inductive Unit16 where
  | whole (c : Char)
  | high (offset : Nat)
  | low (offset : Nat)

/-- The meaning of a four-digit escape. -/
def Unit16.ofNat (n : Nat) : Unit16 :=
  if 0xd800 ≤ n && n < 0xdc00 then .high (n - 0xd800)
  else if 0xdc00 ≤ n && n < 0xe000 then .low (n - 0xdc00)
  else .whole (Char.ofNat n)

/-- Puts halves together; a half on its own stands for no text. -/
def joinUnits : List Unit16 → Option Text
  | [] => some []
  | .whole c :: units => (joinUnits units).map (c :: ·)
  | .high a :: .low b :: units =>
    (joinUnits units).map (Char.ofNat (0x10000 + a * 0x400 + b) :: ·)
  | _ => none

/-- The character of a one-letter escape. -/
def simpleEscape? : Char → Option Char
  | '"' => some '"'
  | '\\' => some '\\'
  | '/' => some '/'
  | 'b' => some '\x08'
  | 'f' => some '\x0c'
  | 'n' => some '\n'
  | 'r' => some '\r'
  | 't' => some '\t'
  | _ => none

/-- What is left of a string behind its opening quote, and the text behind it. -/
def readUnits : Text → Option (List Unit16 × Text)
  | [] => none
  | '"' :: t => some ([], t)
  | '\\' :: 'u' :: a :: b :: c :: d :: t =>
    match hexUnit? a b c d with
    | some n => (readUnits t).map fun (units, rest) => (.ofNat n :: units, rest)
    | none => none
  | '\\' :: e :: t =>
    match simpleEscape? e with
    | some c => (readUnits t).map fun (units, rest) => (.whole c :: units, rest)
    | none => none
  | c :: t =>
    if c.toNat < 0x20 || c == '\\' then none
    else (readUnits t).map fun (units, rest) => (.whole c :: units, rest)

/-- A string behind its opening quote: its text, if it stands for one, and the text behind it. -/
def readString (t : Text) : Option (Option Text × Text) :=
  (readUnits t).map fun (units, rest) => (joinUnits units, rest)

/-- A run of at least one digit. -/
def readDigits (t : Text) : Option (Text × Text) :=
  match t.span Char.isDigit with
  | ([], _) => none
  | (digits, rest) => some (digits, rest)

/-- The whole part of a number: a lone zero, or digits that start with another. -/
def readWhole : Text → Option (Text × Text)
  | '0' :: t => if (t.head?.map Char.isDigit).getD false then none else some (['0'], t)
  | t => readDigits t

/-- The fraction of a number, if a point follows. -/
def readFraction : Text → Option (Text × Text)
  | '.' :: t => (readDigits t).map fun (digits, rest) => ('.' :: digits, rest)
  | t => some ([], t)

/-- The exponent of a number, if its mark follows. -/
def readExponent : Text → Option (Text × Text)
  | mark :: t =>
    if mark = 'e' ∨ mark = 'E' then
      match t with
      | sign :: t =>
        if sign = '+' ∨ sign = '-' then
          (readDigits t).map fun (digits, rest) => (mark :: sign :: digits, rest)
        else (readDigits (sign :: t)).map fun (digits, rest) => (mark :: digits, rest)
      | [] => none
    else some ([], mark :: t)
  | [] => some ([], [])

/-- A number. -/
def readNumber (t : Text) : Option (Json × Text) := do
  let (sign, t) : Text × Text := match t with
    | '-' :: t => (['-'], t)
    | t => ([], t)
  let (whole, t) ← readWhole t
  let (fraction, t) ← readFraction t
  let (exponent, t) ← readExponent t
  return (.number (sign ++ whole ++ fraction ++ exponent), t)

/-! ## 2. Documents -/

/-- The document of a string. -/
def ofText? (content : Option Text) : Json :=
  content.elim .brokenText .text

/-- The object with the given fields. -/
def ofFields (fields : List (Option Text × Json)) : Json :=
  let named : Option (List (Text × Json)) := fields.mapM fun field => field.1.map (·, field.2)
  named.elim .brokenObject .object

mutual

/-- A document at the start of a text, and the text behind it. -/
def readValue : Nat → Text → Option (Json × Text)
  | 0, _ => none
  | budget + 1, t =>
    match skipBlanks t with
    | '"' :: t => (readString t).map fun (content, rest) => (ofText? content, rest)
    | '[' :: t =>
      match skipBlanks t with
      | ']' :: t => some (.array [], t)
      | t => (readItems budget t).map fun (items, rest) => (.array items, rest)
    | '\x7b' :: t =>
      match skipBlanks t with
      | '\x7d' :: t => some (.object [], t)
      | t => (readFields budget t).map fun (fields, rest) => (ofFields fields, rest)
    | 'n' :: 'u' :: 'l' :: 'l' :: t => some (.null, t)
    | 't' :: 'r' :: 'u' :: 'e' :: t => some (.bool true, t)
    | 'f' :: 'a' :: 'l' :: 's' :: 'e' :: t => some (.bool false, t)
    | t => readNumber t

/-- The items of an array up to its close. -/
def readItems : Nat → Text → Option (List Json × Text)
  | 0, _ => none
  | budget + 1, t => do
    let (item, t) ← readValue budget t
    match skipBlanks t with
    | ']' :: t => return ([item], t)
    | ',' :: t =>
      let (items, t) ← readItems budget t
      return (item :: items, t)
    | _ => none

/-- The fields of an object up to its close. -/
def readFields : Nat → Text → Option (List (Option Text × Json) × Text)
  | 0, _ => none
  | budget + 1, t => do
    let '"' :: t := skipBlanks t | none
    let (name, t) ← readString t
    let ':' :: t := skipBlanks t | none
    let (value, t) ← readValue budget t
    match skipBlanks t with
    | '\x7d' :: t => return ([(name, value)], t)
    | ',' :: t =>
      let (fields, t) ← readFields budget t
      return ((name, value) :: fields, t)
    | _ => none

end

/-- The document that a text holds. -/
def parse? (t : Text) : Option Json :=
  match readValue (2 * t.length + 2) t with
  | some (document, rest) => if (skipBlanks rest).isEmpty then some document else none
  | none => none

end AccessorCatalog.Json

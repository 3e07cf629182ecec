/-
# JSON documents

The class map, the configuration, a dump of declared classes and the run report are files in JSON.
`Json` is the tree of such a document.  Two things are kept as they are spelled, because what they
mean depends on who reads them: a number keeps its digits, and an object keeps all its fields in
order, repeated names included.  For the same reason a string that stands for no text is a document
of its own: it spoils what is read from it, and does no harm where nobody asks.

Records are read through `Record`: a record is written as an object, or as the array of its fields
in their order, and a name that the record does not know is ignored.
-/
import AccessorCatalog.Text.Basic

namespace AccessorCatalog

/-- A JSON document. -/
inductive Json where
  | null
  | bool (value : Bool)
  /-- A number, as it is spelled. -/
  | number (literal : Text)
  | text (value : Text)
  /-- A string with an escape that stands for half a character only. -/
  | brokenText
  | array (items : List Json)
  /-- The fields in the order in which they are written. -/
  | object (fields : List (Text × Json))
  /-- An object with a name that stands for no text. -/
  | brokenObject
  deriving Inhabited

namespace Json

/-! ## 1. Values -/

/-- The number document of a natural number. -/
def ofNat (n : Nat) : Json :=
  .number (Text.ofNat n)

/-- The string document of a constant. -/
def ofString (s : String) : Json :=
  .text s.toList

/-- The object with the given constant names. -/
def record (fields : List (String × Json)) : Json :=
  .object (fields.map fun (name, value) => (name.toList, value))

/-- The array of texts. -/
def texts (ts : List Text) : Json :=
  .array (ts.map .text)

/-- An absent value is `null`. -/
def ofOption {α : Type} (encode : α → Json) : Option α → Json
  | some a => encode a
  | none => .null

/-- The text of a string document. -/
def toText? : Json → Option Text
  | .text t => some t
  | _ => none

/-- The truth value of a document. -/
def toBool? : Json → Option Bool
  | .bool b => some b
  | _ => none

/-- The count that a document gives: a whole number below 2^64, spelled with digits only. -/
def toCount? : Json → Option Nat
  | .number literal => Text.toCount? literal
  | _ => none

/-- The items of an array, each read in the same way. -/
def toList? {α : Type} (decode : Json → Option α) : Json → Option (List α)
  | .array items => items.mapM decode
  | _ => none

/-- A value or `null`. -/
def toOption? {α : Type} (decode : Json → Option α) : Json → Option (Option α)
  | .null => some none
  | value => (decode value).map some

/-- The entries of an object, each value read in the same way. -/
def toEntries? {α : Type} (decode : Json → Option α) : Json → Option (List (Text × α))
  | .object fields => fields.mapM fun (name, value) => (decode value).map fun a => (name, a)
  | _ => none

/-! ## 2. Records -/

/-- The known fields that a document gives for a record. -/
structure Record where
  given : List (Text × Json)
  /-- Written as an array: then no field but one with a default may be left out. -/
  positional : Bool

/-- Reads a document as a record with the given field names.  A known name written twice is refused,
and so are more items than there are fields. -/
def toRecord? (names : List String) (document : Json) : Option Record :=
  let names := names.map String.toList
  match document with
  | .object fields =>
    let known := fields.filter fun field => names.contains field.1
    if (known.map Prod.fst).Nodup then some ⟨known, false⟩ else none
  | .array items => if items.length ≤ names.length then some ⟨names.zip items, true⟩ else none
  | _ => none

namespace Record

variable {α : Type}

/-- The value given for a field. -/
def value? (r : Record) (name : String) : Option Json :=
  (r.given.find? fun field => field.1 == name.toList).map Prod.snd

/-- A field that must be given. -/
def required (r : Record) (name : String) (decode : Json → Option α) : Option α :=
  (r.value? name).bind decode

/-- A field that may be left out. -/
def withDefault (r : Record) (name : String) (default : α) (decode : Json → Option α) : Option α :=
  match r.value? name with
  | some value => decode value
  | none => some default

/-- A field that may be `null`, or left out of an object. -/
def optional (r : Record) (name : String) (decode : Json → Option α) : Option (Option α) :=
  match r.value? name with
  | some value => toOption? decode value
  | none => if r.positional then none else some none

end Record
end Json
end AccessorCatalog

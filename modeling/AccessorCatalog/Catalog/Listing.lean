/-
# Reading a catalog

`Listing.parse` reads a catalog line by line.  A label opens its section, an empty line ends one,
and every other line belongs to the section it stands in; lines that do not look like what their
section holds are passed over.  The two columns of an accessor are separated by two blanks; single
blanks occur inside types.
-/
import AccessorCatalog.Text.Pattern

namespace AccessorCatalog

open Text (Pattern countWhile)

/-- What a line of a catalog lists. -/
structure ListedEntry where
  returnType : Text
  name : Text
  /-- The text behind the type: a call with its arguments, or the name of a data member. -/
  signature : Text
  /-- The arguments of a method, `void` if there are none; a data member has no such text. -/
  args? : Option Text
  line : Text
  deriving DecidableEq, Repr

/-- Whether the line lists a method. -/
def ListedEntry.isMethod (e : ListedEntry) : Bool :=
  e.args?.isSome

/-- What a catalog says, read back. -/
structure Listing where
  className : Text
  header : Text
  bases : List Text
  entries : List ListedEntry
  deriving DecidableEq, Repr

namespace Listing

/-! ## 1. Lines of accessors -/

/-- The two columns of a line. -/
def splitColumns? (line : Text) : Option (Text × Text) :=
  (Text.cutFirst? [' ', ' '] line).map fun (type, rest) => (Text.trim type, Text.trim rest)

/-- The name of a method with its opening parenthesis. -/
def methodName : Pattern := fun _ t =>
  match t with
  | c :: t =>
    if Text.isAsciiLetter c || c == '~' then
      let n := countWhile (fun c => Text.isWord c || "<>:,".toList.contains c) t
      if (t.drop n).head? = some '(' then some (n + 2) else none
    else none
  | [] => none

/-- The type and the signature of a line of a method. -/
def splitMethodLine? (line : Text) : Option (Text × Text) :=
  match splitColumns? line with
  | some columns => some columns
  | none => (Text.find? methodName line).map fun m => (Text.trim m.before, m.taken ++ m.after)

/-- The entry of a line in a section of methods. -/
def methodOfLine? (line : Text) : Option ListedEntry := do
  let (returnType, signature) ← splitMethodLine? line
  let (name, inside) ← Text.cutFirst? ['('] signature
  let (args, _) ← Text.cutFirst? [')'] inside
  let args := Text.trim args
  return {
    returnType
    name := Text.trim name
    signature
    args? := some (if args.isEmpty then "void".toList else args)
    line }

/-- The entry of a line in a section of data members. -/
def memberOfLine? (line : Text) : Option ListedEntry := do
  let (type, name) ← (splitColumns? line).or (Text.cutLast? [' '] line)
  return ⟨Text.trim type, Text.trim name, Text.trim name, none, line⟩

/-! ## 2. Sections -/

/-- The sections of a catalog that hold lines. -/
inductive Section where
  | outside
  | bases
  | methods
  | members
  deriving DecidableEq, Repr

/-- A listing while it is read, and the section of the next line. -/
structure ReadState where
  listing : Listing
  current : Section

/-- The first word of a line and the rest. -/
def splitLabel (line : Text) : Text × Text :=
  let word := line.takeWhile fun c => !Text.isBlank c
  (word, Text.trim (line.drop word.length))

/-- Adds entries to the listing. -/
def ReadState.addEntries (s : ReadState) (entries : List ListedEntry) : ReadState :=
  { s with listing := { s.listing with entries := s.listing.entries ++ entries } }

/-- Reads a line that starts with no label. -/
def ReadState.feedPlain (s : ReadState) (line : Text) : ReadState :=
  match s.current with
  | .bases => { s with listing := { s.listing with bases := s.listing.bases ++ [line] } }
  | .methods =>
    s.addEntries (methodOfLine? line).toList
  | .members =>
    s.addEntries (memberOfLine? line).toList
  | .outside => s

/-- Reads a trimmed line. -/
def ReadState.feed (s : ReadState) (line : Text) : ReadState :=
  let (word, value) := splitLabel line
  if word = "Class:".toList then ⟨{ s.listing with className := value }, .outside⟩
  else if word = "Header:".toList then ⟨{ s.listing with header := value }, .outside⟩
  else if word = "BaseClasses:".toList then
    let bases := if value.isEmpty then [] else [value]
    ⟨{ s.listing with bases := s.listing.bases ++ bases }, .bases⟩
  else if word = "AccessMethods:".toList then { s with current := .methods }
  else if word = "DataMembers:".toList then { s with current := .members }
  else if word = "Version:".toList ∨ word = "Created:".toList ∨ line.isEmpty then
    { s with current := .outside }
  else s.feedPlain line

/-- The listing that the text of a catalog gives. -/
def parse (t : Text) : Listing :=
  (((Text.lines t).map Text.trim).foldl ReadState.feed ⟨⟨[], [], [], []⟩, .outside⟩).listing

end Listing
end AccessorCatalog

/-
# Reflection

A reflection oracle knows classes better than their headers do: it can say which methods, data
members and bases a class has.  An oracle is a function of the class name; asking it can fail, and a
failure counts as not knowing the class.

A *dump* is an oracle written down: an object from class names to what is known of them.
-/
import AccessorCatalog.Declaration.Document
import AccessorCatalog.Json.Reader
import AccessorCatalog.Table

namespace AccessorCatalog.Reflection

open Declaration

/-! ## 1. Oracles -/

/-- What an oracle knows of a class. -/
structure ClassInfo where
  methods : List Signature
  members : List Member
  bases : List Text
  deriving DecidableEq, Repr

/-- What an oracle answers. -/
inductive Answer where
  | known (info : ClassInfo)
  | unknown
  | failed
  deriving DecidableEq, Repr

/-- What an answer says of the class; a failure says nothing. -/
def Answer.info? : Answer → Option ClassInfo
  | .known info => some info
  | .unknown => none
  | .failed => none

/-- An oracle, as a function of the class name. -/
abbrev Oracle := Text → Answer

/-- The oracle that knows no class. -/
def Oracle.ignorant : Oracle := fun _ => .unknown

/-! ## 2. Dumps -/

/-- The classes of a dump. -/
abbrev Dump := Table ClassInfo

/-- Reads what a dump says of a class; each part may be left out. -/
def ClassInfo.ofJson? (document : Json) : Option ClassInfo := do
  let r ← document.toRecord? ["methods", "data_members", "bases"]
  return {
    methods := ← r.withDefault "methods" [] (Json.toList? Signature.ofJson?)
    members := ← r.withDefault "data_members" [] (Json.toList? Member.ofJson?)
    bases := ← r.withDefault "bases" [] (Json.toList? Json.toText?) }

/-- Reads a dump; of a repeated class the last answer counts. -/
def Dump.ofJson? (document : Json) : Option Dump :=
  (document.toEntries? ClassInfo.ofJson?).map Table.ofList

/-- Reads the text of a dump. -/
def Dump.parse? (t : Text) : Option Dump :=
  (Json.parse? t).bind Dump.ofJson?

/-- The oracle that answers from a dump. -/
def Dump.oracle (dump : Dump) : Oracle := fun name =>
  match dump.get? name with
  | some info => .known info
  | none => .unknown

end AccessorCatalog.Reflection

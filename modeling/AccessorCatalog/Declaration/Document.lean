/-
# Signatures in JSON

How arguments, methods and data members are written in a document.  Each is a record; the arguments
and the qualifier of a method may be left out.
-/
import AccessorCatalog.Declaration.Signature
import AccessorCatalog.Json.Basic

namespace AccessorCatalog.Declaration

/-- Reads an argument. -/
def Argument.ofJson? (document : Json) : Option Argument := do
  let r ← document.toRecord? ["ty", "name", "default"]
  return {
    type := ← r.required "ty" Json.toText?
    name := ← r.required "name" Json.toText?
    default? := ← r.optional "default" Json.toText? }

/-- Reads a method. -/
def Signature.ofJson? (document : Json) : Option Signature := do
  let r ← document.toRecord? ["return_type", "name", "args", "qualifier"]
  return {
    returnType := ← r.required "return_type" Json.toText?
    name := ← r.required "name" Json.toText?
    args := ← r.withDefault "args" [] (Json.toList? Argument.ofJson?)
    qualifier := ← r.withDefault "qualifier" [] Json.toText? }

/-- Reads a data member. -/
def Member.ofJson? (document : Json) : Option Member := do
  let r ← document.toRecord? ["ty", "name"]
  return {
    type := ← r.required "ty" Json.toText?
    name := ← r.required "name" Json.toText? }

end AccessorCatalog.Declaration

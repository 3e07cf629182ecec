/-
# Accessors

An accessor is what a catalog lists: a method that can be called with builtin arguments, possibly a
chain of calls, or a data member.  It belongs to the class that declares its first part.
-/
import AccessorCatalog.Text.Basic

namespace AccessorCatalog

/-- A method, or a chain of calls, that a catalog lists. -/
structure MethodAccessor where
  owner : Text
  returnType : Text
  name : Text
  /-- The declaration of the call, with the types and defaults of its arguments. -/
  signature : Text
  /-- The call itself, with the names of its arguments. -/
  call : Text
  requiredArgs : Nat
  defaultedArgs : Nat
  deriving DecidableEq, Repr

/-- A data member that a catalog lists. -/
structure MemberAccessor where
  owner : Text
  type : Text
  name : Text
  deriving DecidableEq, Repr

/-- The width of the column of types in a listing. -/
def listingTypeWidth : Nat := 32

/-- A line of a listing: the type flush right in its column, two blanks, and what has the type. -/
def listingLine (type subject : Text) : Text :=
  Text.padLeft listingTypeWidth type ++ [' ', ' '] ++ subject

/-- The line of a method in a listing. -/
def MethodAccessor.listingLine (m : MethodAccessor) : Text :=
  AccessorCatalog.listingLine m.returnType m.signature

/-- The line of a data member in a listing. -/
def MemberAccessor.listingLine (m : MemberAccessor) : Text :=
  AccessorCatalog.listingLine m.type m.name

end AccessorCatalog

/-
# What a return type is good for

A result of a simple type is a value.  A result of a class type can be chained: the accessors of
that class go on from it.  Everything else, such as `void` or a pointer to a pointer, is of no use.

`classify` decides which of the three a type is, and `className` is the class behind a type:
`const reco::Vertex&` gives `reco::Vertex`, `TrackRef` gives `Track`.
-/
import AccessorCatalog.Declaration.Builtin

namespace AccessorCatalog.ReturnType

open Text (Pattern)

/-- The uses of a return type. -/
inductive Use where
  | simple
  /-- A class whose own accessors can be chained onto the call. -/
  | compound (className : Text)
  | unusable
  deriving DecidableEq, Repr

/-- What decorates the class in a type: `const ` anywhere, and at the very end a star, an `&` or
`Ref`. -/
def decoration : Pattern := fun before t =>
  if Text.atBoundary before t && Text.startsWith "const ".toList t then some 6
  else if t = ['*'] ∨ t = ['&'] then some 1
  else if t = "Ref".toList then some 3
  else none

/-- The class behind a return type. -/
def className (type : Text) : Text :=
  Text.trim (Text.replaceMatches decoration (fun _ => []) (Text.trim type))

/-- The use of a return type. -/
def classify (type : Text) : Use :=
  let type := Text.trim type
  if type.isEmpty || type == "void".toList || Text.startsWith "void*".toList type then .unusable
  else if Declaration.isSimpleType type then .simple
  else
    let name := className type
    if name.isEmpty || Text.endsWith ['*'] name || Text.endsWith ['&'] name || name.contains '(' ||
        Declaration.isFundamentalWord name then .unusable
    else .compound name

/-- What stands between a call and an accessor chained onto it: an arrow behind a pointer or a
reference class, else a point. -/
def chainDelimiter (type : Text) : Text :=
  let type := Text.trimEnd type
  if Text.endsWith ['*'] type || Text.endsWith "Ref".toList type then "->".toList else ['.']

end AccessorCatalog.ReturnType

/-
# Bodies of classes

`ClassBody` reads the lines of a class one by one and keeps the declarations of its public sections.
Lines inside the braces of a function body, an enumeration or an initialiser are passed over:
`depth` counts the braces that are open around a line.  An access label changes the section only at
depth zero.
-/
import AccessorCatalog.Source.Layout
import AccessorCatalog.Text.Nesting

namespace AccessorCatalog.Outline

/-! ## 1. Declarations -/

/-- The declarations of a class: those with an argument list, and the others. -/
structure Members where
  methods : List Text
  data : List Text
  deriving DecidableEq, Repr

/-- The words that start a declaration which declares no member. -/
def skippedKeywords : List Text :=
  ["friend".toList, "using".toList, "typedef".toList, "enum".toList, "template".toList,
    "static_assert".toList, "namespace".toList, "class".toList, "struct".toList, "union".toList]

/-- A constructor without its initialiser list: `A(int a) : a_(a)` gives `A(int a)`. -/
def withoutInitializer (declaration : Text) : Text :=
  match Text.closeOf? '(' ')' (Text.countWhile (· != '(') declaration) declaration with
  | some close =>
    match Text.cutAtColon? (declaration.drop (close + 1)) with
    | some (left, _) =>
      if (Text.trim left).isEmpty then declaration.take (close + 1) else declaration
    | none => declaration
  | none => declaration

/-- Adds a declaration, unless it is empty, declares no member or is a function pointer. -/
def Members.push (members : Members) (declaration : Text) : Members :=
  let d := Text.trim (Text.dropEnd (· == ';') (Text.trim declaration))
  if d.isEmpty || (Text.keyword? skippedKeywords d).isSome then members
  else if d.contains '(' then
    if Text.hasPiece "(*".toList d then members
    else { members with methods := members.methods ++ [Text.trim (withoutInitializer d)] }
  else { members with data := members.data ++ [d] }

/-! ## 2. Lines -/

/-- The access word of a line that is an access label. -/
def accessLine? (line : Text) : Option Text :=
  Source.accessWords.find? fun word =>
    match Text.afterPrefix? word line with
    | some rest => Text.trimStart rest == [':']
    | none => false

/-- A class body while its lines are read. -/
structure ClassBody where
  /-- The section read is public. -/
  isPublic : Bool
  /-- The braces that are open around the next line. -/
  depth : Nat
  members : Members
  deriving DecidableEq, Repr

namespace ClassBody

/-- A body before its first line; a struct starts with a public section. -/
def start (isStruct : Bool) : ClassBody :=
  ⟨isStruct, 0, ⟨[], []⟩⟩

/-- Adds a declaration if the section is public. -/
def declare (body : ClassBody) (declaration : Text) : ClassBody :=
  if body.isPublic then { body with members := body.members.push declaration } else body

/-- Reads one line of the class's own body. -/
def feed (body : ClassBody) (line : Text) : ClassBody :=
  if body.depth > 0 then
    { body with depth := body.depth + line.count '\x7b' - line.count '\x7d' }
  else
    match accessLine? line with
    | some word => { body with isPublic := word == "public".toList }
    | none =>
      match Text.beforeSuffix? ['\x7b'] line with
      | some declaration => { body.declare declaration with depth := 1 }
      | none =>
        if Text.startsWith ['\x7d'] line then body
        else (Text.splitOn ';' line).foldl declare body

end ClassBody
end AccessorCatalog.Outline

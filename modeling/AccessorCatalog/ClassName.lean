/-
# Names of classes and functions

A class name is a text such as `reco::Cand<int>`: components joined by `::`, with template arguments
possibly behind the last one.  Nothing is assumed of it; every function here is total on texts.
-/
import AccessorCatalog.Text.Basic

namespace AccessorCatalog.ClassName

/-- The last `::` component of a name. -/
def short (name : Text) : Text :=
  Text.afterLast "::".toList name

/-- The name before its template arguments. -/
def withoutArguments (name : Text) : Text :=
  Text.beforeChar '<' name

/-- The template that a name is an instance of: the name before its arguments, trimmed. -/
def primary (name : Text) : Text :=
  Text.trim (withoutArguments name)

/-- Whether a name has template arguments. -/
def isInstance (name : Text) : Bool :=
  name.contains '<'

/-- Whether a word names an operator: `operator==` and `operator` do, `operatorCount` does not. -/
def isOperator (word : Text) : Bool :=
  match Text.afterPrefix? "operator".toList word with
  | some [] => true
  | some (c :: _) => !(Text.isAlphanumeric c || c == '_')
  | none => false

/-- The scopes around the inside of `scope`, innermost first, without `scope` itself and without the
outermost one. -/
def enclosingScopes (scope : Text) : List Text :=
  let parts := Text.splitPiece "::".toList scope
  ((List.range parts.length).drop 1).reverse.map fun n => Text.join "::".toList (parts.take n)

/-- The names that `name` can stand for when it is used inside `scope`: the name as it is written,
then the name qualified by every enclosing scope, innermost first. -/
def candidates (name scope : Text) : List Text :=
  let name := Text.withoutLeading "::".toList (Text.trim name)
  name :: (enclosingScopes scope).map fun outer => outer ++ "::".toList ++ name

end AccessorCatalog.ClassName

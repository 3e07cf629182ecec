/-
# Titles of scopes

What the preamble of a class or a namespace says: `classTitle` reads
`template<...> class|struct MACROS Name final : bases` and gives the name, the base classes without
access words and `virtual`, and the names of the template parameters.
-/
import AccessorCatalog.Text.Nesting

namespace AccessorCatalog.Outline

/-- What the preamble of a class says about it. -/
structure ClassTitle where
  name : Text
  bases : List Text
  templateParams : List Text
  deriving DecidableEq, Repr

/-- The name that a template parameter introduces, if it has one. -/
def parameterName? (param : Text) : Option Text :=
  match (Text.topWords (Text.trim (Text.beforeTop '=' param))).getLast? with
  | some word =>
    let name := Text.withoutTrailing "...".toList (Text.withoutLeading "...".toList word)
    if name.isEmpty || name == "class".toList || name == "typename".toList then none else some name
  | none => none

/-- The names that a list of template parameters introduces: `class T, typename U = int` gives `T`
and `U`. -/
def templateParams (list : Text) : List Text :=
  (Text.splitTop ',' list).filterMap parameterName?

/-- The words that say how a base class is inherited and not what it is. -/
def baseDecorations : List Text :=
  ["public".toList, "private".toList, "protected".toList, "virtual".toList]

/-- A base class without its decorations. -/
def baseName (base : Text) : Text :=
  Text.join [' '] ((Text.topWords base).filter fun w => !baseDecorations.contains w)

/-- The base classes that a list behind the colon names. -/
def baseNames (list : Text) : List Text :=
  ((Text.splitTop ',' list).map baseName).filter fun base => !base.isEmpty

/-- The name of a class from what stands before the colon: its last word that is neither `final` nor
an alignment. -/
def titleName (head : Text) : Text :=
  ((Text.topWords head).filter fun w =>
    w != "final".toList && !Text.startsWith "alignas".toList w).getLastD []

/-- A preamble without its brace. -/
def titleText (preamble : Text) : Text :=
  Text.trim (Text.dropEnd (· == '\x7b') (Text.trim preamble))

/-- The template parameters in front of a class, and the text behind them. -/
def splitTemplate (t : Text) : List Text × Text :=
  match Text.afterPrefix? "template".toList t with
  | some rest =>
    let rest := Text.trimStart rest
    match rest, Text.closeOf? '<' '>' 0 rest with
    | '<' :: inner, some close =>
      (templateParams (inner.take (close - 1)), Text.trimStart (inner.drop close))
    | _, _ => ([], t)
  | none => ([], t)

/-- What a preamble says about its class. -/
def classTitle (preamble : Text) : ClassTitle :=
  let (params, t) := splitTemplate (titleText preamble)
  let t :=
    Text.trim
      (((Text.afterPrefix? "class".toList t).or (Text.afterPrefix? "struct".toList t)).getD t)
  match Text.cutAtColon? t with
  | some (head, list) => ⟨titleName head, baseNames list, params⟩
  | none => ⟨titleName t, [], params⟩

/-- The name that a preamble gives its namespace; nothing for an anonymous one. -/
def namespaceName (preamble : Text) : Text :=
  let t := Text.trim (Text.withoutPrefix "inline".toList (titleText preamble))
  Text.trim (Text.withoutPrefix "namespace".toList t)

end AccessorCatalog.Outline

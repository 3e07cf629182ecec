/-
# Reading a data member declaration

`decodeMember` reads one declarator such as `static const int kMax=3` or `double x_[3]`: its
initialiser and bit width are dropped, the last word is the name, and decorations and array suffixes
go to the type.  `decodeMembers` reads `int a, b[2]`: every declarator after the first shares the
leading type of the first, without its decorations.
-/
import AccessorCatalog.Declaration.Method

namespace AccessorCatalog.Declaration

/-- The words that say how a member is stored and not what it is. -/
def memberSpecifiers : List Text :=
  ["static".toList, "mutable".toList, "inline".toList, "constexpr".toList, "volatile".toList]

/-- A name with its leading decorations, as the decorations and the rest. -/
def splitDecorations (name : Text) : Text × Text :=
  name.span fun c => c == '*' || c == '&'

/-- The declarator without initialiser and bit width, in single blanks. -/
def plainDeclarator (text : Text) : Text :=
  let t := singleBlanks (Text.dropEnd (· == ';') (Text.trim text))
  let t := Text.beforeChar '\x7b' (Text.beforeTop '=' t)
  match Text.cutAtColon? t with
  | some (left, _) => left
  | none => t

/-- Decodes one data member declarator. -/
def decodeMember (text : Text) : Except ParseError Member :=
  let t := plainDeclarator text
  let words := (Text.topWords t).dropWhile memberSpecifiers.contains
  if words.length < 2 then .error (.undecodable t)
  else
    let (decorations, name) := splitDecorations (words.getLastD [])
    let (name, suffix) := splitArraySuffix name
    if name.isEmpty then .error (.undecodable t)
    else .ok ⟨tidyType (Text.join [' '] words.dropLast ++ decorations ++ suffix), name⟩

/-- The type that the later declarators of a declaration share: no decorations, no array suffix. -/
def sharedType (first : Member) : Text :=
  Text.beforeChar '[' (Text.dropEnd (fun c => c == '*' || c == '&') first.type)

/-- Decodes a declaration into one member for each of its declarators. -/
def decodeMembers (text : Text) : Except ParseError (List Member) :=
  match Text.splitTop ',' text with
  | [] => .error (.undecodable text)
  | first :: others => do
    let member ← decodeMember first
    let others ← others.mapM fun d => decodeMember (sharedType member ++ ' ' :: Text.trim d)
    return member :: others

end AccessorCatalog.Declaration

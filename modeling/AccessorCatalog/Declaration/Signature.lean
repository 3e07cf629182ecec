/-
# Signatures

What a declaration of a class says, taken apart: a method has a return type, a name, arguments and a
qualifier behind its parentheses; a data member has a type and a name.  All parts are texts.

`canonical` is the spelling under which two signatures count as the same: single blanks, none before
a `>`, and `std::string` for its spelled-out template.  `Signature.dedupKey` is the canonical
spelling of return type, name and argument types.
-/
import AccessorCatalog.ClassName

namespace AccessorCatalog.Declaration

/-! ## 1. Parts of a declaration -/

/-- An argument of a method. -/
structure Argument where
  type : Text
  name : Text
  default? : Option Text
  deriving DecidableEq, Repr

/-- A method. -/
structure Signature where
  returnType : Text
  name : Text
  args : List Argument
  qualifier : Text
  deriving DecidableEq, Repr

/-- A data member. -/
structure Member where
  type : Text
  name : Text
  deriving DecidableEq, Repr

/-- What a method is to the class that declares it. -/
inductive MethodKind where
  | plain
  | constructor
  | destructor
  | operator
  deriving DecidableEq, Repr

/-! ## 2. The canonical spelling -/

/-- The text without the blank in front of a `>`. -/
def closeAngles : Text → Text
  | ' ' :: '>' :: t => '>' :: closeAngles t
  | c :: t => c :: closeAngles t
  | [] => []

/-- The canonical spelling of a type or a signature. -/
def canonical (t : Text) : Text :=
  let t := closeAngles (Text.join [' '] (Text.words t))
  let t := Text.replace
    "std::basic_string<char, std::char_traits<char>, std::allocator<char>>".toList
    "std::string".toList t
  Text.replace "std::basic_string<char>".toList "std::string".toList t

/-! ## 3. Arguments -/

/-- `type name=default`, without the parts that are missing. -/
def Argument.render (a : Argument) : Text :=
  a.type ++ (if a.name.isEmpty then [] else ' ' :: a.name) ++
    (match a.default? with
      | some value => '=' :: value
      | none => [])

/-! ## 4. Methods -/

namespace Signature

/-- The types of the arguments. -/
def argTypes (s : Signature) : List Text :=
  s.args.map Argument.type

/-- The number of leading arguments that a caller has to give. -/
def requiredArgs (s : Signature) : Nat :=
  (s.args.takeWhile fun a => a.default?.isNone).length

/-- The number of arguments that a caller may leave out. -/
def defaultedArgs (s : Signature) : Nat :=
  s.args.length - s.requiredArgs

/-- What the method is to a class of the given name. -/
def kind (s : Signature) (className : Text) : MethodKind :=
  let short := ClassName.withoutArguments (ClassName.short className)
  if ClassName.isOperator s.name then .operator
  else if s.name = short then .constructor
  else if s.name = '~' :: short then .destructor
  else .plain

/-- A name applied to a list of arguments. -/
def applied (name : Text) (args : List Text) : Text :=
  name ++ '(' :: Text.join ", ".toList args ++ [')']

/-- The method as a declaration. -/
def render (s : Signature) : Text :=
  Text.trim
    (s.returnType ++ ' ' :: applied s.name (s.args.map Argument.render) ++ ' ' :: s.qualifier)

/-- The key under which two signatures count as the same method. -/
def dedupKey (s : Signature) : Text :=
  canonical (s.returnType ++ ' ' :: applied s.name s.argTypes)

end Signature
end AccessorCatalog.Declaration

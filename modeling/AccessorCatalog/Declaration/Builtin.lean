/-
# Builtin types

The types that a generated accessor can hold as they are: the arithmetic types, their aliases, and
strings.  A *spelling* is one of the names in the table; `startsWithBuiltin` asks whether a text
starts with one of them as a whole word.
-/
import AccessorCatalog.Text.Pattern

namespace AccessorCatalog.Declaration

/-! ## 1. The table -/

/-- The arithmetic types, each with an alias. -/
def arithmeticTypes : List (String × String) :=
  [("char", "Char_t"), ("unsigned char", "UChar_t"), ("short", "Short_t"),
    ("unsigned short", "UShort_t"), ("int", "Int_t"), ("unsigned int", "UInt_t"),
    ("int", "Seek_t"), ("long", "Long_t"), ("unsigned long", "ULong_t"), ("float", "Float_t"),
    ("float", "Float16_t"), ("double", "Double_t"), ("double", "Double32_t"), ("char", "Text_t"),
    ("bool", "Bool_t"), ("unsigned char", "Byte_t"), ("short", "Version_t"),
    ("const char", "Option_t"), ("int", "Ssiz_t"), ("float", "Real_t"), ("long long", "Long64_t"),
    ("unsigned long long", "ULong64_t"), ("double", "Axis_t"), ("double", "Stat_t"),
    ("short", "Font_t"), ("short", "Style_t"), ("short", "Marker_t"), ("short", "Width_t"),
    ("short", "Color_t"), ("short", "SCoord_t"), ("double", "Coord_t"), ("float", "Angle_t"),
    ("float", "Size_t")]

/-- The types that stand beside the arithmetic ones. -/
def stringTypes : List String :=
  ["size_t", "string", "std::string"]

/-- Every spelling of a builtin type. -/
def builtinSpellings : List Text :=
  (stringTypes ++ arithmeticTypes.flatMap fun (name, other) => [name, other]).map String.toList

/-! ## 2. Questions about a type -/

/-- Whether a text starts with a builtin spelling that ends at a word boundary. -/
def hasBuiltinHead (t : Text) : Bool :=
  (Text.keyword? builtinSpellings t).isSome

/-- Whether a word starts with a builtin type. -/
def startsWithBuiltin (word : Text) : Bool :=
  hasBuiltinHead (Text.trim word)

/-- Whether an accessor can take or return a type as it is: a builtin type, with `const` in front or
a reference behind it or not.  Of the pointers, only C strings are. -/
def isSimpleType (type : Text) : Bool :=
  let core := Text.trim (Text.withoutPrefix "const ".toList (Text.trim type))
  let core := Text.trimEnd (Text.withoutSuffix ['&'] core)
  match Text.beforeSuffix? ['*'] core with
  | some pointee => Text.trimEnd pointee == "char".toList
  | none => hasBuiltinHead core

/-- Whether a word can never name a class: it starts with a digit, with `void` or with a builtin
spelling. -/
def isFundamentalWord (word : Text) : Bool :=
  (match word with
    | c :: _ => c.isDigit
    | [] => false) ||
    Text.startsWith "void".toList word || builtinSpellings.any fun s => Text.startsWith s word

end AccessorCatalog.Declaration

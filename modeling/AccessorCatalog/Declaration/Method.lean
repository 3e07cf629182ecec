/-
# Reading a method declaration

`decodeMethod` takes a declaration apart by its words; it is no parser of the language.  The
argument list starts at the first word that begins with `(` and does not stand inside an unclosed
template bracket, it ends with the last `)`, and what follows is the qualifier.  Before that come
the specifiers, which are dropped, the return type and the name.

An argument can be a callback, `double (*f)(int)`: its parts are decoded as a method again, with a
mark in place of the callback's name.  Each such step uses up an opening parenthesis, so the number
of parentheses of the text bounds the depth.
-/
import AccessorCatalog.Declaration.Builtin
import AccessorCatalog.Declaration.Signature
import AccessorCatalog.ParseError
import AccessorCatalog.Source.Spacing
import AccessorCatalog.Text.Nesting

namespace AccessorCatalog.Declaration

open Text (Pattern countWhile isBlank isWord)
open Source (canonicalSpacing joinOperatorName)

/-! ## 1. Types -/

/-- A decoration or an array bracket with blanks before it, or a template bracket with blanks behind
it. -/
def looseDecoration : Pattern := fun _ t =>
  match countWhile isBlank t with
  | 0 => Source.blankBehind ['<'] none t
  | n + 1 =>
    match t.drop (n + 1) with
    | c :: _ => if c == '*' || c == '&' || c == '[' then some (n + 2) else none
    | [] => none

/-- Every run of blanks becomes one blank. -/
def singleBlanks (t : Text) : Text :=
  Text.replaceMatches Source.blankRun (fun _ => [' ']) t

/-- A type with its decorations and brackets against it: `const double &` gives `const double&`. -/
def tidyType (type : Text) : Text :=
  Text.replaceMatches looseDecoration Source.solid (singleBlanks (Text.trim type))

/-- A name with an array suffix, as the name and the suffix: `x[3]` gives `x` and `[3]`. -/
def splitArraySuffix (name : Text) : Text × Text :=
  match Text.cutFirst? ['['] name, Text.cutLast? [']'] name with
  | some (base, _), some (body, _) =>
    if base.length < body.length then (base, body.drop base.length ++ [']']) else (name, [])
  | _, _ => (name, [])

/-! ## 2. Arguments -/

/-- A decoration in front of a letter. -/
def decorationBeforeName : Pattern := fun _ t =>
  match t with
  | d :: c :: _ => if (d == '*' || d == '&') && Text.isAsciiLetter c then some 2 else none
  | _ => none

/-- The fields of an argument list. -/
def splitArguments (args : Text) : List Text :=
  (Text.splitTop ',' args).map Text.trim

/-- Whether the last word of a field belongs to its type, so that the field names no argument. -/
def isTypeWord (word : Text) : Bool :=
  Text.endsWith ['*'] word || Text.endsWith ['&'] word || word == "const".toList ||
    startsWithBuiltin word

/-- A character of the type words in front of a callback. -/
def isCallbackPart (c : Char) : Bool :=
  isWord c || c == '*' || c == '&' || c == ':'

/-- The length of the type words before the parenthesis of a callback, each with blanks behind
it. -/
def callbackHead : Text → Nat
  | [] => 0
  | c :: t =>
    if isCallbackPart c then
      let part := countWhile isCallbackPart t
      match countWhile isBlank (t.drop part) with
      | 0 => 0
      | gap + 1 => 1 + part + (gap + 1) + callbackHead (t.drop (part + (gap + 1)))
    else 0
termination_by t => t.length
decreasing_by simp only [List.length_cons, List.length_drop]; omega

/-- The name of a callback in parentheses, `(*f)` or `(C::*f)`, at the start of a text, with the
text behind it. -/
def callbackName? (t : Text) : Option (Text × Text) := do
  let t ← Text.afterPrefix? ['('] t
  let t := Text.trimStart t
  let t ← match t.takeWhile isWord with
    | [] => some t
    | scope => Text.afterPrefix? "::".toList (t.drop scope.length)
  let t ← Text.afterPrefix? ['*'] (Text.trimStart t)
  let t := Text.trimStart t
  let name := t.takeWhile isWord
  let rest ← Text.afterPrefix? [')'] (Text.trimStart (t.drop name.length))
  if name.isEmpty then none else some (name, rest)

/-- The mark that stands for the name of a callback. -/
def callbackMark : Text :=
  "CALLB_".toList

/-- The name of the callback that a field declares, and the field as a method of a marked name. -/
def callback? (field : Text) : Option (Text × Text) :=
  match callbackHead field with
  | 0 => none
  | n + 1 =>
    match callbackName? (field.drop (n + 1)) with
    | some (name, rest) =>
      match Text.trimStart rest with
      | '(' :: args =>
        if args.contains ')' then some (name, field.take (n + 1) ++ callbackMark ++ rest) else none
      | _ => none
    | none => none

/-- The type of a callback with the given signature. -/
def callbackType (s : Signature) : Text :=
  s.returnType ++ " (*)(".toList ++ Text.join ", ".toList s.argTypes ++ [')'] ++
    (if s.qualifier.isEmpty then [] else ' ' :: s.qualifier)

/-- A field as a declaration and a default value. -/
def splitDefault (field : Text) : Text × Option Text :=
  match Text.cutFirst? ['='] field with
  | some (decl, value) =>
    (Text.trim decl, some (Text.replace " (".toList ['('] (canonicalSpacing (Text.trim value))))
  | none => (Text.trim field, none)

/-- The type and the name that the words of a declaration give. -/
def splitTypeAndName (words : List Text) : Text × Text :=
  match words with
  | [] => ([], [])
  | [only] => (only, [])
  | first :: _ =>
    let last := words.getLastD []
    if isTypeWord last || (first == "const".toList && words.length == 2) then
      (Text.join [' '] words, [])
    else (Text.join [' '] words.dropLast, last)

/-- Decodes one field of an argument list; `decode` reads the parts of a callback. -/
def decodeArgument (decode : Text → Except ParseError Signature) (field : Text) :
    Except ParseError Argument :=
  let field := Text.replaceMatches decorationBeforeName (fun m => m.take 1 ++ ' ' :: m.drop 1) field
  let (decl, default?) := splitDefault field
  match callback? decl with
  | some (name, inner) => do
    let s ← decode inner
    return ⟨callbackType s, name, default?⟩
  | none =>
    let (type, name) := splitTypeAndName (Text.topWords decl)
    let (name, suffix) := splitArraySuffix name
    .ok ⟨tidyType (type ++ suffix), name, default?⟩

/-! ## 3. The words of a declaration -/

/-- A keyword followed by empty parentheses. -/
def emptyCall (keyword : Text) : Pattern := fun before t =>
  if Text.atBoundary before t then
    (Text.afterPrefix? keyword t).bind fun t =>
      let gap := countWhile isBlank t
      match t.drop gap with
      | '(' :: t =>
        let inside := countWhile isBlank t
        match t.drop inside with
        | ')' :: _ => some (keyword.length + gap + 1 + inside + 1)
        | _ => none
      | _ => none
  else none

/-- The mark that stands for `throw()` while the parentheses are read. -/
def throwMark : Text :=
  "throwPP".toList

/-- The mark that stands for the call operator while the parentheses are read. -/
def callOperatorMark : Text :=
  "operator@call".toList

/-- Whether a character is a blank or a tab. -/
def isGap (c : Char) : Bool :=
  c == ' ' || c == '\t'

/-- An opening bracket with the blanks and tabs behind it. -/
def openWithGap (bracket : Char) : Pattern := fun _ t =>
  match t with
  | c :: t => if c = bracket then some (1 + countWhile isGap t) else none
  | [] => none

/-- A closing bracket with the blanks and tabs before it, of which there is at least one. -/
def gapWithClose (bracket : Char) : Pattern := fun _ t =>
  match countWhile isGap t with
  | 0 => none
  | n + 1 => if (t.drop (n + 1)).head? = some bracket then some (n + 2) else none

/-- The declaration with marks for `throw()` and the call operator, in canonical spacing, and with a
blank before every opening bracket. -/
def spreadBrackets (t : Text) : Text :=
  let t := Text.replaceMatches (emptyCall "throw".toList) (fun _ => throwMark) t
  let t := Text.replaceMatches (emptyCall "operator".toList) (fun _ => callOperatorMark) t
  let t := joinOperatorName (canonicalSpacing t)
  let t := Text.replaceMatches (openWithGap '(') (fun _ => [' ', '(']) t
  let t := Text.replaceMatches (gapWithClose ')') (fun _ => [')', ' ']) t
  let t := Text.replaceMatches (openWithGap '[') (fun _ => [' ', '[']) t
  let t := Text.replaceMatches (gapWithClose ']') (fun _ => [']', ' ']) t
  Text.trim (singleBlanks t)

/-- What a qualifier says beyond what a caller sees: `=0`, `=default`, `=delete`, `override` and
`final`. -/
def unseenQualifier : Pattern := fun before t =>
  match t with
  | '=' :: t =>
    let gap := countWhile isBlank t
    (Text.keyword? ["0".toList, "default".toList, "delete".toList] (t.drop gap)).map (1 + gap + ·)
  | _ =>
    if Text.atBoundary before t then Text.keyword? ["override".toList, "final".toList] t else none

/-- The qualifier that the text behind the argument list gives. -/
def readQualifier (t : Text) : Text :=
  let t := t.filter (· != ';')
  let t := Text.replaceMatches unseenQualifier (fun _ => []) t
  Text.replace throwMark "throw()".toList (singleBlanks (Text.trim t))

/-- Whether a word leaves a template bracket open. -/
def leavesAngleOpen (word : Text) : Bool :=
  word.count '<' > word.count '>'

/-- The words before the argument list and the words of the list, the first of which starts with the
opening parenthesis.  `before` is the word in front. -/
def splitAtArguments? (before : Option Text) : List Text → Option (List Text × List Text)
  | [] => none
  | word :: words =>
    let opens := Text.startsWith ['('] word &&
      match before with
      | some w => ClassName.isOperator w || !leavesAngleOpen w
      | none => true
    if opens then some ([], word :: words)
    else (splitAtArguments? (some word) words).map fun (head, list) => (word :: head, list)

/-- The words that say how a method is declared and not what it is. -/
def specifiers : List Text :=
  ["virtual".toList, "static".toList, "inline".toList, "explicit".toList, "constexpr".toList,
    "friend".toList, "extern".toList]

/-- The words behind the leading specifiers and attributes. -/
def withoutSpecifiers (words : List Text) : List Text :=
  words.dropWhile fun w => specifiers.contains w || Text.startsWith "[[".toList w

/-- The return type and the name that the words before the argument list give. -/
def splitReturnAndName (words : List Text) : Text × Text :=
  let type := words.takeWhile fun w => !ClassName.isOperator w
  if type.length < words.length then
    (Text.join [' '] type, (words.drop type.length).flatten)
  else (Text.join [' '] words.dropLast, words.getLastD [])

/-- The text between the parentheses of an argument list, from its words. -/
def insideParentheses (words : List Text) : Text :=
  Text.trim ((Text.join [' '] words).drop 1).dropLast

/-- Whether an argument list is the single word `void`. -/
def isVoidList : List Argument → Bool
  | [only] => only.type == "void".toList && only.name.isEmpty && only.default?.isNone
  | _ => false

/-! ## 4. The method -/

/-- Decodes a method; `decode` reads the parts of a callback among its arguments. -/
def decodeMethodWith (decode : Text → Except ParseError Signature) (text : Text) :
    Except ParseError Signature :=
  match Text.cutLast? [')'] (spreadBrackets text) with
  | none => .error (.undecodable text)
  | some (declarator, tail) =>
    let declarator := Text.replace " [".toList ['['] (declarator ++ [')'])
    let declarator := Text.replace " <".toList ['<'] declarator
    match splitAtArguments? none (Text.words declarator) with
    | none => .error (.undecodable text)
    | some ([], _) => .error (.undecodable text)
    | some (head, list) => do
      let inside := insideParentheses list
      let fields := if inside.isEmpty then [] else splitArguments inside
      let args ← fields.mapM (decodeArgument decode)
      let args := if isVoidList args then [] else args
      let (type, name) := splitReturnAndName (withoutSpecifiers head)
      let name := Text.replace callOperatorMark "operator()".toList name
      if name.isEmpty then .error (.undecodable text)
      else .ok ⟨tidyType type, name, args, readQualifier tail⟩

/-- Decodes a method with callbacks nested at most `depth - 1` deep. -/
def decodeMethodWithin : (depth : Nat) → Text → Except ParseError Signature
  | 0, text => .error (.undecodable text)
  | depth + 1, text => decodeMethodWith (decodeMethodWithin depth) text

/-- Decodes one method declaration.  A text without an opening parenthesis declares no method. -/
def decodeMethod (text : Text) : Except ParseError Signature :=
  decodeMethodWithin (text.count '(') text

end AccessorCatalog.Declaration

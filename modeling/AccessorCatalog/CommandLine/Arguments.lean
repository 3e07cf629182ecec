/-
# Arguments

The arguments of a program are options and plain arguments.  An option has a long name, written
behind two hyphens, and perhaps a letter, written behind one; it is a flag or takes a value, which
stands behind an equals sign or is the next argument.  Behind a lone double hyphen everything is
plain.

`Usage` says which options there are and what their values and the plain arguments have to be.
`Usage.read` reads arguments from the left and stops at the first that is no part of the usage, or
at a call for help.
-/
import AccessorCatalog.Text.Basic

namespace AccessorCatalog.CommandLine

/-! ## 1. Values -/

/-- What a value has to be. -/
inductive ValueKind where
  | text
  /-- A path, which is not empty. -/
  | path
  /-- A number below 2^64, perhaps behind a plus sign. -/
  | count
  deriving DecidableEq, Repr

/-- The number that a value of kind `count` denotes. -/
def countOf? (value : Text) : Option Nat :=
  Text.toCount? (Text.withoutPrefix ['+'] value)

/-- Whether a value is of a kind. -/
def ValueKind.accepts : ValueKind → Text → Bool
  | text, _ => true
  | path, value => !value.isEmpty
  | count, value => (countOf? value).isSome

/-! ## 2. Usages -/

/-- An option; without a kind of value it is a flag. -/
structure OptionSpec where
  name : Text
  letter? : Option Char
  value? : Option ValueKind
  deriving DecidableEq, Repr

/-- The plain arguments that a usage allows. -/
inductive PlainUsage where
  /-- The first plain argument ends the reading. -/
  | stop
  | none
  /-- Some of given kinds, and then any number of paths. -/
  | paths (first : List ValueKind)
  deriving DecidableEq, Repr

/-- What arguments may be given. -/
structure Usage where
  options : List OptionSpec
  plain : PlainUsage
  deriving DecidableEq, Repr

namespace Usage

/-- The option with a long name. -/
def option? (u : Usage) (name : Text) : Option OptionSpec :=
  u.options.find? fun o => o.name == name

/-- The flag with a letter. -/
def flag? (u : Usage) (letter : Char) : Option OptionSpec :=
  u.options.find? fun o => o.letter? == some letter && o.value?.isNone

/-- The kind that the plain argument with `n` others before it has to be of. -/
def plainKind? (u : Usage) (n : Nat) : Option ValueKind :=
  match u.plain with
  | .paths first => some (first[n]?.getD .path)
  | _ => Option.none

end Usage

/-! ## 3. Reading -/

/-- Why the reading of arguments ends early. -/
inductive Halt where
  | help
  /-- The arguments are not as the usage says. -/
  | misuse
  deriving DecidableEq, Repr

/-- Arguments that have been read: the options with the values of those that take one, and the plain
arguments. -/
structure Arguments where
  options : List (Text × Text)
  plain : List Text
  deriving DecidableEq, Repr

namespace Arguments

/-- No arguments. -/
def empty : Arguments :=
  ⟨[], []⟩

/-- Whether an option is given. -/
def has (a : Arguments) (name : String) : Bool :=
  (a.options.lookup name.toList).isSome

/-- The value of an option. -/
def value? (a : Arguments) (name : String) : Option Text :=
  a.options.lookup name.toList

/-- Adds an option, which must not be there. -/
def addOption (a : Arguments) (name value : Text) : Except Halt Arguments :=
  if (a.options.lookup name).isSome then .error .misuse
  else .ok { a with options := a.options ++ [(name, value)] }

/-- Adds a flag. -/
def addFlag (a : Arguments) (o : OptionSpec) : Except Halt Arguments :=
  if o.value?.isSome then .error .misuse else a.addOption o.name []

/-- Adds an option with its value. -/
def addValue (a : Arguments) (o : OptionSpec) (value : Text) : Except Halt Arguments :=
  match o.value? with
  | some kind => if kind.accepts value then a.addOption o.name value else .error .misuse
  | none => .error .misuse

/-- Adds a plain argument. -/
def addPlain (u : Usage) (a : Arguments) (value : Text) : Except Halt Arguments :=
  match u.plainKind? a.plain.length with
  | some kind =>
    if kind.accepts value then .ok { a with plain := a.plain ++ [value] } else .error .misuse
  | none => .error .misuse

/-- Adds the flags of some letters; the letter `h` calls for help. -/
def addLetters (u : Usage) (a : Arguments) : Text → Except Halt Arguments
  | [] => .ok a
  | 'h' :: _ => .error .help
  | letter :: letters =>
    match u.flag? letter with
    | some o => do addLetters u (← a.addFlag o) letters
    | none => .error .misuse

end Arguments

/-- What an argument is, by its looks. -/
inductive ArgumentForm where
  | separator
  | long (name : Text)
  | longWithValue (name value : Text)
  | letters (letters : Text)
  | plain
  deriving DecidableEq, Repr

/-- The form of an argument.  A lone hyphen is plain. -/
def ArgumentForm.of : Text → ArgumentForm
  | ['-', '-'] => separator
  | '-' :: '-' :: body =>
    match Text.cutFirst? ['='] body with
    | some (name, value) => longWithValue name value
    | none => long body
  | '-' :: c :: more => .letters (c :: more)
  | _ => plain

/-- The name of the option that calls for help. -/
def helpName : Text :=
  "help".toList

/-- Reads arguments into `a`; the second part of the result is what the reading leaves, nothing
unless the first plain argument ends it. -/
def Usage.read (u : Usage) (a : Arguments) : List Text → Except Halt (Arguments × List Text)
  | [] => .ok (a, [])
  | argument :: rest =>
    match ArgumentForm.of argument with
    | .separator => do return (← rest.foldlM (Arguments.addPlain u) a, [])
    | .plain =>
      if u.plain = .stop then .ok (a, argument :: rest)
      else do u.read (← a.addPlain u argument) rest
    | .letters letters => do u.read (← a.addLetters u letters) rest
    | .longWithValue name value =>
      match u.option? name with
      | some o => do u.read (← a.addValue o value) rest
      | none => .error .misuse
    | .long name =>
      match u.option? name, rest with
      | none, _ => .error (if name = helpName then .help else .misuse)
      | some ⟨_, _, none⟩, rest => do u.read (← a.addOption name []) rest
      | some _, [] => .error .misuse
      | some o, value :: rest =>
        if ArgumentForm.of value = .plain then do u.read (← a.addValue o value) rest
        else .error .misuse
termination_by arguments => arguments.length

end AccessorCatalog.CommandLine

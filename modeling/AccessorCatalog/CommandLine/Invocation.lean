/-
# Invocations

What the program is asked to do: one of four commands, with the settings file to use.
`Invocation.read` reads it from the arguments.  The options `--verbose` and `--config` may stand
before the command or behind it; behind it they count.
-/
import AccessorCatalog.CommandLine.Arguments

namespace AccessorCatalog.CommandLine

/-- What is scanned. -/
structure ScanOptions where
  roots : List Text
  jobs? : Option Nat
  deriving DecidableEq, Repr

/-- The commands with their options. -/
inductive Command where
  /-- Writes the class map. -/
  | map (scan : ScanOptions) (out : Text) (update : Bool)
  /-- Writes the class map and the catalogs. -/
  | catalog (scan : ScanOptions) (outFolder : Text) (oracle? previous? report? : Option Text)
  /-- Prints the catalog of one class. -/
  | showClass (className : Text) (scan : ScanOptions) (oracle? : Option Text)
  /-- Writes a class list. -/
  | classList (map classes : Text) (exclude? : Option Text) (out : Text)
  deriving DecidableEq, Repr

/-- A command with the settings file to use. -/
structure Invocation where
  settings? : Option Text
  command : Command
  deriving DecidableEq, Repr

/-! ## 1. Usages of the commands -/

/-- The name of the class map's file if nothing else is said. -/
def classMapFile : Text :=
  "classmap.json".toList

/-- The name of the class list's file if nothing else is said. -/
def classListFile : Text :=
  "classlist.txt".toList

/-- An option that takes a value. -/
def valueOption (name : String) (kind : ValueKind) : OptionSpec :=
  ⟨name.toList, none, some kind⟩

/-- The options that may stand everywhere. -/
def globalOptions : List OptionSpec :=
  [⟨"verbose".toList, some 'v', none⟩, valueOption "config" .path]

/-- The usage of what stands before the command. -/
def topUsage : Usage :=
  ⟨globalOptions, .stop⟩

/-- The usage of `map`. -/
def mapUsage : Usage :=
  ⟨globalOptions ++
    [valueOption "jobs" .count, valueOption "out" .path, ⟨"update".toList, none, none⟩], .paths []⟩

/-- The usage of `catalog`. -/
def catalogUsage : Usage :=
  ⟨globalOptions ++
    [valueOption "jobs" .count, valueOption "out-dir" .path, valueOption "oracle" .path,
      valueOption "previous" .path, valueOption "report" .path], .paths []⟩

/-- The usage of `show`. -/
def showUsage : Usage :=
  ⟨globalOptions ++ [valueOption "jobs" .count, valueOption "oracle" .path], .paths [.text]⟩

/-- The usage of `classlist`. -/
def classListUsage : Usage :=
  ⟨globalOptions ++
    [valueOption "map" .path, valueOption "classes" .path, valueOption "exclude" .path,
      valueOption "out" .path], .none⟩

/-! ## 2. Commands from arguments -/

/-- The scan that some roots and options ask for; there is at least one root. -/
def scanOptions? (roots : List Text) (a : Arguments) : Option ScanOptions :=
  if roots.isEmpty then none else some ⟨roots, (a.value? "jobs").bind countOf?⟩

/-- The command `map`. -/
def mapCommand? (a : Arguments) : Option Command := do
  let scan ← scanOptions? a.plain a
  return .map scan ((a.value? "out").getD classMapFile) (a.has "update")

/-- The command `catalog`. -/
def catalogCommand? (a : Arguments) : Option Command := do
  let scan ← scanOptions? a.plain a
  return .catalog scan ((a.value? "out-dir").getD ['.']) (a.value? "oracle") (a.value? "previous")
    (a.value? "report")

/-- The command `show`. -/
def showCommand? (a : Arguments) : Option Command := do
  let scan ← scanOptions? (a.plain.drop 1) a
  return .showClass (← a.plain.head?) scan (a.value? "oracle")

/-- The command `classlist`. -/
def classListCommand? (a : Arguments) : Option Command := do
  let classes ← a.value? "classes"
  return .classList ((a.value? "map").getD classMapFile) classes (a.value? "exclude")
    ((a.value? "out").getD classListFile)

/-- A command as it is called: its name, its usage, and what its arguments ask for. -/
structure CommandSpec where
  name : Text
  usage : Usage
  command? : Arguments → Option Command

/-- The commands of the program. -/
def commandSpecs : List CommandSpec :=
  [⟨"map".toList, mapUsage, mapCommand?⟩,
    ⟨"catalog".toList, catalogUsage, catalogCommand?⟩,
    ⟨"show".toList, showUsage, showCommand?⟩,
    ⟨"classlist".toList, classListUsage, classListCommand?⟩]

/-- The command with a name. -/
def commandSpec? (name : Text) : Option CommandSpec :=
  commandSpecs.find? fun spec => spec.name == name

/-- What asking for help on some topics comes to: help on the program or on one command. -/
def helpOn : List Text → Halt
  | [] => .help
  | [topic] => if topic = helpName ∨ (commandSpec? topic).isSome then .help else .misuse
  | _ => .misuse

/-- Reads the arguments of the program. -/
def Invocation.read (arguments : List Text) : Except Halt Invocation := do
  let (top, rest) ← topUsage.read .empty arguments
  match rest with
  | [] => .error .misuse
  | name :: rest =>
    if name = helpName then .error (helpOn rest)
    else
      match commandSpec? name with
      | none => .error .misuse
      | some spec =>
        let (inner, _) ← spec.usage.read .empty rest
        match spec.command? inner with
        | some command => .ok ⟨(inner.value? "config").or (top.value? "config"), command⟩
        | none => .error .misuse

end AccessorCatalog.CommandLine

/-
# Running a command

`run` does what the arguments of the program ask for, on a file tree.  Its outcome says how the
program ends, what it prints, and what the tree is afterwards.  The time of creation is given, so
the outcome depends on nothing else.
-/
import AccessorCatalog.Catalog.Shelf
import AccessorCatalog.ClassMap.ClassList
import AccessorCatalog.ClassMap.Document
import AccessorCatalog.CommandLine.Action
import AccessorCatalog.CommandLine.Invocation
import AccessorCatalog.Survey.Output

namespace AccessorCatalog.CommandLine

open Files (FileTree)
open Reflection (Dump Oracle)

/-! ## 1. Surveys -/

/-- The settings of a run. -/
def loadSettings : Option Text → Action Settings
  | some path => Action.load .settings Settings.parse? path
  | none => return {}

/-- The oracle of a run. -/
def loadOracle : Option Text → Action Oracle
  | some path => return (← Action.load .dump Dump.parse? path).oracle
  | none => return Oracle.ignorant

/-- A survey that has read no header; all its roots are there. -/
def startSurvey (settings : Settings) (scan : ScanOptions) (oracle? : Option Text) :
    Action Survey := do
  for root in scan.roots do
    Action.require (.missingRoot root) (·.isThere root)
  let oracle ← loadOracle oracle?
  return .start { settings with jobs? := scan.jobs?.or settings.jobs? } oracle

/-- Scans the roots of a survey. -/
def scanRoots (s : Survey) (scan : ScanOptions) : Action Survey := do
  match s.scanRoots (← get) scan.roots with
  | (s, none) => return s
  | (_, some fault) => throw (.unsearchable fault)

/-- The survey that an existing class map is updated from. -/
def updateMap (s : Survey) (path : Text) : Action Survey := do
  Action.require (.nothingToUpdate path) (·.isThere path)
  let map ← Action.load .classMap ClassMap.parse? path
  return { s with knowledge := s.knowledge.updatingMap map }

/-- The survey that knows the catalogs of an earlier run. -/
def withPrevious (s : Survey) (path : Text) : Action Survey := do
  match (← get).find? path with
  | some (place, .folder) =>
    let listings := Shelf.listings ((← get).children place)
    return { s with knowledge := s.knowledge.withListings listings }
  | _ => throw (.missingPrevious path)

/-! ## 2. Commands -/

/-- Writes the class map. -/
def runMap (settings : Settings) (scan : ScanOptions) (out : Text) (update : Bool) :
    Action Text := do
  let s ← startSurvey settings scan none
  let s ← if update then updateMap s out else pure s
  let s ← scanRoots s scan
  let map := s.knowledge.map
  Action.saveWithFolder .classMap out map.render
  let scanned := s.memory.report.headersScanned
  let failed := s.memory.report.failures.length
  return s!"Mapped {map.size} classes from {scanned} headers ({failed} failed)\n".toList

/-- Writes the class map and the catalogs into a folder. -/
def writeCatalogs (outFolder created : Text) (s : Survey) : Action (Nat × Survey) := do
  let shelf := Files.Path.below outFolder Shelf.name
  match (← get).makeFolders (Files.Path.components shelf) with
  | .ok tree => set tree
  | .error _ => throw (.noShelf outFolder)
  Action.saveWithFolder .classMap (Files.Path.below outFolder classMapFile) s.knowledge.map.render
  let (files, s) := s.run (Survey.catalogFiles created)
  for file in files do
    Action.save .catalog (Files.Path.below shelf file.name) file.text
  return (files.length, s)

/-- Writes the class map, the catalogs and perhaps a report. -/
def runCatalog (created : Text) (settings : Settings) (scan : ScanOptions) (outFolder : Text)
    (oracle? previous? report? : Option Text) : Action Text := do
  let s ← startSurvey settings scan oracle?
  let s ← match previous? with
    | some path => withPrevious s path
    | none => pure s
  let s ← scanRoots s scan
  let (written, s) ← writeCatalogs outFolder created s
  let (report, s) := s.run fun _ => Survey.report
  if let some path := report? then
    Action.save .report path report.toJson.pretty
  let mapped := s.knowledge.map.size
  let failed := report.failures.length
  return s!"Wrote {written} catalogs for {mapped} mapped classes ({failed} headers failed)\n".toList

/-- The text of the catalog of one class. -/
def runShow (created : Text) (settings : Settings) (className : Text) (scan : ScanOptions)
    (oracle? : Option Text) : Action Text := do
  let s ← startSurvey settings scan oracle?
  let s ← scanRoots s scan
  let (found?, _) := s.run (Survey.entry · className)
  let e ← Action.orFail (.unknownClass className) found?
  return Catalog.render e settings.version created

/-- Writes a class list. -/
def runClassList (mapPath classesPath : Text) (excludePath? : Option Text) (out : Text) :
    Action Text := do
  Action.require (.missingClassMap mapPath) (·.isThere mapPath)
  let map ← Action.load .classMap ClassMap.parse? mapPath
  let classes ← Action.readNames classesPath
  let extra ← match excludePath? with
    | some path => Action.readNames path
    | none => pure []
  let entries := ClassList.build classes map (ClassList.exclusions extra)
  Action.saveWithFolder .classList out (ClassList.render entries)
  return s!"Listed {entries.length} of {classes.length} classes in ".toList ++ out ++ ['\n']

/-- Does what an invocation asks for; the result is what is printed. -/
def Invocation.run (created : Text) (i : Invocation) : Action Text := do
  let settings ← loadSettings i.settings?
  match i.command with
  | .map scan out update => runMap settings scan out update
  | .catalog scan outFolder oracle? previous? report? =>
    runCatalog created settings scan outFolder oracle? previous? report?
  | .showClass className scan oracle? => runShow created settings className scan oracle?
  | .classList map classes exclude? out => runClassList map classes exclude? out

/-! ## 3. Outcomes -/

/-- How the program ends. -/
inductive Ending where
  | success
  | failure (failure : Failure)
  /-- The arguments call for help. -/
  | help
  /-- The arguments are not as the usage says. -/
  | misuse
  deriving DecidableEq, Repr

/-- How the program ends, what it prints, and the tree that it leaves. -/
structure Outcome where
  ending : Ending
  printed : Text
  tree : FileTree

/-- The exit code of an ending. -/
def Ending.exitCode : Ending → Nat
  | success | help => 0
  | failure _ => 1
  | misuse => 2

/-- Runs the program on a file tree. -/
def run (created : Text) (tree : FileTree) (arguments : List Text) : Outcome :=
  match Invocation.read arguments with
  | .error .help => ⟨.help, [], tree⟩
  | .error .misuse => ⟨.misuse, [], tree⟩
  | .ok invocation =>
    match (invocation.run created).run tree with
    | (.ok printed, tree) => ⟨.success, printed, tree⟩
    | (.error failure, tree) => ⟨.failure failure, [], tree⟩

end AccessorCatalog.CommandLine

/-
# What a survey remembers

While catalog entries are built, a survey remembers the answers of its oracle, the links of classes
that chains went through, and which overruns it has reported, and it counts what it does.  None of
this is knowledge: it saves work and fills the report.

`Build` is a computation that reads and changes the memory.
-/
import AccessorCatalog.Accessor.Basic
import AccessorCatalog.ClassName
import AccessorCatalog.Reflection.Cache
import AccessorCatalog.RunReport
import AccessorCatalog.Survey.Knowledge

namespace AccessorCatalog.Survey

/-- What is remembered between questions. -/
structure Memory where
  answers : Reflection.Cache
  links : Table (List MethodAccessor)
  /-- The classes whose overrun of the base depth has been reported. -/
  overruns : List Text
  report : RunReport

/-- The memory before any question. -/
def Memory.start : Memory :=
  ⟨.ofCapacity Reflection.Cache.defaultCapacity, .empty, [], {}⟩

/-- A computation that reads and changes the memory. -/
abbrev Build : Type → Type := StateM Memory

/-- Changes the report. -/
def note (change : RunReport → RunReport) : Build Unit :=
  modify fun m => { m with report := change m.report }

/-- Asks the oracle about a class, or remembers its answer. -/
def ask (k : Knowledge) (name : Text) : Build (Option Reflection.ClassInfo) := fun m =>
  let (info?, answers) := m.answers.ask k.oracle name
  (info?, { m with answers })

/-- The first of some names that the oracle knows; the later ones are not asked about. -/
def firstInOracle (k : Knowledge) : List Text → Build (Option Text)
  | [] => return none
  | name :: names => do
    if (← ask k name).isSome then return some name
    else firstInOracle k names

/-- The known class that a name stands for when it is used inside a scope.  The oracle is asked only
if none of the names in question is known otherwise. -/
def resolve (k : Knowledge) (name scope : Text) : Build (Option Text) :=
  let names := ClassName.candidates name scope
  match names.find? k.knows with
  | some known => return some known
  | none => firstInOracle k names

end AccessorCatalog.Survey

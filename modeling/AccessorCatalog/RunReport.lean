/-
# Run reports

A report counts what happened in a run: how many headers were read and which failed, how many
classes were found and cataloged, and how many accessors they offer.  A phase of the run is reported
once it has been started and ended.
-/
import AccessorCatalog.Json.Basic
import AccessorCatalog.Table

namespace AccessorCatalog

/-- A header that could not be read, with the reason. -/
structure HeaderFailure where
  header : Text
  reason : Text
  deriving DecidableEq, Repr

/-- The counts of a run so far. -/
structure RunReport where
  headersScanned : Nat := 0
  failures : List HeaderFailure := []
  classesFound : Nat := 0
  classesCataloged : Nat := 0
  emptyCatalogs : Nat := 0
  methods : Nat := 0
  chainedMethods : Nat := 0
  members : Nat := 0
  undecodable : Nat := 0
  oracleLookups : Nat := 0
  diagnostics : List Text := []
  /-- The phases that have been started and not ended. -/
  running : List Text := []
  /-- The phases that have been ended, in increasing order. -/
  finished : List Text := []
  deriving DecidableEq, Repr

namespace RunReport

/-- Starts a phase. -/
def startPhase (r : RunReport) (phase : Text) : RunReport :=
  if r.running.contains phase then r else { r with running := phase :: r.running }

/-- Ends a phase; one that is not running stays unreported. -/
def endPhase (r : RunReport) (phase : Text) : RunReport :=
  if r.running.contains phase then
    { r with
      running := r.running.filter (· != phase)
      finished :=
        if r.finished.contains phase then r.finished else Text.sort (phase :: r.finished) }
  else r

/-- Counts a header. -/
def addHeader (r : RunReport) : RunReport :=
  { r with headersScanned := r.headersScanned + 1 }

/-- Reports a header that failed. -/
def addFailure (r : RunReport) (header reason : Text) : RunReport :=
  { r with failures := r.failures ++ [⟨header, reason⟩] }

/-- Counts the classes of a header. -/
def addClasses (r : RunReport) (count : Nat) : RunReport :=
  { r with classesFound := r.classesFound + count }

/-- Counts a catalog entry with its numbers of methods, of chained ones among them, and of data
members. -/
def addEntry (r : RunReport) (methods chained members : Nat) : RunReport :=
  { r with
    classesCataloged := r.classesCataloged + 1
    emptyCatalogs := r.emptyCatalogs + if methods = 0 ∧ members = 0 then 1 else 0
    methods := r.methods + methods
    chainedMethods := r.chainedMethods + chained
    members := r.members + members }

/-- Counts a declaration that cannot be decoded. -/
def addUndecodable (r : RunReport) : RunReport :=
  { r with undecodable := r.undecodable + 1 }

/-- Sets the number of questions that reached the oracle. -/
def setLookups (r : RunReport) (lookups : Nat) : RunReport :=
  { r with oracleLookups := lookups }

/-- Reports something that a reader of the run should know. -/
def addDiagnostic (r : RunReport) (diagnostic : Text) : RunReport :=
  { r with diagnostics := r.diagnostics ++ [diagnostic] }

/-- The document of a report. -/
def toJson (r : RunReport) : Json :=
  .record [
    ("headers_scanned", .ofNat r.headersScanned),
    ("headers_failed", .ofNat r.failures.length),
    ("failures", .array (r.failures.map fun f =>
      .record [("header", .text f.header), ("error", .text f.reason)])),
    ("classes_found", .ofNat r.classesFound),
    ("classes_cataloged", .ofNat r.classesCataloged),
    ("empty_catalogs", .ofNat r.emptyCatalogs),
    ("methods", .ofNat r.methods),
    ("compound_methods", .ofNat r.chainedMethods),
    ("data_members", .ofNat r.members),
    ("undecodable_signatures", .ofNat r.undecodable),
    ("oracle_lookups", .ofNat r.oracleLookups),
    ("diagnostics", .texts r.diagnostics),
    ("phases", .texts r.finished)]

end RunReport
end AccessorCatalog

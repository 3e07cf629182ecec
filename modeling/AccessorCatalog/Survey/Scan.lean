/-
# Surveys

A survey is its knowledge with its memory.  `scan` reads headers: it adds their classes to the
knowledge, counts them, and reports headers that cannot be read and inheritance cycles.  The links
remembered before are forgotten, since they may have changed.
-/
import AccessorCatalog.Survey.Entries

namespace AccessorCatalog

/-- What a survey knows and what it remembers. -/
structure Survey where
  knowledge : Survey.Knowledge
  memory : Survey.Memory

namespace Survey

/-- A survey that has read no header. -/
def start (settings : Settings) (oracle : Reflection.Oracle) : Survey :=
  ⟨.start settings oracle, .start⟩

/-- Runs a computation on the memory of a survey. -/
def run {α : Type} (s : Survey) (build : Knowledge → Build α) : α × Survey :=
  let (a, memory) := build s.knowledge s.memory
  (a, { s with memory })

/-- Counts a header and what it holds. -/
def countHeader (r : RunReport) (h : ParsedHeader) : RunReport :=
  match h.outcome with
  | .ok classes => r.addHeader.addClasses classes.length
  | .error e => r.addHeader.addFailure h.path e.message

/-- Reports the inheritance cycles of a graph. -/
def reportCycles (r : RunReport) (g : InheritanceGraph) : RunReport :=
  g.cycles.foldl
    (fun r cycle => r.addDiagnostic ("inheritance cycle: ".toList ++ Text.join ", ".toList cycle)) r

/-- Adds headers that have been read. -/
def merge (s : Survey) (headers : List ParsedHeader) : Survey :=
  let knowledge := s.knowledge.merge headers
  let r := (sortByPath ParsedHeader.path headers).foldl countHeader s.memory.report
  let report := reportCycles r knowledge.graph
  ⟨knowledge, { s.memory with links := .empty, report }⟩

/-- Reports the start of a phase. -/
def startPhase (phase : String) (s : Survey) : Survey :=
  { s with memory := { s.memory with report := s.memory.report.startPhase phase.toList } }

/-- Reports the end of a phase. -/
def endPhase (phase : String) (s : Survey) : Survey :=
  { s with memory := { s.memory with report := s.memory.report.endPhase phase.toList } }

/-- Runs a phase: what it does is reported between its start and its end. -/
def inPhase (phase : String) (step : Survey → Survey) (s : Survey) : Survey :=
  endPhase phase (step (startPhase phase s))

/-- Reads headers and adds them. -/
def scan (s : Survey) (headers : List Header) : Survey :=
  let parsed := (sortByPath Header.path headers).map
    (Header.parse s.knowledge.settings.maxConstruct)
  inPhase "merge" (·.merge parsed) (inPhase "parse" id s)

end Survey
end AccessorCatalog

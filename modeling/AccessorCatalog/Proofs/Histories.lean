/-
# Surveys and their histories

A survey starts from its settings, an oracle, a class map and the listings of an earlier run; from
then on headers are read and questions are asked, in any order.  `Survey.Reached` says that a survey
has such a history.  Whatever the history, the survey is in order (`Survey.Reached.inOrder`): its
memory holds only what would be found again, its inheritance graph is that of its classes, and its
classes stand under their own names.  So what a reached survey answers is a function of its
knowledge alone (`Survey.Reached.run_eq`).
-/
import AccessorCatalog.Proofs.Recall
import AccessorCatalog.Survey.Roots

namespace AccessorCatalog.Survey

/-! ## 1. Merging headers -/

namespace Knowledge

/-- What holds of a survey's knowledge and is kept by every class that is merged still holds when
headers have been merged. -/
theorem foldl_mergeHeader_keeps {P : Knowledge → Prop} (keeps : ∀ k c, P k → P (mergeClass k c))
    {k : Knowledge} (h : P k) (headers : List ParsedHeader) : P (headers.foldl mergeHeader k) := by
  have header (k : Knowledge) (h : P k) (parsed : ParsedHeader) : P (mergeHeader k parsed) := by
    unfold mergeHeader
    cases parsed.outcome with
    | error _ => exact h
    | ok classes =>
      show P (classes.foldl mergeClass k)
      induction classes generalizing k with
      | nil => exact h
      | cons c classes ih => exact ih (mergeClass k c) (keeps k c h)
  induction headers generalizing k with
  | nil => exact h
  | cons parsed headers ih => exact ih (header k h parsed)

theorem merge_settings (k : Knowledge) (headers : List ParsedHeader) :
    (k.merge headers).settings = k.settings :=
  foldl_mergeHeader_keeps (P := (·.settings = k.settings)) (fun _ _ h => h) rfl _

theorem merge_oracle (k : Knowledge) (headers : List ParsedHeader) :
    (k.merge headers).oracle = k.oracle :=
  foldl_mergeHeader_keeps (P := (·.oracle = k.oracle)) (fun _ _ h => h) rfl _

/-- Every class stands under its own name. -/
def Keyed (k : Knowledge) : Prop :=
  ∀ name c, k.classes.get? name = some c → c.record.name = name

theorem Keyed.mergeClass {k : Knowledge} (h : k.Keyed) (c : Outline.ClassOutline) :
    (k.mergeClass c).Keyed := by
  intro name other
  show (k.classes.insertNew c.record.name c).get? name = some other → _
  rw [Table.get?_insertNew]
  split
  · next same =>
    rw [same]
    cases known : k.classes.get? c.record.name with
    | none => rintro ⟨⟩; rfl
    | some old => rintro ⟨⟩; exact h _ _ known
  · exact h name other

theorem Keyed.merge {k : Knowledge} (h : k.Keyed) (headers : List ParsedHeader) :
    (k.merge headers).Keyed :=
  foldl_mergeHeader_keeps (P := Keyed) (fun _ c h => h.mergeClass c) h _

end Knowledge

/-! ## 2. Histories -/

/-- A survey that some history leads to. -/
inductive Reached : Survey → Prop
  /-- Before any header; with or without updating a given class map. -/
  | start (settings : Settings) (oracle : Reflection.Oracle) (map : ClassMap) (updating : Bool)
    (listings : Table Listing) :
    Reached ⟨{ Knowledge.start settings oracle with map, updating, listings }, .start⟩
  | merge {s : Survey} (reached : Reached s) (headers : List ParsedHeader) :
    Reached (s.merge headers)
  | scan {s : Survey} (reached : Reached s) (headers : List Header) : Reached (s.scan headers)
  | scanRoots {s : Survey} (reached : Reached s) (tree : Files.FileTree) (roots : List Text) :
    Reached (s.scanRoots tree roots).1
  | resolve {s : Survey} (reached : Reached s) (name scope : Text) :
    Reached (s.run (Survey.resolve · name scope)).2
  | links {s : Survey} (reached : Reached s) (name : Text) : Reached (s.run (Survey.links · name)).2
  | entry {s : Survey} (reached : Reached s) (name : Text) : Reached (s.run (Survey.entry · name)).2
  | entries {s : Survey} (reached : Reached s) : Reached (s.run Survey.entries).2
  | catalogFiles {s : Survey} (reached : Reached s) (created : Text) :
    Reached (s.run (Survey.catalogFiles created)).2
  | report {s : Survey} (reached : Reached s) : Reached (s.run fun _ => Survey.report).2

/-- What a survey keeps in order. -/
structure InOrder (s : Survey) : Prop where
  memory : s.memory.Sound s.knowledge
  graph : s.knowledge.graph = .ofRecords s.knowledge.records
  keyed : s.knowledge.Keyed

theorem InOrder.run {s : Survey} (h : s.InOrder) {α : Type} {build : Knowledge → Build α} {a : α}
    (answers : Answers s.knowledge (build s.knowledge) a) : (s.run build).2.InOrder :=
  ⟨answers.sound h.memory, h.graph, h.keyed⟩

/-- What is reported changes nothing else. -/
theorem InOrder.withReport {s : Survey} (h : s.InOrder) (report : RunReport) :
    InOrder ⟨s.knowledge, { s.memory with report }⟩ :=
  ⟨⟨h.memory.answers, h.memory.links⟩, h.graph, h.keyed⟩

theorem InOrder.merge {s : Survey} (h : s.InOrder) (headers : List ParsedHeader) :
    (s.merge headers).InOrder where
  memory :=
    { answers := by
        show s.memory.answers.Agrees (s.knowledge.merge headers).oracle
        rw [Knowledge.merge_oracle]
        exact h.memory.answers
      links := fun _ _ found => by cases found }
  graph := rfl
  keyed := h.keyed.merge headers

theorem InOrder.scan {s : Survey} (h : s.InOrder) (headers : List Header) :
    (s.scan headers).InOrder :=
  (InOrder.merge (s := startPhase "merge" (inPhase "parse" id s)) (h.withReport _) _).withReport _

theorem Reached.inOrder {s : Survey} (h : s.Reached) : s.InOrder := by
  induction h with
  | start settings oracle map updating listings =>
    exact ⟨Memory.sound_start _, rfl, fun _ _ found => by cases found⟩
  | merge _ headers ih => exact ih.merge headers
  | scan _ headers ih => exact ih.scan headers
  | scanRoots _ tree roots ih =>
    unfold Survey.scanRoots
    dsimp only
    split
    · exact ih.withReport _
    · exact (ih.withReport _).scan _
  | resolve _ name scope ih => exact ih.run (answers_resolve name scope)
  | links _ name ih => exact ih.run (answers_links name)
  | entry _ name ih => exact ih.run (answers_entry name)
  | entries _ ih => exact ih.run answers_entries
  | catalogFiles _ created ih => exact ih.run (answers_catalogFiles created)
  | report _ ih => exact ih.withReport _

/-- What a reached survey answers is a function of its knowledge. -/
theorem Reached.run_eq {s : Survey} (h : s.Reached) {α : Type} {build : Knowledge → Build α} {a : α}
    (answers : Answers s.knowledge (build s.knowledge) a) : (s.run build).1 = a :=
  answers.eq h.inOrder.memory

end AccessorCatalog.Survey

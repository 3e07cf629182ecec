/-
# Runs of a survey

A run is a sequence of calls: headers are merged or scanned, and questions are asked in between.
Only the headers count for what the survey knows behind a run (`knowledge_after`): it is what one
merge of all of them gives, in the order in which the calls merge them.

A merge takes its headers one by one and then draws the inheritance graph anew.  Merging does not
look at the graph (`Knowledge.foldl_mergeHeader_redrawn`), so the graphs that are drawn on the way
leave no trace.
-/
import AccessorCatalog.Proofs.Histories

namespace AccessorCatalog.Survey

open Outline (ClassOutline)

/-! ## 1. Sorting by paths -/

section Sorting

variable {α : Type} (path : α → Text)

/-- A list in the order of its paths: none comes before an earlier one. -/
def SortedByPath (headers : List α) : Prop :=
  headers.Pairwise fun a b => ¬ path b < path a

theorem sortByPath_perm (headers : List α) : (sortByPath path headers).Perm headers :=
  List.mergeSort_perm _ _

theorem notPrecedes_iff {s t : Text} : (!Text.precedes t s) = true ↔ ¬ t < s := by
  simp [Text.precedes]

theorem sortedByPath_sortByPath (headers : List α) :
    SortedByPath path (sortByPath path headers) := by
  have trans (a b c : α) (ab : (!Text.precedes (path b) (path a)) = true)
      (bc : (!Text.precedes (path c) (path b)) = true) :
        (!Text.precedes (path c) (path a)) = true := by
    rw [notPrecedes_iff] at *
    exact List.not_lt.mpr (List.le_trans (List.not_lt.mp ab) (List.not_lt.mp bc))
  have total (a b : α) :
      ((!Text.precedes (path b) (path a)) || !Text.precedes (path a) (path b)) = true := by
    rw [Bool.or_eq_true, notPrecedes_iff, notPrecedes_iff]
    exact (List.le_total (path a) (path b)).imp List.not_lt.mpr List.not_lt.mpr
  exact (List.pairwise_mergeSort trans total headers).imp notPrecedes_iff.mp

variable {path}

theorem sortByPath_of_sorted {headers : List α} (sorted : SortedByPath path headers) :
    sortByPath path headers = headers :=
  List.mergeSort_of_pairwise (sorted.imp notPrecedes_iff.mpr)

end Sorting

/-- The headers of a scan as they are read, in the order in which they are merged. -/
def readings (limit : Nat) (headers : List Header) : List ParsedHeader :=
  (sortByPath Header.path headers).map (Header.parse limit)

theorem sortByPath_readings (limit : Nat) (headers : List Header) :
    sortByPath ParsedHeader.path (readings limit headers) = readings limit headers :=
  sortByPath_of_sorted (List.pairwise_map.mpr (sortedByPath_sortByPath Header.path headers))

/-! ## 2. Merging, header by header -/

/-- The classes of a header; one that cannot be read has none. -/
def ParsedHeader.classes (h : ParsedHeader) : List ClassOutline :=
  match h.outcome with
  | .ok classes => classes
  | .error _ => []

namespace Knowledge

theorem mergeHeader_eq (k : Knowledge) (h : ParsedHeader) :
    k.mergeHeader h = h.classes.foldl mergeClass k := by
  unfold mergeHeader ParsedHeader.classes
  cases h.outcome <;> rfl

/-- Headers are merged class by class. -/
theorem foldl_mergeHeader_eq (k : Knowledge) (headers : List ParsedHeader) :
    headers.foldl mergeHeader k = (headers.flatMap ParsedHeader.classes).foldl mergeClass k := by
  induction headers generalizing k with
  | nil => rfl
  | cons h headers ih =>
    rw [List.foldl_cons, ih, mergeHeader_eq, List.flatMap_cons, List.foldl_append]

/-- Knowledge with the inheritance graph of its classes. -/
def redrawn (k : Knowledge) : Knowledge :=
  { k with graph := .ofRecords k.records }

theorem eq_redrawn {k : Knowledge} (drawn : k.graph = .ofRecords k.records) : k = k.redrawn := by
  unfold redrawn
  rw [← drawn]

/-- Merging does not look at the graph. -/
theorem foldl_mergeHeader_redrawn (k : Knowledge) (headers : List ParsedHeader) :
    (headers.foldl mergeHeader k.redrawn).redrawn = (headers.foldl mergeHeader k).redrawn := by
  have all (k : Knowledge) (graph : InheritanceGraph) (classes : List ClassOutline) :
      classes.foldl mergeClass { k with graph } = { classes.foldl mergeClass k with graph } := by
    induction classes generalizing k with
    | nil => rfl
    | cons c classes ih => exact ih (k.mergeClass c)
  rw [foldl_mergeHeader_eq, foldl_mergeHeader_eq]
  show (List.foldl mergeClass { k with graph := .ofRecords k.records } _).redrawn = _
  rw [all]
  rfl

end Knowledge

/-! ## 3. Calls -/

/-- A question that is put to a survey. -/
inductive Question where
  | resolve (name scope : Text)
  | links (name : Text)
  | entry (name : Text)
  | entries
  | report
  deriving DecidableEq, Repr

/-- Answers a question, as far as it returns entries. -/
def Question.ask (k : Knowledge) : Question → Build (List CatalogEntry)
  | .resolve name scope => do
    let _ ← Survey.resolve k name scope
    return []
  | .links name => do
    let _ ← Survey.links k name
    return []
  | .entry name => do return (← Survey.entry k name).toList
  | .entries => Survey.entries k
  | .report => do
    let _ ← Survey.report
    return []

/-- The entries that a question returns: a function of the knowledge. -/
def Question.found (k : Knowledge) : Question → List CatalogEntry
  | .entry name => (k.entryOf name).toList
  | .entries => (catalogedNames k).filterMap k.entryOf
  | _ => []

theorem Question.answers {k : Knowledge} (question : Question) :
    Answers k (question.ask k) (question.found k) := by
  cases question with
  | resolve name scope => exact (answers_resolve name scope).bind (.pure _)
  | links name => exact (answers_links name).bind (.pure _)
  | entry name => exact (answers_entry name).bind (.pure _)
  | entries => exact answers_entries
  | report => exact fun m sound => ⟨_, rfl, sound.answers, sound.links⟩

/-- A step of a run. -/
inductive Call where
  | merge (headers : List ParsedHeader)
  | scan (headers : List Header)
  | ask (question : Question)

namespace Call

/-- The entries that a call returns, and the survey behind it. -/
def perform (s : Survey) : Call → List CatalogEntry × Survey
  | merge headers => ([], s.merge headers)
  | scan headers => ([], s.scan headers)
  | ask question => s.run question.ask

/-- The headers that a call merges, in the order in which it merges them. -/
def merged (limit : Nat) : Call → List ParsedHeader
  | merge headers => sortByPath ParsedHeader.path headers
  | scan headers => readings limit headers
  | ask _ => []

end Call

/-- A survey before its first call, with or without updating a given class map. -/
def opened (settings : Settings) (oracle : Reflection.Oracle) (map : ClassMap) (updating : Bool)
    (listings : Table Listing) : Survey :=
  ⟨{ Knowledge.start settings oracle with map, updating, listings }, .start⟩

/-- The survey behind a run. -/
def after (s : Survey) (calls : List Call) : Survey :=
  calls.foldl (fun s call => (call.perform s).2) s

/-- The entries that a run returns. -/
def returned : (s : Survey) → List Call → List CatalogEntry
  | _, [] => []
  | s, call :: calls => (call.perform s).1 ++ returned (call.perform s).2 calls

/-- The headers that a run merges, in the order in which it merges them. -/
def mergedHeaders (limit : Nat) (calls : List Call) : List ParsedHeader :=
  calls.flatMap (Call.merged limit)

/-- The records of the classes that a run merges, in the order in which it merges them. -/
def mergedRecords (limit : Nat) (calls : List Call) : List ClassRecord :=
  ((mergedHeaders limit calls).flatMap ParsedHeader.classes).map ClassOutline.record

/-! ## 4. What is known behind a run -/

variable {s : Survey}

theorem reached_opened (settings : Settings) (oracle : Reflection.Oracle) (map : ClassMap)
    (updating : Bool) (listings : Table Listing) :
    (opened settings oracle map updating listings).Reached :=
  .start settings oracle map updating listings

theorem Reached.ask (reached : s.Reached) (question : Question) :
    (s.run question.ask).2.Reached := by
  cases question with
  | resolve name scope => exact reached.resolve name scope
  | links name => exact reached.links name
  | entry name => exact reached.entry name
  | entries => exact reached.entries
  | report => exact reached.report

theorem Reached.perform (reached : s.Reached) (call : Call) : (call.perform s).2.Reached := by
  cases call with
  | merge headers => exact reached.merge headers
  | scan headers => exact reached.scan headers
  | ask question => exact reached.ask question

theorem Reached.after (reached : s.Reached) (calls : List Call) : (s.after calls).Reached := by
  induction calls generalizing s with
  | nil => exact reached
  | cons call calls ih => exact ih (reached.perform call)

theorem settings_perform (call : Call) :
    (call.perform s).2.knowledge.settings = s.knowledge.settings := by
  cases call with
  | merge headers => exact Knowledge.merge_settings _ _
  | scan headers => exact Knowledge.merge_settings _ _
  | ask question => rfl

theorem knowledge_scan (s : Survey) (headers : List Header) :
    (s.scan headers).knowledge =
      ((readings s.knowledge.settings.maxConstruct headers).foldl Knowledge.mergeHeader
        s.knowledge).redrawn := by
  rw [← sortByPath_readings]
  rfl

theorem knowledge_perform (drawn : s.knowledge.graph = .ofRecords s.knowledge.records)
    (call : Call) :
    (call.perform s).2.knowledge =
      ((call.merged s.knowledge.settings.maxConstruct).foldl Knowledge.mergeHeader
        s.knowledge).redrawn := by
  cases call with
  | merge headers => rfl
  | scan headers => exact knowledge_scan s headers
  | ask question => exact Knowledge.eq_redrawn drawn

/-- **Behind a run, a survey knows what one merge of all its headers gives.** -/
theorem knowledge_after (drawn : s.knowledge.graph = .ofRecords s.knowledge.records)
    (calls : List Call) :
    (s.after calls).knowledge =
      ((mergedHeaders s.knowledge.settings.maxConstruct calls).foldl Knowledge.mergeHeader
        s.knowledge).redrawn := by
  induction calls generalizing s with
  | nil => exact Knowledge.eq_redrawn drawn
  | cons call calls ih =>
    have drawn_next : (call.perform s).2.knowledge.graph =
        .ofRecords (call.perform s).2.knowledge.records := by
      rw [knowledge_perform drawn]
      rfl
    show (Survey.after (call.perform s).2 calls).knowledge = _
    rw [ih drawn_next, settings_perform, knowledge_perform drawn,
      Knowledge.foldl_mergeHeader_redrawn, ← List.foldl_append]
    rfl

/-! ## 5. Questions leave no trace -/

namespace Knowledge

variable {k : Knowledge} {name : Text}

/-- Classes stand under their own names, so their records come in the order of their names. -/
theorem Keyed.names_records (keyed : k.Keyed) :
    k.records.map ClassRecord.name = k.classes.entries.map Prod.fst := by
  unfold records Table.values
  rw [List.map_map, List.map_map]
  refine List.map_congr_left fun entry mem => ?_
  exact keyed entry.1 entry.2 (Table.get?_eq_some_iff.mpr mem)

theorem Keyed.sorted_catalogedNames (keyed : k.Keyed) : (catalogedNames k).Pairwise (· < ·) := by
  have sorted : (k.records.map ClassRecord.name).Pairwise (· < ·) := by
    rw [keyed.names_records]
    exact List.pairwise_map.mpr k.classes.ascending
  exact sorted.sublist (List.filter_sublist.map _)

/-- The cataloged names are those of the classes without template parameters. -/
theorem Keyed.mem_catalogedNames (keyed : k.Keyed) :
    name ∈ catalogedNames k ↔
      ∃ c, k.classes.get? name = some c ∧ c.record.templateParams = [] := by
  constructor
  · intro mem
    obtain ⟨record, kept, rfl⟩ := List.mem_map.mp mem
    obtain ⟨listed, plain⟩ := List.mem_filter.mp kept
    obtain ⟨c, value, rfl⟩ := List.mem_map.mp listed
    obtain ⟨⟨key, c⟩, stored, rfl⟩ := List.mem_map.mp value
    have found : k.classes.get? key = some c := Table.get?_eq_some_iff.mpr stored
    exact ⟨c, keyed key c found ▸ found, List.isEmpty_iff.mp plain⟩
  · rintro ⟨c, found, plain⟩
    have stored : (name, c) ∈ k.classes.entries := Table.get?_eq_some_iff.mp found
    have value : c ∈ k.classes.values := List.mem_map.mpr ⟨_, stored, rfl⟩
    have listed : c.record ∈ k.records := List.mem_map.mpr ⟨c, value, rfl⟩
    refine List.mem_map.mpr ⟨c.record, List.mem_filter.mpr ⟨listed, ?_⟩, keyed name c found⟩
    exact List.isEmpty_iff.mpr plain

/-- A class that has been read has an entry. -/
theorem exists_entryOf {c : ClassOutline} (found : k.classes.get? name = some c) :
    ∃ e, k.entryOf name = some e := by
  unfold entryOf record?
  rw [found]
  exact ⟨_, rfl⟩

end Knowledge

theorem knowledge_asked (s : Survey) (questions : List Question) :
    (s.after (questions.map .ask)).knowledge = s.knowledge := by
  induction questions generalizing s with
  | nil => rfl
  | cons question questions ih => exact ih (s.run question.ask).2

/-- **What was asked before changes no entry.**  After any questions, a survey gives the entry that
it would have given without them, and that a survey of the same knowledge gives which remembers
nothing. Its entries are those of the classes without template parameters, in the order of their
names, each as if it were asked for alone. -/
theorem entry_after_questions (reached : s.Reached) (questions : List Question) :
    (∀ name,
        ((s.after (questions.map .ask)).run (entry · name)).1 = (s.run (entry · name)).1 ∧
          (s.run (entry · name)).1 = ((⟨s.knowledge, .start⟩ : Survey).run (entry · name)).1) ∧
      (((s.after (questions.map .ask)).run entries).1.map some =
        (catalogedNames s.knowledge).map fun name => (s.run (entry · name)).1) ∧
      (catalogedNames s.knowledge).Pairwise (· < ·) ∧
      ∀ name, name ∈ catalogedNames s.knowledge ↔
        ∃ c, s.knowledge.classes.get? name = some c ∧ c.record.templateParams = [] := by
  have asked : (s.after (questions.map .ask)).Reached := reached.after _
  have keyed := reached.inOrder.keyed
  have alone (name : Text) : (s.run (entry · name)).1 = s.knowledge.entryOf name :=
    reached.run_eq (answers_entry name)
  refine ⟨fun name => ⟨?_, ?_⟩, ?_, keyed.sorted_catalogedNames,
    fun name => keyed.mem_catalogedNames⟩
  · rw [alone, asked.run_eq (answers_entry name), knowledge_asked]
  · rw [alone]
    exact ((answers_entry name).eq (Memory.sound_start _)).symm
  · rw [asked.run_eq answers_entries, knowledge_asked]
    simp only [alone]
    -- Every cataloged class has an entry, so that none is left out.
    have all_built :
        ∀ name ∈ catalogedNames s.knowledge, ∃ e, s.knowledge.entryOf name = some e := by
      intro name mem
      obtain ⟨c, found, -⟩ := keyed.mem_catalogedNames.mp mem
      exact Knowledge.exists_entryOf found
    generalize catalogedNames s.knowledge = names at all_built
    induction names with
    | nil => rfl
    | cons name names ih =>
      obtain ⟨e, built⟩ := all_built name List.mem_cons_self
      rw [List.filterMap_cons, built, List.map_cons, List.map_cons, built,
        ih fun n mem => all_built n (List.mem_cons_of_mem name mem)]

/-- A header of a class whose only method leads to another class. -/
def trackHeader : Header :=
  ⟨"t.h".toList,
    "class Hit \x7b public: int id(); \x7d; class Track \x7b public: Hit hit(); \x7d;".toList⟩

/-- A survey of that header. -/
def tracks : Survey :=
  (start {} .ignorant).scan [trackHeader]

/-- Questions behind which the links of the other class are remembered. -/
def trackQuestions : List Question :=
  [.links "Hit".toList, .entry "Track".toList, .entries, .report]

theorem entry_after_questions_tracks :
    tracks.Reached ∧
      (∀ name,
        ((tracks.after (trackQuestions.map .ask)).run (entry · name)).1 =
            (tracks.run (entry · name)).1 ∧
          (tracks.run (entry · name)).1 =
            ((⟨tracks.knowledge, .start⟩ : Survey).run (entry · name)).1) ∧
      (((tracks.after (trackQuestions.map .ask)).run entries).1.map some =
        (catalogedNames tracks.knowledge).map fun name => (tracks.run (entry · name)).1) ∧
      (catalogedNames tracks.knowledge).Pairwise (· < ·) ∧
      ∀ name, name ∈ catalogedNames tracks.knowledge ↔
        ∃ c, tracks.knowledge.classes.get? name = some c ∧ c.record.templateParams = [] := by
  have reached : tracks.Reached := .scan (.start {} .ignorant .empty false .empty) [trackHeader]
  exact ⟨reached, entry_after_questions reached trackQuestions⟩

end AccessorCatalog.Survey

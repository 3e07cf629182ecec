/-
# Headers in any order and in any batches

Headers are merged in the order of their paths, and the first definition of a class counts, so what
a scan leaves behind could depend on how the headers arrive.  `scan_batches` says that it does not.
As long as batches come in the order of their paths, only the headers that can be read count, and it
does not matter how they are cut into batches, how they lie in one, and what unreadable headers are
anywhere among them: the survey knows the same, and gives the same entries.

Several scans come down to one merge of all headers in the order in which they are read
(`knowledge_foldl_scan`).  An unreadable header merges to nothing (`foldl_mergeHeader_filter`), and
of the others that order is determined by their paths (`eq_of_sortedByPath`).
-/
import Mathlib.Data.List.Nodup
import Mathlib.Data.List.Perm.Basic
import AccessorCatalog.Proofs.Runs

namespace AccessorCatalog.Survey

/-! ## 1. Headers that count -/

/-- Different paths leave only one order. -/
theorem eq_of_sortedByPath {α : Type} {path : α → Text} {headers others : List α}
    (distinct : (headers.map path).Nodup) (perm : headers.Perm others)
    (sorted : SortedByPath path headers) (sorted' : SortedByPath path others) :
      headers = others := by
  refine List.Perm.eq_of_pairwise (fun a b mem mem' ab ba => ?_) sorted sorted' perm
  refine List.inj_on_of_nodup_map distinct mem (perm.mem_iff.mpr mem') ?_
  exact List.le_antisymm (List.not_lt.mp ab) (List.not_lt.mp ba)

/-- Whether a header can be read. -/
def Header.isReadable (limit : Nat) (h : Header) : Bool :=
  (h.parse limit).outcome.isOk

/-- Unreadable headers merge to nothing. -/
theorem Knowledge.foldl_mergeHeader_filter (k : Knowledge) (headers : List ParsedHeader) :
    headers.foldl mergeHeader k = (headers.filter (·.outcome.isOk)).foldl mergeHeader k := by
  induction headers generalizing k with
  | nil => rfl
  | cons parsed headers ih =>
    rw [List.foldl_cons, ih, List.filter_cons]
    obtain ⟨path, outcome⟩ := parsed
    cases outcome <;> rfl

/-! ## 2. Scans -/

/-- Several scans merge all their headers one after the other. -/
theorem knowledge_foldl_scan {s : Survey}
    (drawn : s.knowledge.graph = .ofRecords s.knowledge.records) (batches : List (List Header)) :
    (batches.foldl scan s).knowledge =
      ((batches.flatMap (readings s.knowledge.settings.maxConstruct)).foldl Knowledge.mergeHeader
        s.knowledge).redrawn := by
  have run : batches.foldl scan s = s.after (batches.map .scan) := by
    rw [after, List.foldl_map]
    rfl
  rw [run, knowledge_after drawn, mergedHeaders, List.flatMap_map]
  rfl

/-- Readable headers that come in batches in the order of their paths are merged in the order of a
single scan. -/
theorem filter_readings_batches {limit : Nat} {headers : List Header}
    (distinct : (headers.map Header.path).Nodup) {batches : List (List Header)}
    (inOrder : batches.Pairwise fun earlier later => ∀ h ∈ earlier, ∀ h' ∈ later,
      h.isReadable limit = true → h'.isReadable limit = true → h.path < h'.path)
    (same : (batches.flatten.filter (Header.isReadable limit)).Perm
      (headers.filter (Header.isReadable limit))) :
    (batches.flatMap (readings limit)).filter (·.outcome.isOk) =
      (readings limit headers).filter (·.outcome.isOk) := by
  have sorted : SortedByPath Header.path
      ((batches.flatMap (sortByPath Header.path)).filter (Header.isReadable limit)) := by
    rw [List.filter_flatMap]
    refine List.pairwise_flatMap.mpr ⟨fun batch _ => (sortedByPath_sortByPath _ batch).filter _, ?_⟩
    refine inOrder.imp fun {earlier later} before h mem h' mem' => ?_
    obtain ⟨mem, readable⟩ := List.mem_filter.mp mem
    obtain ⟨mem', readable'⟩ := List.mem_filter.mp mem'
    have lt := before h ((sortByPath_perm _ _).mem_iff.mp mem) h'
      ((sortByPath_perm _ _).mem_iff.mp mem') readable readable'
    exact List.not_lt.mpr (List.le_of_lt lt)
  have gathered : (batches.flatMap (sortByPath Header.path)).Perm batches.flatten := by
    rw [← List.flatMap_id]
    exact List.Perm.flatMap_left _ fun batch _ => sortByPath_perm _ batch
  have perm : ((batches.flatMap (sortByPath Header.path)).filter (Header.isReadable limit)).Perm
      ((sortByPath Header.path headers).filter (Header.isReadable limit)) :=
    ((gathered.filter _).trans same).trans ((sortByPath_perm _ headers).filter _).symm
  have once : (((sortByPath Header.path headers).filter (Header.isReadable limit)).map
      Header.path).Nodup :=
    (((sortByPath_perm _ headers).map _).nodup_iff.mpr distinct).sublist
      ((List.filter_sublist).map _)
  have equal :=
    eq_of_sortedByPath once perm.symm ((sortedByPath_sortByPath _ headers).filter _) sorted
  unfold readings
  rw [← List.map_flatMap, List.filter_map, List.filter_map]
  exact congrArg (List.map _) equal.symm

/-- **Order, batches and unreadable headers do not matter.**  When batches whose readable headers
come in the order of their paths hold the same readable headers as a list of headers with different
paths, scanning the batches one after the other leads to the same knowledge as scanning the list at
once: the same class map, classes and inheritance graph; and the entries are the same. -/
theorem scan_batches {s : Survey} (reached : s.Reached) {headers : List Header}
    (distinct : (headers.map Header.path).Nodup) {batches : List (List Header)}
    (inOrder : batches.Pairwise fun earlier later => ∀ h ∈ earlier, ∀ h' ∈ later,
      h.isReadable s.knowledge.settings.maxConstruct = true →
        h'.isReadable s.knowledge.settings.maxConstruct = true → h.path < h'.path)
    (same : (batches.flatten.filter (Header.isReadable s.knowledge.settings.maxConstruct)).Perm
      (headers.filter (Header.isReadable s.knowledge.settings.maxConstruct))) :
    (batches.foldl scan s).knowledge = (s.scan headers).knowledge ∧
      ((batches.foldl scan s).run entries).1 = ((s.scan headers).run entries).1 := by
  have knowledge : (batches.foldl scan s).knowledge = (s.scan headers).knowledge := by
    rw [knowledge_foldl_scan reached.inOrder.graph, knowledge_scan,
      Knowledge.foldl_mergeHeader_filter, filter_readings_batches distinct inOrder same,
      ← Knowledge.foldl_mergeHeader_filter]
  have reached_many : (batches.foldl scan s).Reached := by
    clear inOrder same knowledge
    induction batches generalizing s with
    | nil => exact reached
    | cons batch batches ih => exact ih (reached.scan batch)
  refine ⟨knowledge, ?_⟩
  rw [reached_many.run_eq answers_entries, (reached.scan headers).run_eq answers_entries, knowledge]

/-- A class, and a class derived from it. -/
def baseHeader : Header :=
  ⟨"a.h".toList, "class A \x7b public: int id(); \x7d;".toList⟩

/-- A header without its last brace. -/
def openHeader : Header :=
  ⟨"b.h".toList, "namespace n \x7b".toList⟩

/-- A class derived from that of the first header. -/
def derivedHeader : Header :=
  ⟨"c.h".toList, "class C : public A \x7b public: double w(); \x7d;".toList⟩

/-- A survey that updates a class map in which one of the classes is. -/
def updatingSurvey : Survey :=
  ⟨(Knowledge.start {} .ignorant).updatingMap
    (ClassMap.insertPlain .empty "C".toList "old.h".toList), .start⟩

/-- The three headers in the opposite order, and the two that can be read in a batch each. -/
theorem scan_batches_openHeader :
    ([[baseHeader], [derivedHeader]].foldl scan updatingSurvey).knowledge =
        (updatingSurvey.scan [derivedHeader, openHeader, baseHeader]).knowledge ∧
      (([[baseHeader], [derivedHeader]].foldl scan updatingSurvey).run entries).1 =
        ((updatingSurvey.scan [derivedHeader, openHeader, baseHeader]).run entries).1 := by
  have unreadable : openHeader.isReadable 5000 = false := by decide +kernel
  have dropped : [derivedHeader, openHeader, baseHeader].filter (Header.isReadable 5000) =
      [derivedHeader, baseHeader].filter (Header.isReadable 5000) := by
    simp only [List.filter_cons, unreadable, Bool.false_eq_true, if_false]
  refine scan_batches (.start {} .ignorant _ true .empty) (by decide) ?_ ?_
  · simp only [List.pairwise_cons, List.mem_singleton, forall_eq]
    exact ⟨fun _ _ => by decide, by simp⟩
  · show ([baseHeader, derivedHeader].filter (Header.isReadable 5000)).Perm
      ([derivedHeader, openHeader, baseHeader].filter (Header.isReadable 5000))
    rw [dropped]
    exact (List.Perm.swap derivedHeader baseHeader []).filter _

end AccessorCatalog.Survey

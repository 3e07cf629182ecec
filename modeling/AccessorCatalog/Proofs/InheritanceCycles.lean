/-
# Which inheritance cycles are reported

A merge draws the graph of all classes that are known behind it and reports its cycles.
`reportsCycles_scanned` says what a report holds behind any merges and scans, and what it fails to
hold.

A *cycle* is a set of several classes that are entangled, each inheriting from each other one
(`IsCycle`). The search behind it is bounded by a number of steps, and what makes the bound good
enough is that a declaration puts a class on the waiting list once, when its source is first seen
(`mem_visit`).  So the cycles that a graph lists are all there are, each once (`mem_cycles_iff`,
`nodup_cycles`).

A graph can be cyclic without such a set: a class that names itself as its base is alone on its
cycle (`isCyclic_iff`), and no merge reports it (`silent_selfHeader`).  And a merge does not look at
what was reported before: what was on a cycle stays on one (`Merges.exists_isCycle`), so a cycle is
reported by the merge that closes it and by all merges behind that one.
-/
import AccessorCatalog.Proofs.BaseClasses
import AccessorCatalog.Proofs.RecentNames
import AccessorCatalog.Proofs.Runs
import Mathlib.Logic.Relation

namespace AccessorCatalog

open Relation (ReflTransGen TransGen)

namespace InheritanceGraph

variable {g : InheritanceGraph} {a b c name : Text} {steps : Nat} {waiting seen : List Text}

/-! ## 1. What a search meets -/

/-- A class declares a base. -/
def Declares (g : InheritanceGraph) (name base : Text) : Prop :=
  (name, base) ∈ g.edges

theorem mem_bases_iff : b ∈ g.bases a ↔ g.Declares a b := by
  simp [bases, Declares]

/-- The declarations of classes that have not been seen yet. -/
def unseen (g : InheritanceGraph) (seen : List Text) : List (Text × Text) :=
  g.edges.filter fun e => !seen.contains e.1

theorem length_unseen (fresh : name ∉ seen) :
    (g.unseen seen).length = (g.bases name).length + (g.unseen (name :: seen)).length := by
  unfold unseen bases
  rw [List.length_map]
  induction g.edges with
  | nil => rfl
  | cons e edges ih =>
    by_cases own : e.1 = name
    · have next : e.1 ∉ seen := own ▸ fresh
      simp [own, fresh] at ih ⊢
      omega
    · by_cases old : e.1 ∈ seen
      · simp [own, old] at ih ⊢
        omega
      · simp [own, old] at ih ⊢
        omega

/-- Every base of a class that has been seen has been seen itself, or waits. -/
def Followed (g : InheritanceGraph) (waiting seen : List Text) : Prop :=
  ∀ a ∈ seen, ∀ b, g.Declares a b → b ∈ seen ∨ b ∈ waiting

/-- A class that has been seen, or that one of those that wait leads to. -/
def Ahead (g : InheritanceGraph) (waiting seen : List Text) (c : Text) : Prop :=
  c ∈ seen ∨ ∃ a ∈ waiting, ReflTransGen g.Declares a c

theorem Followed.ahead (followed : g.Followed waiting seen) (mem : a ∈ seen)
    (leads : ReflTransGen g.Declares a c) : g.Ahead waiting seen c := by
  induction leads using ReflTransGen.head_induction_on with
  | refl => exact .inl mem
  | @head a b step rest ih =>
    rcases followed a mem b step with mem | waits
    · exact ih mem
    · exact .inr ⟨b, waits, rest⟩

/-- A class that has been seen need not wait any longer. -/
theorem Followed.drop (followed : g.Followed (name :: waiting) seen) (old : name ∈ seen) :
    g.Followed waiting seen := by
  intro a mem b step
  rcases followed a mem b step with mem | waits
  · exact .inl mem
  · rcases List.mem_cons.mp waits with rfl | waits
    · exact .inl old
    · exact .inr waits

/-- A class is seen, and its bases wait in its place. -/
theorem Followed.expand (followed : g.Followed (name :: waiting) seen) :
    g.Followed (g.bases name ++ waiting) (name :: seen) := by
  intro a mem b step
  rcases List.mem_cons.mp mem with rfl | mem
  · exact .inr (List.mem_append_left _ (mem_bases_iff.mpr step))
  · rcases followed a mem b step with mem | waits
    · exact .inl (List.mem_cons_of_mem name mem)
    · rcases List.mem_cons.mp waits with rfl | waits
      · exact .inl List.mem_cons_self
      · exact .inr (List.mem_append_right _ waits)

theorem Followed.ahead_drop_iff (followed : g.Followed waiting seen) (old : name ∈ seen) :
    g.Ahead waiting seen c ↔ g.Ahead (name :: waiting) seen c := by
  constructor
  · rintro (mem | ⟨a, waits, leads⟩)
    · exact .inl mem
    · exact .inr ⟨a, List.mem_cons_of_mem name waits, leads⟩
  · rintro (mem | ⟨a, waits, leads⟩)
    · exact .inl mem
    · rcases List.mem_cons.mp waits with rfl | waits
      · exact followed.ahead old leads
      · exact .inr ⟨a, waits, leads⟩

theorem ahead_expand_iff :
    g.Ahead (g.bases name ++ waiting) (name :: seen) c ↔ g.Ahead (name :: waiting) seen c := by
  constructor
  · rintro (mem | ⟨a, waits, leads⟩)
    · rcases List.mem_cons.mp mem with rfl | mem
      · exact .inr ⟨_, List.mem_cons_self, .refl⟩
      · exact .inl mem
    · rcases List.mem_append.mp waits with base | waits
      · exact .inr ⟨name, List.mem_cons_self, .head (mem_bases_iff.mp base) leads⟩
      · exact .inr ⟨a, List.mem_cons_of_mem name waits, leads⟩
  · rintro (mem | ⟨a, waits, leads⟩)
    · exact .inl (List.mem_cons_of_mem name mem)
    · rcases List.mem_cons.mp waits with rfl | waits
      · rcases ReflTransGen.cases_head leads with rfl | ⟨b, step, rest⟩
        · exact .inl List.mem_cons_self
        · exact .inr ⟨b, List.mem_append_left _ (mem_bases_iff.mpr step), rest⟩
      · exact .inr ⟨a, List.mem_append_right _ waits, leads⟩

/-- **A search with enough steps meets what those that wait lead to.**  Every step takes one of
them, and a declaration puts a class there once, when its source is seen. -/
theorem mem_visit (followed : g.Followed waiting seen)
    (enough : waiting.length + (g.unseen seen).length ≤ steps) :
    c ∈ g.visit steps waiting seen ↔ g.Ahead waiting seen c := by
  induction steps generalizing waiting seen with
  | zero =>
    obtain rfl : waiting = [] := List.eq_nil_of_length_eq_zero (by omega)
    simp [visit, Ahead]
  | succ steps ih =>
    cases waiting with
    | nil => simp [visit, Ahead]
    | cons name waiting =>
      rw [List.length_cons] at enough
      rw [visit]
      by_cases old : name ∈ seen
      · have rest := followed.drop old
        rw [if_pos (List.contains_iff_mem.mpr old), ih rest (by omega), rest.ahead_drop_iff old]
      · have fewer := length_unseen (g := g) old
        rw [if_neg (mt List.contains_iff_mem.mp old),
          ih followed.expand (by rw [List.length_append]; omega), ahead_expand_iff]

theorem mem_reached_iff : b ∈ g.reached a ↔ ReflTransGen g.Declares a b := by
  have enough : [a].length + (g.unseen []).length ≤ g.edges.length + 1 := by
    have fewer : (g.unseen []).length ≤ g.edges.length := List.length_filter_le _ _
    rw [List.length_singleton]
    omega
  rw [reached, mem_visit (fun _ mem => by cases mem) enough]
  simp [Ahead]

theorem reaches_iff : g.reaches a b = true ↔ ReflTransGen g.Declares a b := by
  rw [reaches, List.contains_iff_mem, mem_reached_iff]

theorem nodup_visit (distinct : seen.Nodup) : (g.visit steps waiting seen).Nodup := by
  induction steps generalizing waiting seen with
  | zero => exact distinct
  | succ steps ih =>
    cases waiting with
    | nil => exact distinct
    | cons name waiting =>
      rw [visit]
      split
      · exact ih distinct
      · next fresh => exact ih (List.nodup_cons.mpr ⟨mt List.contains_iff_mem.mpr fresh, distinct⟩)

/-! ## 2. Cycles -/

/-- Each of two classes inherits from the other, or they are the same. -/
def Entangled (g : InheritanceGraph) (a b : Text) : Prop :=
  ReflTransGen g.Declares a b ∧ ReflTransGen g.Declares b a

/-- The names of several classes that are entangled with one and so with each other, in order. -/
structure IsCycle (g : InheritanceGraph) (members : List Text) : Prop where
  sorted : members.Pairwise (· < ·)
  several : 1 < members.length
  entangled : ∃ a, ∀ b, b ∈ members ↔ g.Entangled a b

/-- Whatever declares a base is a class of the graph. -/
def Covered (g : InheritanceGraph) : Prop :=
  ∀ name base, g.Declares name base → name ∈ g.classes

/-- The classes that are entangled with a given one. -/
def tangle (g : InheritanceGraph) (name : Text) : List Text :=
  (g.reached name).filter fun other => g.reaches other name

theorem mem_tangle_iff : b ∈ g.tangle a ↔ g.Entangled a b := by
  rw [tangle, List.mem_filter, mem_reached_iff, reaches_iff]
  rfl

theorem nodup_tangle (g : InheritanceGraph) (name : Text) : (g.tangle name).Nodup :=
  (nodup_visit .nil).filter _

theorem sort_perm (names : List Text) : (Text.sort names).Perm names :=
  List.mergeSort_perm _ _

theorem increasing_sort {names : List Text} (distinct : names.Nodup) :
    (Text.sort names).Pairwise (· < ·) := by
  have sorted : (Text.sort names).Pairwise fun a b => ¬ b < a :=
    Survey.sortedByPath_sortByPath id names
  have apart : (Text.sort names).Pairwise (· ≠ ·) := (sort_perm names).nodup_iff.mpr distinct
  exact sorted.imp₂ (fun a b not_behind other => lt_of_not_lt_of_ne not_behind other) apart

theorem nodup_of_increasing {names : List Text} (sorted : names.Pairwise (· < ·)) :
    names.Nodup := by
  refine sorted.imp fun {a b} before => ?_
  rintro rfl
  exact List.lt_irrefl a before

/-- Names in order are known from what they are. -/
theorem eq_of_increasing {names names' : List Text} (sorted : names.Pairwise (· < ·))
    (sorted' : names'.Pairwise (· < ·)) (same : ∀ a, a ∈ names ↔ a ∈ names') : names = names' := by
  have perm : names.Perm names' :=
    (List.perm_ext_iff_of_nodup (nodup_of_increasing sorted) (nodup_of_increasing sorted')).mpr same
  refine List.Perm.eq_of_pairwise ?_ sorted sorted' perm
  intro a b _ _ ab ba
  exact absurd (List.lt_trans ab ba) (List.lt_irrefl a)

/-- Of several different names one is not a given one. -/
theorem exists_mem_ne {names : List Text} (distinct : names.Nodup) (several : 1 < names.length)
    (a : Text) : ∃ b ∈ names, b ≠ a := by
  match names, several with
  | first :: second :: rest, _ =>
    have apart : first ≠ second := (List.pairwise_cons.mp distinct).1 second List.mem_cons_self
    by_cases same : first = a
    · exact ⟨second, List.mem_cons_of_mem first List.mem_cons_self,
        fun eq => apart (same.trans eq.symm)⟩
    · exact ⟨first, List.mem_cons_self, same⟩

theorem several_of_ne {names : List Text} (mem : a ∈ names) (mem' : b ∈ names) (other : b ≠ a) :
    1 < names.length := by
  match names with
  | [c] => exact absurd ((List.mem_singleton.mp mem').trans (List.mem_singleton.mp mem).symm) other
  | _ :: _ :: _ => exact Nat.succ_lt_succ (Nat.succ_pos _)

theorem cycle?_eq_some_iff {members : List Text} : g.cycle? name = some members ↔
    name ∈ g.classes ∧ 1 < (g.tangle name).length ∧ Text.sort (g.tangle name) = members := by
  unfold cycle?
  show (if (g.classes.contains name && decide (1 < (g.tangle name).length)) = true then
    some (Text.sort (g.tangle name)) else none) = some members ↔ _
  rw [Option.ite_none_right_eq_some, Bool.and_eq_true, List.contains_iff_mem, decide_eq_true_eq,
    Option.some_inj, and_assoc]

/-- A class that is entangled with another one is on a cycle. -/
theorem isCycle_sort_tangle (entangled : g.Entangled a b) (other : b ≠ a) :
    g.IsCycle (Text.sort (g.tangle a)) where
  sorted := increasing_sort (g.nodup_tangle a)
  several := by
    rw [(sort_perm _).length_eq]
    exact several_of_ne (mem_tangle_iff.mpr ⟨.refl, .refl⟩) (mem_tangle_iff.mpr entangled) other
  entangled := ⟨a, fun c => by rw [(sort_perm _).mem_iff, mem_tangle_iff]⟩

/-- A cycle is what is entangled with one of its classes, and there is another one. -/
theorem IsCycle.exists_entangled {members : List Text} (h : g.IsCycle members) :
    ∃ a b, b ≠ a ∧ g.Entangled a b ∧ members = Text.sort (g.tangle a) := by
  obtain ⟨a, own⟩ := h.entangled
  obtain ⟨b, mem, other⟩ := exists_mem_ne (nodup_of_increasing h.sorted) h.several a
  refine ⟨a, b, other, (own b).mp mem, ?_⟩
  refine eq_of_increasing h.sorted (increasing_sort (g.nodup_tangle a)) fun c => ?_
  rw [own, (sort_perm _).mem_iff, mem_tangle_iff]

/-- There is a cycle if two classes inherit from each other. -/
theorem exists_isCycle_iff : (∃ members, g.IsCycle members) ↔ ∃ a b, b ≠ a ∧ g.Entangled a b := by
  constructor
  · rintro ⟨members, cycle⟩
    obtain ⟨a, b, other, entangled, -⟩ := cycle.exists_entangled
    exact ⟨a, b, other, entangled⟩
  · rintro ⟨a, b, other, entangled⟩
    exact ⟨_, isCycle_sort_tangle entangled other⟩

/-- **The cycles of a graph are found, each once.** -/
theorem mem_cycles_iff (covered : g.Covered) {members : List Text} :
    members ∈ g.cycles ↔ g.IsCycle members := by
  rw [cycles, List.mem_eraseDups, List.mem_mergeSort, List.mem_filterMap]
  constructor
  · rintro ⟨a, -, found⟩
    obtain ⟨-, several, rfl⟩ := cycle?_eq_some_iff.mp found
    obtain ⟨b, mem, other⟩ := exists_mem_ne (g.nodup_tangle a) several a
    exact isCycle_sort_tangle (mem_tangle_iff.mp mem) other
  · intro cycle
    obtain ⟨a, b, other, entangled, rfl⟩ := cycle.exists_entangled
    have listed : a ∈ g.classes := by
      rcases ReflTransGen.cases_head entangled.1 with same | ⟨base, step, -⟩
      · exact absurd same.symm other
      · exact covered a base step
    have several := cycle.several
    rw [(sort_perm _).length_eq] at several
    exact ⟨a, listed, cycle?_eq_some_iff.mpr ⟨listed, several, rfl⟩⟩

theorem nodup_cycles (g : InheritanceGraph) : g.cycles.Nodup :=
  nodup_eraseDups _

/-- A graph is cyclic if a class inherits from itself. -/
theorem isCyclic_iff_transGen : g.isCyclic = true ↔ ∃ name, TransGen g.Declares name name := by
  rw [isCyclic, List.any_eq_true]
  constructor
  · rintro ⟨⟨name, base⟩, edge, back⟩
    exact ⟨name, TransGen.head' edge (reaches_iff.mp back)⟩
  · rintro ⟨name, circle⟩
    obtain ⟨base, step, back⟩ := TransGen.head'_iff.mp circle
    exact ⟨(name, base), step, reaches_iff.mpr back⟩

/-- A class inherits from itself if it is on a cycle or names itself as a base. -/
theorem isCyclic_iff : g.isCyclic = true ↔
    (∃ members, g.IsCycle members) ∨ ∃ name, g.Declares name name := by
  rw [isCyclic_iff_transGen, exists_isCycle_iff]
  constructor
  · rintro ⟨name, circle⟩
    obtain ⟨base, step, back⟩ := TransGen.head'_iff.mp circle
    by_cases same : base = name
    · exact .inr ⟨name, same ▸ step⟩
    · exact .inl ⟨name, base, same, .single step, back⟩
  · rintro (⟨a, b, other, there, back⟩ | ⟨name, step⟩)
    · rcases ReflTransGen.cases_head there with same | ⟨base, step, rest⟩
      · exact absurd same.symm other
      · exact ⟨a, TransGen.head' step (rest.trans back)⟩
    · exact ⟨name, .single step⟩

/-! ## 3. The graph of some records -/

variable {records more : List ClassRecord}

theorem declares_ofRecords_iff : (ofRecords records).Declares a b ↔
    ∃ record ∈ records, record.name = a ∧ b ∈ record.bases := by
  rw [← mem_bases_iff, bases_ofRecords, List.mem_flatMap]
  refine exists_congr fun record => and_congr_right fun _ => ?_
  split
  · next same => simp [same]
  · next other => simp [other]

theorem subset_classes_addClass (g : InheritanceGraph) (name : Text) :
    g.classes ⊆ (g.addClass name).classes := by
  intro a mem
  unfold addClass
  split
  · exact mem
  · exact List.mem_append_left _ mem

theorem mem_classes_addClass (g : InheritanceGraph) (name : Text) :
    name ∈ (g.addClass name).classes := by
  unfold addClass
  split
  · next there => exact List.contains_iff_mem.mp there
  · exact List.mem_append_right _ List.mem_cons_self

theorem subset_classes_addRecord (g : InheritanceGraph) (record : ClassRecord) :
    (g.addClass record.name).classes ⊆ (g.addRecord record).classes := by
  unfold addRecord
  generalize g.addClass record.name = g
  induction record.bases generalizing g with
  | nil => exact fun _ mem => mem
  | cons base bases ih =>
    intro a mem
    exact ih _ (subset_classes_addClass _ base (subset_classes_addClass g record.name mem))

theorem Covered.addRecord (covered : g.Covered) (record : ClassRecord) :
    (g.addRecord record).Covered := by
  intro name base edge
  have wider := subset_classes_addRecord g record
  rw [Declares, edges_addRecord] at edge
  rcases List.mem_append.mp edge with edge | edge
  · exact wider (subset_classes_addClass g _ (covered name base edge))
  · obtain ⟨_, -, same⟩ := List.mem_map.mp edge
    cases same
    exact wider (mem_classes_addClass g _)

theorem covered_ofRecords (records : List ClassRecord) : (ofRecords records).Covered := by
  have from_graph (g : InheritanceGraph) (covered : g.Covered) :
      (records.foldl InheritanceGraph.addRecord g).Covered := by
    induction records generalizing g with
    | nil => exact covered
    | cons record records ih => exact ih _ (covered.addRecord record)
  exact from_graph empty fun _ _ edge => by cases edge

/-- With more records there is more to inherit. -/
theorem Declares.mono (subset : records ⊆ more) (h : (ofRecords records).Declares a b) :
    (ofRecords more).Declares a b := by
  obtain ⟨record, mem, own⟩ := declares_ofRecords_iff.mp h
  exact declares_ofRecords_iff.mpr ⟨record, subset mem, own⟩

theorem exists_isCycle_mono (subset : records ⊆ more)
    (h : ∃ members, (ofRecords records).IsCycle members) :
      ∃ members, (ofRecords more).IsCycle members := by
  obtain ⟨a, b, other, there, back⟩ := exists_isCycle_iff.mp h
  have wider {a b : Text} (leads : ReflTransGen (ofRecords records).Declares a b) :
      ReflTransGen (ofRecords more).Declares a b :=
    ReflTransGen.mono (fun _ _ step => Declares.mono subset step) _ _ leads
  exact exists_isCycle_iff.mpr ⟨a, b, other, wider there, wider back⟩

end InheritanceGraph

namespace Survey

variable {s : Survey}

/-! ## 4. Reports behind a run -/

/-- The report of a survey. -/
def reported (s : Survey) : RunReport :=
  (s.run fun _ => report).1

/-- What is reported of a cycle. -/
def cycleNote (members : List Text) : Text :=
  "inheritance cycle: ".toList ++ Text.join ", ".toList members

theorem diagnostics_countHeader (r : RunReport) (h : ParsedHeader) :
    (countHeader r h).diagnostics = r.diagnostics := by
  unfold countHeader
  split <;> rfl

theorem diagnostics_foldl_countHeader (r : RunReport) (headers : List ParsedHeader) :
    (headers.foldl countHeader r).diagnostics = r.diagnostics := by
  induction headers generalizing r with
  | nil => rfl
  | cons h headers ih => rw [List.foldl_cons, ih, diagnostics_countHeader]

theorem diagnostics_reportCycles (r : RunReport) (g : InheritanceGraph) :
    (reportCycles r g).diagnostics = r.diagnostics ++ g.cycles.map cycleNote := by
  unfold reportCycles
  induction g.cycles generalizing r with
  | nil => exact (List.append_nil _).symm
  | cons cycle cycles ih =>
    rw [List.foldl_cons, ih, RunReport.addDiagnostic, List.map_cons, List.append_assoc]
    rfl

theorem diagnostics_startPhase (phase : String) (s : Survey) :
    (startPhase phase s).reported.diagnostics = s.reported.diagnostics := by
  show (s.memory.report.startPhase phase.toList).diagnostics = _
  unfold RunReport.startPhase
  split <;> rfl

theorem diagnostics_endPhase (phase : String) (s : Survey) :
    (endPhase phase s).reported.diagnostics = s.reported.diagnostics := by
  show (s.memory.report.endPhase phase.toList).diagnostics = _
  unfold RunReport.endPhase
  split <;> rfl

theorem diagnostics_merge (s : Survey) (headers : List ParsedHeader) :
    (s.merge headers).reported.diagnostics =
      s.reported.diagnostics ++ (s.merge headers).knowledge.graph.cycles.map cycleNote := by
  show (reportCycles _ _).diagnostics = _
  rw [diagnostics_reportCycles, diagnostics_foldl_countHeader]
  rfl

theorem diagnostics_scan (s : Survey) (headers : List Header) :
    (s.scan headers).reported.diagnostics =
      s.reported.diagnostics ++ (s.scan headers).knowledge.graph.cycles.map cycleNote := by
  unfold scan inPhase
  rw [diagnostics_endPhase, diagnostics_merge, diagnostics_startPhase, diagnostics_endPhase, id,
    diagnostics_startPhase]
  rfl

/-- A step in which headers are merged: those that are given, read or not, or those below some
roots. -/
inductive Merges (s : Survey) : Survey → Prop
  | merge (headers : List ParsedHeader) : Merges s (s.merge headers)
  | scan (headers : List Header) : Merges s (s.scan headers)
  | scanRoots {tree : Files.FileTree} {roots : List Text} {found : List Files.FoundHeader}
    (discovered : discover s.knowledge.settings tree roots = .ok found) :
    Merges s (s.scanRoots tree roots).1

/-- A survey behind merges and scans.  Where a root cannot be searched, nothing is merged. -/
inductive Scanned : Survey → Prop
  | opened (settings : Settings) (oracle : Reflection.Oracle) (map : ClassMap) (updating : Bool)
    (listings : Table Listing) : Scanned (opened settings oracle map updating listings)
  | merges {s later : Survey} (scanned : Scanned s) (step : s.Merges later) : Scanned later
  | undiscovered {s : Survey} (scanned : Scanned s) {tree : Files.FileTree} {roots : List Text}
    {fault : RootFault} (failed : discover s.knowledge.settings tree roots = .error fault) :
    Scanned (s.scanRoots tree roots).1

variable {later : Survey} {tree : Files.FileTree} {roots : List Text}

theorem scanRoots_of_found {found : List Files.FoundHeader}
    (discovered : discover s.knowledge.settings tree roots = .ok found) :
    (s.scanRoots tree roots).1 =
      scan (inPhase "read" id (endPhase "discover" (startPhase "discover" s)))
        (found.map headerOf) := by
  have same : discover (startPhase "discover" s).knowledge.settings tree roots = .ok found :=
    discovered
  unfold Survey.scanRoots
  dsimp only
  rw [same]

theorem scanRoots_of_fault {fault : RootFault}
    (failed : discover s.knowledge.settings tree roots = .error fault) :
    (s.scanRoots tree roots).1 = startPhase "discover" s := by
  have same : discover (startPhase "discover" s).knowledge.settings tree roots = .error fault :=
    failed
  unfold Survey.scanRoots
  dsimp only
  rw [same]

theorem Merges.reached (step : s.Merges later) (reached : s.Reached) : later.Reached := by
  cases step with
  | merge headers => exact reached.merge headers
  | scan headers => exact reached.scan headers
  | scanRoots discovered => exact reached.scanRoots _ _

theorem Scanned.reached (scanned : s.Scanned) : s.Reached := by
  induction scanned with
  | opened settings oracle map updating listings =>
    exact reached_opened settings oracle map updating listings
  | merges _ step ih => exact step.reached ih
  | undiscovered _ _ ih => exact ih.scanRoots _ _

theorem knowledge_scan_eq_merge (s : Survey) (headers : List Header) :
    ∃ parsed, (s.scan headers).knowledge = s.knowledge.merge parsed :=
  ⟨_, rfl⟩

theorem Merges.knowledge (step : s.Merges later) :
    ∃ headers, later.knowledge = s.knowledge.merge headers := by
  cases step with
  | merge headers => exact ⟨headers, rfl⟩
  | scan headers => exact knowledge_scan_eq_merge s headers
  | scanRoots discovered =>
    rw [scanRoots_of_found discovered]
    exact knowledge_scan_eq_merge _ _

/-- **A merge reports all cycles of the classes that are known behind it.** -/
theorem Merges.diagnostics (step : s.Merges later) : later.reported.diagnostics =
    s.reported.diagnostics ++ later.knowledge.graph.cycles.map cycleNote := by
  cases step with
  | merge headers => exact diagnostics_merge s headers
  | scan headers => exact diagnostics_scan s headers
  | scanRoots discovered =>
    rw [scanRoots_of_found discovered, diagnostics_scan]
    unfold inPhase
    rw [diagnostics_endPhase, id, diagnostics_startPhase, diagnostics_endPhase,
      diagnostics_startPhase]

/-! ## 5. What is known is known later on -/

namespace Knowledge

variable {k : Knowledge} {record : ClassRecord}

theorem mem_records_iff :
    record ∈ k.records ↔ ∃ name c, k.classes.get? name = some c ∧ c.record = record := by
  simp [records, Table.values, Table.get?_eq_some_iff]

/-- A class that is known stays as it is. -/
theorem records_mergeClass (k : Knowledge) (c : Outline.ClassOutline) :
    k.records ⊆ (k.mergeClass c).records := by
  intro record mem
  obtain ⟨name, known, found, own⟩ := mem_records_iff.mp mem
  refine mem_records_iff.mpr ⟨name, known, ?_, own⟩
  show (k.classes.insertNew c.record.name c).get? name = some known
  rw [Table.get?_insertNew]
  split
  · next same => rw [← same, found, Option.getD_some]
  · exact found

theorem records_merge (k : Knowledge) (headers : List ParsedHeader) :
    k.records ⊆ (k.merge headers).records :=
  foldl_mergeHeader_keeps (P := fun later => k.records ⊆ later.records)
    (fun later c subset => List.Subset.trans subset (records_mergeClass later c))
    (fun _ mem => mem) _

end Knowledge

/-- What was on a cycle is still on one. -/
theorem Merges.exists_isCycle (step : s.Merges later) (reached : s.Reached)
    (h : ∃ members, s.knowledge.graph.IsCycle members) :
    ∃ members, later.knowledge.graph.IsCycle members := by
  obtain ⟨headers, known⟩ := step.knowledge
  rw [reached.inOrder.graph] at h
  rw [(step.reached reached).inOrder.graph, known]
  exact InheritanceGraph.exists_isCycle_mono (Knowledge.records_merge _ _) h

/-! ## 6. Cycles and their reports -/

/-- The report holds the cycles of what is known, each once, behind what was reported earlier. -/
def AddsCycles (s : Survey) (earlier : List Text) : Prop :=
  ∃ cycles : List (List Text), cycles.Nodup ∧
    (∀ members, members ∈ cycles ↔ s.knowledge.graph.IsCycle members) ∧
    s.reported.diagnostics = earlier ++ cycles.map cycleNote

theorem Merges.addsCycles (step : s.Merges later) (reached : s.Reached) :
    later.AddsCycles s.reported.diagnostics := by
  have covered : later.knowledge.graph.Covered := by
    rw [(step.reached reached).inOrder.graph]
    exact InheritanceGraph.covered_ofRecords _
  exact ⟨_, InheritanceGraph.nodup_cycles _, fun _ => InheritanceGraph.mem_cycles_iff covered,
    step.diagnostics⟩

/-- Something is reported if and only if there is a cycle. -/
def NotesCycles (s : Survey) : Prop :=
  s.reported.diagnostics ≠ [] ↔ ∃ members, s.knowledge.graph.IsCycle members

theorem notesCycles_opened (settings : Settings) (oracle : Reflection.Oracle) (map : ClassMap)
    (updating : Bool) (listings : Table Listing) :
    (opened settings oracle map updating listings).NotesCycles := by
  constructor
  · intro noted
    exact absurd rfl noted
  · intro cycle
    obtain ⟨a, b, other, leads, -⟩ := InheritanceGraph.exists_isCycle_iff.mp cycle
    rcases ReflTransGen.cases_head leads with same | ⟨base, step, -⟩
    · exact absurd same.symm other
    · cases step

theorem Merges.notesCycles (step : s.Merges later) (reached : s.Reached) (h : s.NotesCycles) :
    later.NotesCycles := by
  obtain ⟨cycles, -, found, report⟩ := step.addsCycles reached
  unfold NotesCycles
  rw [report, Ne, List.append_eq_nil_iff, List.map_eq_nil_iff, not_and_or]
  constructor
  · rintro (earlier | now)
    · exact step.exists_isCycle reached (h.mp earlier)
    · obtain ⟨members, mem⟩ := List.exists_mem_of_ne_nil cycles now
      exact ⟨members, (found members).mp mem⟩
  · rintro ⟨members, cycle⟩
    exact .inr (List.ne_nil_of_mem ((found members).mpr cycle))

theorem Scanned.notesCycles (scanned : s.Scanned) : s.NotesCycles := by
  induction scanned with
  | opened settings oracle map updating listings =>
    exact notesCycles_opened settings oracle map updating listings
  | merges scanned step ih => exact step.notesCycles scanned.reached ih
  | undiscovered _ failed ih =>
    rw [scanRoots_of_fault failed, NotesCycles, diagnostics_startPhase]
    exact ih

/-- What a survey says of cycles, and what it will say behind one more step. -/
structure ReportsCycles (s : Survey) : Prop where
  /-- The graph is that of the declared bases. -/
  declares : ∀ a b, s.knowledge.graph.Declares a b ↔
    ∃ record ∈ s.knowledge.records, record.name = a ∧ b ∈ record.bases
  cyclic : s.knowledge.graph.isCyclic = true ↔ ∃ name, TransGen s.knowledge.graph.Declares name name
  notes : s.NotesCycles
  /-- The graph is cyclic as well if a class names itself, of which nothing is reported. -/
  cyclic_iff : s.knowledge.graph.isCyclic = true ↔
    s.reported.diagnostics ≠ [] ∨ ∃ name, s.knowledge.graph.Declares name name
  /-- The first merge behind which there are cycles reports those. -/
  first : (∀ members, ¬ s.knowledge.graph.IsCycle members) →
    ∀ later, s.Merges later → later.AddsCycles []
  /-- Every merge reports all cycles, be they reported already or not. -/
  again : ∀ later, s.Merges later → later.AddsCycles s.reported.diagnostics

/-- **Every merge reports every cycle of several classes, once.**  So behind merges and scans
something is reported if and only if there is such a cycle, and exactly one line for each if the
merges before the last one saw none.  A class that is alone on its cycle makes the graph cyclic, but
is never reported. -/
theorem reportsCycles_scanned (scanned : s.Scanned) : s.ReportsCycles where
  declares a b := by
    rw [scanned.reached.inOrder.graph]
    exact InheritanceGraph.declares_ofRecords_iff
  cyclic := InheritanceGraph.isCyclic_iff_transGen
  notes := scanned.notesCycles
  cyclic_iff := InheritanceGraph.isCyclic_iff.trans (or_congr_left scanned.notesCycles.symm)
  first none_there later step := by
    have quiet : s.reported.diagnostics = [] := by
      by_contra noted
      obtain ⟨members, cycle⟩ := scanned.notesCycles.mp noted
      exact none_there members cycle
    exact quiet ▸ step.addsCycles scanned.reached
  again later step := step.addsCycles scanned.reached

/-- A header of two classes that inherit from each other. -/
def mutualHeader : ParsedHeader :=
  ⟨"m.h".toList, .ok [
    ⟨⟨"A".toList, ["B".toList], [], "m.h".toList⟩, false, [], []⟩,
    ⟨⟨"B".toList, ["A".toList], [], "m.h".toList⟩, false, [], []⟩]⟩

theorem reportsCycles_scanned_mutual :
    ((start {} .ignorant).merge [mutualHeader]).Scanned ∧
      ((start {} .ignorant).merge [mutualHeader]).ReportsCycles := by
  have scanned : ((start {} .ignorant).merge [mutualHeader]).Scanned :=
    .merges (.opened {} .ignorant .empty false .empty) (.merge [mutualHeader])
  exact ⟨scanned, reportsCycles_scanned scanned⟩

/-- A header of a class that names itself as its base. -/
def selfHeader : ParsedHeader :=
  ⟨"s.h".toList, .ok [⟨⟨"A".toList, ["A".toList], [], "s.h".toList⟩, false, [], []⟩]⟩

theorem graph_selfHeader : ((start {} .ignorant).merge [selfHeader]).knowledge.graph =
    .ofRecords [⟨"A".toList, ["A".toList], [], "s.h".toList⟩] := by
  show InheritanceGraph.ofRecords
    (Knowledge.records (List.foldl _ _ (sortByPath _ [selfHeader]))) = _
  rw [sortByPath, List.mergeSort_singleton]
  rfl

/-- That class makes the graph cyclic, and nothing is reported. -/
theorem silent_selfHeader :
    ((start {} .ignorant).merge [selfHeader]).Scanned ∧
      ((start {} .ignorant).merge [selfHeader]).knowledge.graph.isCyclic = true ∧
        ((start {} .ignorant).merge [selfHeader]).reported.diagnostics = [] := by
  have scanned : ((start {} .ignorant).merge [selfHeader]).Scanned :=
    .merges (.opened {} .ignorant .empty false .empty) (.merge [selfHeader])
  rw [diagnostics_merge, graph_selfHeader]
  have alone :
      (InheritanceGraph.ofRecords [⟨"A".toList, ["A".toList], [], "s.h".toList⟩]).classes.filterMap
      (InheritanceGraph.ofRecords [⟨"A".toList, ["A".toList], [], "s.h".toList⟩]).cycle? = [] := by
    decide +kernel
  refine ⟨scanned, by decide +kernel, ?_⟩
  rw [InheritanceGraph.cycles, alone, List.mergeSort_nil]
  rfl

end Survey
end AccessorCatalog

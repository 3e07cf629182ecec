/-
# The report adds up

While a survey runs, it counts: headers when they are merged, entries when they are built, in
different places of the program.  `report_addsUp` says what the counts come to: behind any run the
report is the tally of the headers that the run merged and of the entries that it returned, each
counted once.

Most of what a question does leaves the tally alone (`Silent`).  Only the last step of an entry
counts, and every entry gets there: a class with a record has accessors to collect, even if they are
none (`Knowledge.exists_collected`), so the early return of `entry` is never taken.  The chained
methods of an entry can be told from the others, and so they can be counted in what a run returns
(`MethodAccessor.isChained`).
-/
import AccessorCatalog.Proofs.Nearest

namespace AccessorCatalog

open Declaration

/-! ## 1. Chained methods -/

/-- A chained method has its signature for a name, and no other listed method has. -/
def MethodAccessor.isChained (m : MethodAccessor) : Bool :=
  m.name == m.signature

theorem isChained_of_method? {s : Signature} {className : Text} {m : MethodAccessor}
    (selected : Selection.method? s className = some m) : m.isChained = false :=
  beq_eq_false_iff_ne.mpr (name_ne_signature selected)

theorem Chain.isChained_join (chain : Chain) (link : MethodAccessor) :
    (chain.join link).isChained = true :=
  beq_self_eq_true _

theorem Chain.Completes.isChained {source : ChainSource Id} {more : Nat} {chain : Chain}
    {a : MethodAccessor} (completes : Completes source more chain a) : a.isChained = true := by
  induction completes with
  | ends => exact isChained_join _ _
  | goes _ _ _ _ ih => exact ih

namespace Survey

/-- No method that declarations give is chained. -/
def OwnAccessors.Plain (own : OwnAccessors) : Prop :=
  ∀ m ∈ own.methods, m.2.isChained = false

theorem OwnAccessors.plain_ofDeclarations (className : Text) (methods : List Signature)
    (members : List Member) : (ofDeclarations className methods members).Plain := by
  intro m mem
  obtain ⟨s, -, keyed⟩ := List.mem_filterMap.mp mem
  obtain ⟨selected, method, rfl⟩ := Option.map_eq_some_iff.mp keyed
  exact isChained_of_method? method

/-- Layers of plain accessors are plain. -/
theorem plain_flattenLayers {layers : List OwnAccessors} (plain : ∀ own ∈ layers, own.Plain) :
    (flattenLayers layers).Plain := by
  rw [flattenLayers_eq]
  intro m mem
  obtain ⟨own, listed, mem⟩ := exists_layer_of_mem_firstOfKeys mem
  exact plain own listed m mem

namespace Knowledge

variable {k : Knowledge} {name : Text}

theorem plain_of_own? {own : OwnAccessors} {origin : Origin}
    (known : k.own? name = some (own, origin)) : own.Plain := by
  unfold own? at known
  split at known
  · cases known
    exact OwnAccessors.plain_ofDeclarations _ _ _
  · obtain ⟨c, -, same⟩ := Option.map_eq_some_iff.mp known
    cases same
    exact OwnAccessors.plain_ofDeclarations _ _ _

theorem plain_of_mem_inherited {origin : Origin} :
    ∀ own ∈ k.inherited name origin, own.Plain := by
  intro own mem
  cases origin with
  | oracle => cases mem
  | header =>
    obtain ⟨base, -, layer⟩ := List.mem_filterMap.mp mem
    obtain ⟨⟨_, origin⟩, known, same⟩ := Option.map_eq_some_iff.mp layer
    subst same
    exact plain_of_own? known

/-- The collected methods of a class are its own or inherited, so none is chained. -/
theorem plain_of_collected {found : Collected} (collected : k.collected name = some found) :
    found.accessors.Plain := by
  rw [k.collected_eq] at collected
  obtain ⟨⟨own, origin⟩, known, rfl⟩ := Option.map_eq_some_iff.mp collected
  refine plain_flattenLayers fun layer mem => ?_
  rcases List.mem_cons.mp mem with rfl | mem
  · exact plain_of_own? known
  · exact plain_of_mem_inherited layer mem

/-- A class with a record has accessors to collect: both come from its header, or both from the
oracle. -/
theorem exists_collected {record : ClassRecord} (known : k.record? name = some record) :
    ∃ found, k.collected name = some found := by
  have own : ∃ own origin, k.own? name = some (own, origin) := by
    unfold own?
    cases info : k.info? name with
    | some info => exact ⟨_, _, rfl⟩
    | none =>
      unfold record? at known
      rw [info] at known
      cases found : k.classes.get? name with
      | some c => exact ⟨_, _, rfl⟩
      | none =>
        rw [found] at known
        cases known
  obtain ⟨own, origin, known⟩ := own
  rw [k.collected_eq, layered, known]
  exact ⟨_, rfl⟩

theorem isChained_of_mem_rootsOf {found : Collected} (plain : found.accessors.Plain) :
    ∀ m ∈ (k.rootsOf found).map Prod.snd, m.isChained = false := by
  intro m mem
  obtain ⟨root, listed, rfl⟩ := List.mem_map.mp mem
  exact plain root (List.mem_of_mem_filter listed)

theorem isChained_of_mem_chained {roots : List (Text × MethodAccessor)} :
    ∀ m ∈ k.chained name roots, m.isChained = true := by
  intro m mem
  obtain ⟨root, -, starts⟩ := startsFrom_of_mem_chained mem
  exact starts.isChained

theorem countP_isChained_rootsOf {found : Collected} (plain : found.accessors.Plain) :
    ((k.rootsOf found).map Prod.snd).countP MethodAccessor.isChained = 0 := by
  rw [List.countP_eq_zero]
  intro m mem
  rw [isChained_of_mem_rootsOf plain m mem]
  exact Bool.false_ne_true

theorem countP_isChained_chained (roots : List (Text × MethodAccessor)) :
    (k.chained name roots).countP MethodAccessor.isChained = (k.chained name roots).length :=
  List.countP_eq_length.mpr isChained_of_mem_chained

end Knowledge

/-! ## 2. The tally -/

/-- The failure of a header that cannot be read. -/
def ParsedHeader.failure? (h : ParsedHeader) : Option HeaderFailure :=
  match h.outcome with
  | .ok _ => none
  | .error e => some ⟨h.path, e.message⟩

/-- What adds up in a report. -/
structure Tally where
  headersScanned : Nat
  failures : List HeaderFailure
  classesFound : Nat
  classesCataloged : Nat
  emptyCatalogs : Nat
  methods : Nat
  chainedMethods : Nat
  members : Nat
  deriving DecidableEq, Repr

/-- The tally of merged headers and returned entries. -/
def Tally.of (headers : List ParsedHeader) (entries : List CatalogEntry) : Tally where
  headersScanned := headers.length
  failures := headers.filterMap ParsedHeader.failure?
  classesFound := (headers.flatMap ParsedHeader.classes).length
  classesCataloged := entries.length
  emptyCatalogs := entries.countP CatalogEntry.isEmpty
  methods := (entries.flatMap CatalogEntry.methods).length
  chainedMethods := (entries.flatMap CatalogEntry.methods).countP MethodAccessor.isChained
  members := (entries.flatMap CatalogEntry.members).length

namespace Tally

variable (t : Tally) (headers : List ParsedHeader) (entries : List CatalogEntry)

/-- The tally with one more header. -/
def addHeader (h : ParsedHeader) : Tally :=
  { t with
    headersScanned := t.headersScanned + 1
    failures := t.failures ++ h.failure?.toList
    classesFound := t.classesFound + h.classes.length }

/-- The tally with one more entry. -/
def addEntry (e : CatalogEntry) : Tally :=
  { t with
    classesCataloged := t.classesCataloged + 1
    emptyCatalogs := t.emptyCatalogs + if e.isEmpty then 1 else 0
    methods := t.methods + e.methods.length
    chainedMethods := t.chainedMethods + e.methods.countP MethodAccessor.isChained
    members := t.members + e.members.length }

theorem of_append_headers (more : List ParsedHeader) :
    of (headers ++ more) entries = more.foldl addHeader (of headers entries) := by
  induction more generalizing headers with
  | nil => rw [List.append_nil]; rfl
  | cons h more ih =>
    have failures : (headers ++ [h]).filterMap ParsedHeader.failure? =
        headers.filterMap ParsedHeader.failure? ++ h.failure?.toList := by
      rw [List.filterMap_append, List.filterMap_cons]
      cases h.failure? <;> rfl
    have next : of (headers ++ [h]) entries = (of headers entries).addHeader h := by
      simp [of, addHeader, failures]
    rw [List.foldl_cons, ← next, ← ih, List.append_assoc]
    rfl

theorem of_append_entries (more : List CatalogEntry) :
    of headers (entries ++ more) = more.foldl addEntry (of headers entries) := by
  induction more generalizing entries with
  | nil => rw [List.append_nil]; rfl
  | cons e more ih =>
    have next : of headers (entries ++ [e]) = (of headers entries).addEntry e := by
      simp [of, addEntry, List.countP_cons]
    rw [List.foldl_cons, ← next, ← ih, List.append_assoc]
    rfl

end Tally

end Survey

open Survey (Tally)

namespace RunReport

/-- The part of a report that adds up. -/
def tally (r : RunReport) : Tally :=
  ⟨r.headersScanned, r.failures, r.classesFound, r.classesCataloged, r.emptyCatalogs, r.methods,
    r.chainedMethods, r.members⟩

variable (r : RunReport)

theorem tally_startPhase (phase : Text) : (r.startPhase phase).tally = r.tally := by
  unfold startPhase
  split <;> rfl

theorem tally_endPhase (phase : Text) : (r.endPhase phase).tally = r.tally := by
  unfold endPhase
  split <;> rfl

theorem tally_countHeader (h : Survey.ParsedHeader) :
    (Survey.countHeader r h).tally = r.tally.addHeader h := by
  unfold Survey.countHeader Tally.addHeader Survey.ParsedHeader.failure? Survey.ParsedHeader.classes
  cases h.outcome with
  | ok classes => simp [tally, addHeader, addClasses]
  | error e => simp [tally, addHeader, addFailure]

theorem tally_foldl_countHeader (headers : List Survey.ParsedHeader) :
    (headers.foldl Survey.countHeader r).tally = headers.foldl Tally.addHeader r.tally := by
  induction headers generalizing r with
  | nil => rfl
  | cons h headers ih => rw [List.foldl_cons, List.foldl_cons, ih, tally_countHeader]

theorem tally_reportCycles (g : InheritanceGraph) : (Survey.reportCycles r g).tally = r.tally := by
  unfold Survey.reportCycles
  induction g.cycles generalizing r with
  | nil => rfl
  | cons cycle cycles ih => exact (ih _).trans rfl

theorem tally_addEntry (e : CatalogEntry) :
    (r.addEntry e.methods.length (e.methods.countP MethodAccessor.isChained)
        e.members.length).tally =
      r.tally.addEntry e := by
  simp [addEntry, Tally.addEntry, tally, CatalogEntry.isEmpty]

end RunReport

namespace Survey

variable {α β : Type} {k : Knowledge}

/-! ## 3. What leaves the tally alone -/

/-- A computation after which the tally is as before. -/
def Silent (build : Build α) : Prop :=
  ∀ m : Memory, (build m).2.report.tally = m.report.tally

theorem silent_pure (a : α) : Silent (pure a : Build α) := by
  intro m
  rfl

theorem Silent.bind {build : Build α} {next : α → Build β} (first : Silent build)
    (second : ∀ a, Silent (next a)) : Silent (build >>= next) := by
  intro m
  exact (second _ _).trans (first m)

theorem silent_get_bind {next : Memory → Build β} (h : ∀ m, Silent (next m)) :
    Silent (get >>= next) := by
  intro m
  exact h m m

theorem silent_modify {change : Memory → Memory}
    (same : ∀ m, (change m).report.tally = m.report.tally) : Silent (modify change) := by
  intro m
  exact same m

theorem silent_note {change : RunReport → RunReport} (same : ∀ r, (change r).tally = r.tally) :
    Silent (note change) :=
  silent_modify fun m => same m.report

theorem compositional_silent : Compositional k Silent where
  pure := silent_pure
  bind := Silent.bind
  ask := fun _ _ => rfl

theorem silent_ownAccessors (name : Text) : Silent (ownAccessors k name) := by
  refine (compositional_silent.ask name).bind fun info? => ?_
  cases info? with
  | some info => exact silent_pure _
  | none =>
    dsimp only
    cases k.classes.get? name with
    | some c => exact .bind (silent_note fun _ => rfl) fun _ => silent_pure _
    | none => exact silent_pure _

theorem silent_baseLayers (bases : List Text) : Silent (baseLayers k bases) := by
  induction bases with
  | nil => exact silent_pure _
  | cons base bases ih =>
    exact (silent_ownAccessors base).bind fun _ => ih.bind fun _ => silent_pure _

theorem silent_reportOverrun (name : Text) : Silent (reportOverrun k name) := by
  refine silent_get_bind fun m => ?_
  split
  · exact silent_pure _
  · exact .bind (silent_modify fun _ => rfl) fun _ => silent_note fun _ => rfl

theorem silent_collect (name : Text) : Silent (collect k name) := by
  refine (silent_ownAccessors name).bind fun own? => ?_
  obtain _ | ⟨own, origin⟩ := own?
  · exact silent_pure _
  refine (compositional_silent.baseChain name).bind fun chain => ?_
  have layered (inherited : Build (List OwnAccessors)) (silent : Silent inherited) :
      Silent (do
        let inherited ← inherited
        return some (Collected.mk (flattenLayers (own :: inherited)) chain.bases)) :=
    silent.bind fun _ => silent_pure _
  cases origin with
  | oracle =>
    dsimp only
    split
    · exact (silent_reportOverrun name).bind fun _ => layered _ (silent_pure _)
    · exact layered _ (silent_pure _)
  | header =>
    dsimp only
    split
    · exact (silent_reportOverrun name).bind fun _ => layered _ (silent_baseLayers _)
    · exact layered _ (silent_baseLayers _)

theorem silent_links (name : Text) : Silent (links k name) := by
  refine silent_get_bind fun m => ?_
  split
  · exact silent_pure _
  · refine (silent_collect name).bind fun found => ?_
    exact .bind (silent_modify fun _ => rfl) fun _ => silent_pure _

theorem silent_mapM {f : α → Build β} (h : ∀ a, Silent (f a)) (as : List α) :
    Silent (as.mapM f) := by
  induction as with
  | nil => exact silent_pure _
  | cons a as ih =>
    rw [List.mapM_cons]
    exact (h a).bind fun _ => ih.bind fun _ => silent_pure _

theorem silent_follow (chain : Chain) : Silent (Chain.follow (chainSource k) chain) := by
  unfold Chain.follow
  split
  · refine (compositional_silent.resolve _ _).bind fun target? => ?_
    split
    · split
      · exact silent_pure _
      · exact (silent_links _).bind fun _ => silent_pure _
    · exact silent_pure _
  · exact silent_pure _

theorem silent_expandLevels (more : Nat) (chains : List Chain) :
    Silent (Chain.expandLevels (chainSource k) more chains) := by
  induction more generalizing chains with
  | zero => exact (silent_mapM silent_follow chains).bind fun _ => silent_pure _
  | succ more ih =>
    refine (silent_mapM silent_follow chains).bind fun continued => ?_
    dsimp only
    split
    · exact silent_pure _
    · exact (ih _).bind fun _ => silent_pure _

theorem silent_chains (name : Text) (methods : List (Text × MethodAccessor)) :
    Silent (chains k name methods) := by
  unfold chains
  split
  · exact (silent_expandLevels _ _).bind fun _ => silent_pure _
  · exact silent_pure _

theorem silent_isListable (type owner : Text) : Silent (isListable k type owner) := by
  unfold isListable
  split
  · exact silent_pure _
  · exact (compositional_silent.resolve _ _).bind fun _ => silent_pure _
  · exact silent_pure _

theorem silent_keepListable {test : α → Build Bool} (h : ∀ a, Silent (test a)) (as : List α) :
    Silent (keepListable test as) := by
  induction as with
  | nil => exact silent_pure _
  | cons a as ih => exact (h a).bind fun _ => ih.bind fun _ => silent_pure _

theorem silent_recordOf (name : Text) : Silent (recordOf k name) := by
  refine (compositional_silent.ask name).bind fun info? => ?_
  split <;> exact silent_pure _

theorem silent_report : Silent report :=
  .bind (silent_modify fun _ => rfl) fun _ => silent_get_bind fun _ => silent_pure _

/-! ## 4. Entries are counted -/

/-- A computation after which some entries have been counted, from every memory in order. -/
def Counts (k : Knowledge) (build : Build α) (entries : List CatalogEntry) : Prop :=
  ∀ m : Memory, m.Sound k →
    (build m).2.report.tally = entries.foldl Tally.addEntry m.report.tally

theorem Silent.counts {build : Build α} (silent : Silent build) : Counts k build [] := by
  intro m _
  exact silent m

/-- What counts behind a computation depends on its answer. -/
theorem Counts.bind {build : Build α} {next : α → Build β} {a : α}
    {entries more : List CatalogEntry}
    (first : Counts k build entries) (answers : Answers k build a)
    (second : Counts k (next a) more) :
    Counts k (build >>= next) (entries ++ more) := by
  intro m sound
  obtain ⟨m', built, sound'⟩ := answers m sound
  have counted := first m sound
  rw [built] at counted
  show (next (build m).1 (build m).2).2.report.tally = _
  rw [built, second m' sound', counted, List.foldl_append]

theorem Silent.bind_counts {build : Build α} {next : α → Build β} {a : α}
    {entries : List CatalogEntry} (silent : Silent build) (answers : Answers k build a)
    (second : Counts k (next a) entries) : Counts k (build >>= next) entries :=
  silent.counts.bind answers second

theorem Counts.bind_silent {build : Build α} {next : α → Build β} {entries : List CatalogEntry}
    (first : Counts k build entries) (silent : ∀ a, Silent (next a)) :
    Counts k (build >>= next) entries := by
  intro m sound
  exact (silent _ _).trans (first m sound)

theorem counts_addEntry (e : CatalogEntry) :
    Counts k (note fun r => r.addEntry e.methods.length
      (e.methods.countP MethodAccessor.isChained) e.members.length) [e] := by
  intro m _
  exact m.report.tally_addEntry e

theorem counts_entry (name : Text) : Counts k (entry k name) (k.entryOf name).toList := by
  refine (silent_recordOf name).bind_counts (answers_recordOf name) ?_
  unfold Knowledge.entryOf
  cases known : k.record? name with
  | none => exact (silent_pure _).counts
  | some record =>
    obtain ⟨found, collected⟩ := Knowledge.exists_collected known
    refine (silent_collect name).bind_counts (answers_collect name) ?_
    rw [collected]
    have methods (m : Text × MethodAccessor) :
        Answers k (isListable k m.2.returnType m.2.owner) (k.lists m.2.returnType m.2.owner) :=
      answers_isListable _ _
    have members (m : MemberAccessor) :
        Answers k (isListable k m.type m.owner) (k.lists m.type m.owner) :=
      answers_isListable _ _
    refine Silent.bind_counts (silent_keepListable (fun _ => silent_isListable _ _) _)
      (answers_keepListable methods _) ?_
    refine Silent.bind_counts (silent_keepListable (fun _ => silent_isListable _ _) _)
      (answers_keepListable members _) ?_
    refine (silent_chains name _).bind_counts (answers_chains name _) ?_
    let e : CatalogEntry :=
      ⟨record, (k.rootsOf found).map Prod.snd ++ k.chained name (k.rootsOf found),
      found.accessors.members.filter fun m => k.lists m.type m.owner, found.bases⟩
    have chained : e.methods.countP MethodAccessor.isChained =
        (k.chained name (k.rootsOf found)).length := by
      rw [List.countP_append, Knowledge.countP_isChained_chained,
        Knowledge.countP_isChained_rootsOf (Knowledge.plain_of_collected collected), Nat.zero_add]
    have noted := counts_addEntry (k := k) e
    rw [chained] at noted
    exact noted.bind_silent fun _ => silent_pure _

theorem counts_entriesOf (names : List Text) :
    Counts k (entriesOf k names) (names.filterMap k.entryOf) := by
  induction names with
  | nil => exact (silent_pure _).counts
  | cons name names ih =>
    have all : (name :: names).filterMap k.entryOf =
        (k.entryOf name).toList ++ names.filterMap k.entryOf := by
      rw [List.filterMap_cons]
      cases k.entryOf name <;> rfl
    rw [all]
    exact (counts_entry name).bind (answers_entry name) (ih.bind_silent fun _ => silent_pure _)

theorem counts_entries : Counts k (entries k) ((catalogedNames k).filterMap k.entryOf) := by
  refine Silent.bind_counts (silent_note fun r => r.tally_startPhase _) (answers_note _) ?_
  refine (counts_entriesOf _).bind_silent fun found => ?_
  exact .bind (silent_note fun r => r.tally_endPhase _) fun _ => silent_pure _

/-- A question counts the entries that it returns. -/
theorem Question.counts (question : Question) : Counts k (question.ask k) (question.found k) := by
  cases question with
  | resolve name scope =>
    refine Silent.counts ?_
    exact (compositional_silent.resolve name scope).bind fun _ => silent_pure _
  | links name =>
    refine Silent.counts ?_
    exact (silent_links name).bind fun _ => silent_pure _
  | entry name => exact (counts_entry name).bind_silent fun _ => silent_pure _
  | entries => exact counts_entries
  | report =>
    refine Silent.counts ?_
    exact silent_report.bind fun _ => silent_pure _

/-! ## 5. Runs -/

variable {s : Survey} {headers : List ParsedHeader} {entries : List CatalogEntry}

theorem tally_merge (s : Survey) (merged : List ParsedHeader) :
    (s.merge merged).memory.report.tally =
      (sortByPath ParsedHeader.path merged).foldl Tally.addHeader s.memory.report.tally := by
  show (reportCycles _ _).tally = _
  rw [RunReport.tally_reportCycles, RunReport.tally_foldl_countHeader]

theorem tally_startPhase (phase : String) (s : Survey) :
    (startPhase phase s).memory.report.tally = s.memory.report.tally :=
  s.memory.report.tally_startPhase phase.toList

theorem tally_endPhase (phase : String) (s : Survey) :
    (endPhase phase s).memory.report.tally = s.memory.report.tally :=
  s.memory.report.tally_endPhase phase.toList

/-- The phases of a scan do not count. -/
theorem tally_scan (s : Survey) (scanned : List Header) :
    (s.scan scanned).memory.report.tally =
      (readings s.knowledge.settings.maxConstruct scanned).foldl Tally.addHeader
        s.memory.report.tally := by
  have parsed : (inPhase "parse" id s).memory.report.tally = s.memory.report.tally := by
    unfold inPhase
    rw [tally_endPhase, id_eq, tally_startPhase]
  show (endPhase "merge" ((startPhase "merge" (inPhase "parse" id s)).merge
    (readings s.knowledge.settings.maxConstruct scanned))).memory.report.tally = _
  rw [tally_endPhase, tally_merge, sortByPath_readings, tally_startPhase, parsed]

/-- **A call counts the headers that it merges and the entries that it returns.** -/
theorem tally_perform (reached : s.Reached) (counted : s.memory.report.tally = .of headers entries)
    (call : Call) :
    (call.perform s).2.memory.report.tally =
      .of (headers ++ call.merged s.knowledge.settings.maxConstruct)
        (entries ++ (call.perform s).1) := by
  cases call with
  | merge merged =>
    show (s.merge merged).memory.report.tally = .of (headers ++ _) (entries ++ [])
    rw [tally_merge, counted, List.append_nil, ← Tally.of_append_headers]
    rfl
  | scan scanned =>
    show (s.scan scanned).memory.report.tally = .of (headers ++ _) (entries ++ [])
    rw [tally_scan, counted, List.append_nil, ← Tally.of_append_headers]
    rfl
  | ask question =>
    show (question.ask s.knowledge s.memory).2.report.tally =
      .of (headers ++ []) (entries ++ (question.ask s.knowledge s.memory).1)
    rw [question.counts s.memory reached.inOrder.memory,
      question.answers.eq reached.inOrder.memory, counted, List.append_nil,
      ← Tally.of_append_entries]

/-- A run counts what its calls count. -/
theorem tally_after (reached : s.Reached) (counted : s.memory.report.tally = .of headers entries)
    (calls : List Call) :
    (s.after calls).memory.report.tally =
      .of (headers ++ mergedHeaders s.knowledge.settings.maxConstruct calls)
        (entries ++ returned s calls) := by
  induction calls generalizing s headers entries with
  | nil =>
    show _ = Tally.of (headers ++ []) (entries ++ [])
    rw [List.append_nil, List.append_nil]
    exact counted
  | cons call calls ih =>
    have step := ih (reached.perform call) (tally_perform reached counted call)
    rw [settings_perform, List.append_assoc, List.append_assoc] at step
    exact step

/-! ## 6. The report of a run -/

/-- **The report adds up.**  Behind any run the report is the tally of the headers that the run
merged, in the order in which it merged them, and of the entries that it returned. -/
theorem report_addsUp (settings : Settings) (oracle : Reflection.Oracle) (map : ClassMap)
    (updating : Bool) (listings : Table Listing) (calls : List Call) :
    let s := opened settings oracle map updating listings
    let r := ((s.after calls).run fun _ => report).1
    r.tally = .of (mergedHeaders settings.maxConstruct calls) (returned s calls) ∧
      ∃ fields, r.toJson = .object fields ∧
        fields.lookup "headers_failed".toList = some (.ofNat r.failures.length) := by
  intro s r
  have start : s.memory.report.tally = .of [] [] := rfl
  have counted := tally_after (reached_opened settings oracle map updating listings) start calls
  exact ⟨counted, _, rfl, rfl⟩

end Survey
end AccessorCatalog

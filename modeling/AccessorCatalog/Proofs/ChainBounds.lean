/-
# Lower bounds on chains

The settings bound the links that a chain may have, and a lower bound should only drop the chains
that have become too long.  `chainBound_lowered` says what it does.  With the lower bound the
expansion finds the shorter routes, in the same order; the longer ones came behind all of them.  But
the bound is looked at where a chain goes on, and not where it ends, so one link is always tried:
the bounds 0 and 1 are the same, for the expansion and for all that a run returns.  Only
`expandCompound` turns chains off (`chainBound_lowered_zero`).

The part about runs compares surveys whose settings differ in how they chain.  The knowledge of one
is that of the other with these settings changed (`Knowledge.chaining`), and stays so call by call
(`chaining_perform`), since merging does not look at them.  Nor does anything that an entry is made
of, its base classes included, except for the chained accessors (`InOrder.entryOf_chaining`).
-/
import AccessorCatalog.Proofs.BaseClasses
import AccessorCatalog.Proofs.Routes
import AccessorCatalog.Proofs.Tallies

namespace AccessorCatalog

/-! ## 1. One link more -/

namespace Route

variable {source : ChainSource Id} {className : Text} {roots : List MethodAccessor}

/-- The expansion finds the accessors of all routes. -/
theorem expand_eq_map_all (maxLinks : Nat) :
    (Chain.expand source className roots maxLinks).run =
      (all source className roots maxLinks).map accessor := by
  unfold Chain.expand all
  simp only [Chain.expandLevels_tails, List.map_flatMap, flatMap_startingFrom]

/-- The routes that one link more allows, and that were too long before. -/
def longest (source : ChainSource Id) (className : Text) (roots : List MethodAccessor) :
    (maxLinks : Nat) → List Route
  | 0 => []
  | maxLinks + 1 => roots.zipIdx.flatMap (startingFrom source className (maxLinks + 1))

theorem all_succ (maxLinks : Nat) :
    all source className roots (maxLinks + 1) =
      all source className roots maxLinks ++ longest source className roots maxLinks := by
  cases maxLinks with
  | zero => exact (List.append_nil _).symm
  | succ maxLinks =>
    show (List.range (maxLinks + 1 + 1)).flatMap _ = (List.range (maxLinks + 1)).flatMap _ ++ _
    rw [List.range_succ (n := maxLinks + 1), List.flatMap_append, List.flatMap_singleton]
    rfl

theorem length_of_mem_longest {maxLinks : Nat} {r : Route}
    (mem : r ∈ longest source className roots maxLinks) : max maxLinks 1 < r.links.length := by
  cases maxLinks with
  | zero => cases mem
  | succ maxLinks =>
    obtain ⟨start, -, mem⟩ := List.mem_flatMap.mp mem
    obtain ⟨-, length, -⟩ := mem_startingFrom.mp mem
    omega

end Route

/-! ## 2. Settings for chains -/

/-- The settings with another bound on chains, and with or without them. -/
def Settings.chaining (settings : Settings) (maxLinks : Nat) (chain : Bool) : Settings :=
  { settings with maxCompoundDepth := maxLinks, expandCompound := chain }

/-- The entry without its chained accessors. -/
def CatalogEntry.unchained (e : CatalogEntry) : CatalogEntry :=
  { e with methods := e.methods.filter fun m => !m.isChained }

namespace Survey

namespace Knowledge

/-- The knowledge with other settings for chains. -/
def chaining (k : Knowledge) (maxLinks : Nat) (chain : Bool) : Knowledge :=
  { k with settings := k.settings.chaining maxLinks chain }

variable {k : Knowledge} {maxLinks : Nat} {chain : Bool} {name : Text}

/-- The walk through the base classes does not look at these settings. -/
theorem climb_chaining (more : Nat) (level seen : List Text) :
    (k.chaining maxLinks chain).climb more level seen = k.climb more level seen := by
  induction more generalizing level seen with
  | zero => rfl
  | succ more ih =>
    unfold climb
    simp only [ih]
    rfl

/-- Nor does merging. -/
theorem foldl_mergeHeader_chaining (headers : List ParsedHeader) :
    headers.foldl mergeHeader (k.chaining maxLinks chain) =
      (headers.foldl mergeHeader k).chaining maxLinks chain := by
  rw [foldl_mergeHeader_eq, foldl_mergeHeader_eq]
  generalize headers.flatMap ParsedHeader.classes = classes
  induction classes generalizing k with
  | nil => rfl
  | cons c classes ih => exact ih (k := k.mergeClass c)

/-- An entry without its chained accessors: what the class declares and inherits. -/
theorem unchained_entryOf (k : Knowledge) (name : Text) :
    (k.entryOf name).map CatalogEntry.unchained = (k.record? name).map fun record =>
      match k.collected name with
      | none => .ofRecord record
      | some found =>
        ⟨record, (k.rootsOf found).map Prod.snd,
          found.accessors.members.filter fun m => k.lists m.type m.owner, found.bases⟩ := by
  unfold entryOf
  rw [Option.map_map]
  congr 1
  funext record
  cases collected : k.collected name with
  | none => rfl
  | some found =>
    have kept : ((k.rootsOf found).map Prod.snd).filter (fun m => !m.isChained) =
        (k.rootsOf found).map Prod.snd := by
      refine List.filter_eq_self.mpr fun m mem => ?_
      rw [isChained_of_mem_rootsOf (plain_of_collected collected) m mem]
      rfl
    have dropped : (k.chained name (k.rootsOf found)).filter (fun m => !m.isChained) = [] := by
      refine List.filter_eq_nil_iff.mpr fun m mem => ?_
      rw [isChained_of_mem_chained m mem]
      exact Bool.false_ne_true
    dsimp only [Function.comp_apply, CatalogEntry.unchained]
    rw [List.filter_append, kept, dropped, List.append_nil]

end Knowledge

variable {s t : Survey} {maxLinks : Nat} {chain : Bool}

/-- What is known is in order whatever the settings for chains. -/
theorem InOrder.chaining (h : s.InOrder) (maxLinks : Nat) (chain : Bool) :
    InOrder ⟨s.knowledge.chaining maxLinks chain, .start⟩ where
  memory := Memory.sound_start _
  graph := h.graph
  keyed := h.keyed

theorem InOrder.collected_chaining (h : s.InOrder) (name : Text) :
    (s.knowledge.chaining maxLinks chain).collected name = s.knowledge.collected name := by
  have same_chain :
      (s.knowledge.chaining maxLinks chain).chainOf name = s.knowledge.chainOf name := by
    rw [(h.chaining maxLinks chain).chainOf_eq, h.chainOf_eq, Knowledge.climb_chaining]
    rfl
  rw [Knowledge.collected_eq, Knowledge.collected_eq, Knowledge.layered, Knowledge.layered]
  have same_inherited (origin : Origin) :
      (s.knowledge.chaining maxLinks chain).inherited name origin =
        s.knowledge.inherited name origin := by
    cases origin with
    | oracle => rfl
    | header =>
      unfold Knowledge.inherited
      rw [same_chain]
      rfl
  rw [same_chain]
  simp only [same_inherited]
  rfl

theorem InOrder.source_chaining (h : s.InOrder) :
    (s.knowledge.chaining maxLinks chain).source = s.knowledge.source := by
  have same_links : (s.knowledge.chaining maxLinks chain).linksOf = s.knowledge.linksOf := by
    funext name
    unfold Knowledge.linksOf
    rw [h.collected_chaining]
    rfl
  unfold Knowledge.source
  rw [same_links]
  rfl

/-- **Only the chained accessors of an entry depend on how a survey chains.** -/
theorem InOrder.entryOf_chaining (h : s.InOrder) (name : Text) :
    (s.knowledge.chaining maxLinks chain).entryOf name =
      (s.knowledge.record? name).map fun record =>
        match s.knowledge.collected name with
        | none => .ofRecord record
        | some found =>
          let roots := s.knowledge.rootsOf found
          ⟨record, roots.map Prod.snd ++
              (if chain then newChains (roots.map Prod.fst)
                (Chain.expand s.knowledge.source name (roots.map Prod.snd) maxLinks) else []),
            found.accessors.members.filter fun m => s.knowledge.lists m.type m.owner,
            found.bases⟩ := by
  unfold Knowledge.entryOf Knowledge.chained
  rw [h.collected_chaining, h.source_chaining]
  rfl

/-- Without chains, a survey gives its entries without their chained accessors. -/
theorem InOrder.entryOf_unchained (h : s.InOrder) (name : Text) :
    (s.knowledge.chaining maxLinks false).entryOf name =
      ((s.knowledge.chaining maxLinks true).entryOf name).map CatalogEntry.unchained := by
  rw [Knowledge.unchained_entryOf, h.collected_chaining, h.entryOf_chaining]
  simp only [Bool.false_eq_true, if_false, List.append_nil]
  rfl

/-! ## 3. Runs with different settings -/

/-- Two surveys that differ in how they chain differ in nothing else behind a call. -/
theorem chaining_perform (reached : s.Reached) (reached' : t.Reached)
    (same : t.knowledge = s.knowledge.chaining maxLinks chain) (call : Call) :
    (call.perform t).2.knowledge = (call.perform s).2.knowledge.chaining maxLinks chain := by
  rw [knowledge_perform reached.inOrder.graph, knowledge_perform reached'.inOrder.graph, same,
    Knowledge.foldl_mergeHeader_chaining]
  rfl

variable {maxLinks' : Nat} {chain' : Bool} {f : CatalogEntry → CatalogEntry}

/-- If the entries of two such surveys correspond, so do the answers to a question. -/
theorem Question.found_chaining {k : Knowledge}
    (each : ∀ name, (k.chaining maxLinks' chain').entryOf name =
      ((k.chaining maxLinks chain).entryOf name).map f) (question : Question) :
    question.found (k.chaining maxLinks' chain') =
      (question.found (k.chaining maxLinks chain)).map f := by
  cases question with
  | resolve name scope => rfl
  | links name => rfl
  | entry name =>
    simp only [found, each, Option.toList_map]
  | entries =>
    simp only [found, each, List.map_filterMap]
    rfl
  | report => rfl

/-- Then all that runs of the same calls return corresponds. -/
theorem returned_chaining {t' : Survey}
    (each : ∀ {s : Survey}, s.InOrder → ∀ name,
      (s.knowledge.chaining maxLinks' chain').entryOf name =
        ((s.knowledge.chaining maxLinks chain).entryOf name).map f)
    (reached : s.Reached) (reached_t : t.Reached) (reached_t' : t'.Reached)
    (same : t.knowledge = s.knowledge.chaining maxLinks chain)
    (same' : t'.knowledge = s.knowledge.chaining maxLinks' chain') (calls : List Call) :
    returned t' calls = (returned t calls).map f := by
  induction calls generalizing s t t' with
  | nil => rfl
  | cons call calls ih =>
    have answered : (call.perform t').1 = (call.perform t).1.map f := by
      cases call with
      | merge headers => rfl
      | scan headers => rfl
      | ask question =>
        show (t'.run question.ask).1 = (t.run question.ask).1.map f
        rw [reached_t.run_eq question.answers, reached_t'.run_eq question.answers, same, same']
        exact question.found_chaining (each reached.inOrder)
    have rest := ih (reached.perform call) (reached_t.perform call) (reached_t'.perform call)
      (chaining_perform reached reached_t same call)
      (chaining_perform reached reached_t' same' call)
    rw [returned, returned, answered, rest, List.map_append]

/-! ## 4. A lower bound -/

/-- **A lower bound drops the longer chains, and one link is always tried.**  The expansion finds
the routes within its bound; with one link more it finds the same ones in the same order, and behind
them the longer ones.  Here the bound 0 counts as 1, so that it finds nothing only where no route
has one link.  It counts as 1 for a run as well: with either bound, the same calls return the same
entries.  A run without chains returns what a run with them returns, less the chained accessors. -/
theorem chainBound_lowered (source : ChainSource Id) (className : Text)
    (roots : List MethodAccessor)
    (maxLinks : Nat) (settings : Settings) (oracle : Reflection.Oracle) (map : ClassMap)
    (updating : Bool) (listings : Table Listing) (calls : List Call) :
    (∃ shorter longer : List Route,
      (Chain.expand source className roots maxLinks).run = shorter.map Route.accessor ∧
      (Chain.expand source className roots (maxLinks + 1)).run =
        (shorter ++ longer).map Route.accessor ∧
      (∀ r ∈ shorter, r.links.length ≤ max maxLinks 1) ∧
      (∀ r ∈ longer, max maxLinks 1 < r.links.length) ∧
      (shorter ++ longer).Pairwise Route.Before ∧
      ∀ r, r ∈ shorter ++ longer ↔ r.Admitted source className roots (maxLinks + 1)) ∧
    ((Chain.expand source className roots 0).run = [] ↔
      ∀ r : Route, ¬ r.Admitted source className roots 1) ∧
    let entries (maxLinks : Nat) (chain : Bool) : List CatalogEntry :=
      returned (opened (settings.chaining maxLinks chain) oracle map updating listings) calls
    entries 0 true = entries 1 true ∧
      entries maxLinks false = (entries maxLinks true).map CatalogEntry.unchained := by
  refine ⟨⟨Route.all source className roots maxLinks, Route.longest source className roots maxLinks,
    Route.expand_eq_map_all maxLinks, ?_, ?_, ?_, ?_, ?_⟩, ?_, ?_, ?_⟩
  · rw [← Route.all_succ, Route.expand_eq_map_all]
  · intro r mem
    exact (Route.mem_all.mp mem).bounded
  · intro r mem
    exact Route.length_of_mem_longest mem
  · rw [← Route.all_succ]
    exact Route.sorted_all
  · intro r
    rw [← Route.all_succ]
    exact Route.mem_all
  · show (Chain.expand source className roots 1).run = [] ↔ _
    rw [Route.expand_eq_map_all, List.map_eq_nil_iff, List.eq_nil_iff_forall_not_mem]
    simp only [Route.mem_all]
  · have each {s : Survey} (h : s.InOrder) (name : Text) :
        (s.knowledge.chaining 0 true).entryOf name =
          ((s.knowledge.chaining 1 true).entryOf name).map id := by
      rw [h.entryOf_chaining, h.entryOf_chaining, Option.map_id]
      rfl
    have run := returned_chaining each (reached_opened settings oracle map updating listings)
      (reached_opened (settings.chaining 1 true) oracle map updating listings)
      (reached_opened (settings.chaining 0 true) oracle map updating listings) rfl rfl calls
    rwa [List.map_id] at run
  · exact returned_chaining InOrder.entryOf_unchained
      (reached_opened settings oracle map updating listings)
      (reached_opened (settings.chaining maxLinks true) oracle map updating listings)
      (reached_opened (settings.chaining maxLinks false) oracle map updating listings) rfl rfl calls

/-- A class with a method that returns another class, and that class with a method that returns a
number. -/
def hitOracle : Reflection.Oracle := fun name =>
  if name = "Track".toList then .known ⟨[⟨"Hit".toList, "hit".toList, [], []⟩], [], []⟩
  else if name = "Hit".toList then .known ⟨[⟨"int".toList, "id".toList, [], []⟩], [], []⟩
  else .unknown

/-- The first of these methods. -/
def hitRoot : MethodAccessor :=
  ⟨"Track".toList, "Hit".toList, "hit".toList, "hit()".toList, "hit()".toList, 0, 0⟩

/-- **The bound 0 does not turn chains off.**  The expansion finds a chain with one link, and the
entry of the class is not the one without chains. -/
theorem chainBound_lowered_zero :
    let k := Knowledge.start {} hitOracle
    let entries (chain : Bool) : List CatalogEntry :=
      returned (opened (Settings.chaining {} 0 chain) hitOracle .empty false .empty)
        [.ask (.entry "Track".toList)]
    (Chain.expand k.source "Track".toList [hitRoot] 0).run.map MethodAccessor.signature =
        ["hit().id()".toList] ∧
      entries true ≠ entries false := by
  decide +kernel

end Survey
end AccessorCatalog

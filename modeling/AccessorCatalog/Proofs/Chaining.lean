/-
# Where chained accessors go on

`Chain.Completes` says what becomes of one chain, link by link, and `Chain.mem_expandLevels` that
the expansion finds exactly this.  For the entries of a survey it answers a question of scopes: a
method is listed if its return type names a class inside the class that declares it, but a chain
looks the name up inside the class that is cataloged.

`chained_goesOn` is what holds: every chained accessor starts from a listed method and goes on in
the class that the return type names inside the cataloged class.  That is the class by which the
method was listed if the two scopes are the same, so for all that a class declares itself, and for
what it inherits within its namespace.  It need not be that class for what it inherits from
elsewhere (`chained_otherScope`): there a chain can go on in a class that the method does not
return.
-/
import AccessorCatalog.Proofs.Merging
import AccessorCatalog.Proofs.Segmentation

namespace AccessorCatalog

/-! ## 1. What a chain completes to -/

namespace Chain

variable {source : ChainSource Id}

/-- The class that a chain goes on in: the one that its last type names, unless it is on the
chain. -/
def target? (source : ChainSource Id) (chain : Chain) : Option Text :=
  match ReturnType.classify chain.accessor.returnType with
  | .compound name =>
    (source.resolve name (chain.path.headD [])).run.filter fun target => !chain.path.contains target
  | _ => none

/-- A complete accessor that a chain leads to with at most `more` links beyond the next one. -/
inductive Completes (source : ChainSource Id) : (more : Nat) → Chain → MethodAccessor → Prop
  | ends {more : Nat} {chain : Chain} {target : Text} {link : MethodAccessor}
    (enters : chain.target? source = some target) (listed : link ∈ (source.links target).run)
    (simple : ReturnType.classify link.returnType = .simple) :
    Completes source more chain (chain.join link)
  | goes {more : Nat} {chain : Chain} {target name : Text} {link a : MethodAccessor}
    (enters : chain.target? source = some target) (listed : link ∈ (source.links target).run)
    (compound : ReturnType.classify link.returnType = .compound name)
    (rest : Completes source more ⟨chain.join link, target :: chain.path⟩ a) :
    Completes source (more + 1) chain a

/-- A chain that completes enters a class. -/
theorem Completes.enters {more : Nat} {chain : Chain} {a : MethodAccessor}
    (h : Completes source more chain a) : (chain.target? source).isSome := by
  cases h with
  | ends enters _ _ => rw [enters]; rfl
  | goes enters _ _ _ => rw [enters]; rfl

theorem follow_eq (chain : Chain) :
    follow source chain = match chain.target? source with
      | some target => chain.continuations target (source.links target)
      | none => ⟨[], []⟩ := by
  unfold follow target?
  cases ReturnType.classify chain.accessor.returnType with
  | simple => rfl
  | unusable => rfl
  | compound name =>
    show (match source.resolve name (chain.path.headD []) with
      | some target => if chain.path.contains target then Continuations.mk [] []
        else chain.continuations target (source.links target)
      | none => Continuations.mk [] []) =
      match (source.resolve name (chain.path.headD [])).run.filter
        fun target => !chain.path.contains target with
      | some target => chain.continuations target (source.links target)
      | none => Continuations.mk [] []
    generalize source.resolve name (chain.path.headD []) = found
    obtain _ | target := found
    · rfl
    · dsimp only [Id.run]
      rw [Option.filter_some]
      cases chain.path.contains target <;> rfl

theorem mem_complete {chain : Chain} {a : MethodAccessor} :
    a ∈ (follow source chain).run.complete ↔
      ∃ target link, chain.target? source = some target ∧ link ∈ (source.links target).run ∧
        ReturnType.classify link.returnType = .simple ∧ a = chain.join link := by
  rw [follow_eq]
  cases chain.target? source with
  | none => simp [Id.run]
  | some target => simp [continuations, Id.run, and_assoc, eq_comm]

theorem mem_going {chain next : Chain} :
    next ∈ (follow source chain).run.going ↔
      ∃ target link name, chain.target? source = some target ∧ link ∈ (source.links target).run ∧
        ReturnType.classify link.returnType = .compound name ∧
        next = ⟨chain.join link, target :: chain.path⟩ := by
  rw [follow_eq]
  cases chain.target? source with
  | none => simp [Id.run]
  | some target =>
    simp only [continuations, Id.run, List.mem_filterMap]
    constructor
    · rintro ⟨link, listed, continued⟩
      cases use : ReturnType.classify link.returnType with
      | compound name =>
        rw [use] at continued
        exact ⟨target, link, name, rfl, listed, use, (Option.some.inj continued).symm⟩
      | simple => rw [use] at continued; cases continued
      | unusable => rw [use] at continued; cases continued
    · rintro ⟨_, link, name, ⟨⟩, listed, use, rfl⟩
      exact ⟨link, listed, by rw [use]⟩

/-- A chain completes by one link, or goes on and completes then. -/
theorem completes_zero {chain : Chain} {a : MethodAccessor} :
    Completes source 0 chain a ↔ a ∈ (follow source chain).run.complete := by
  rw [mem_complete]
  constructor
  · rintro (⟨enters, listed, simple⟩ | _)
    exact ⟨_, _, enters, listed, simple, rfl⟩
  · rintro ⟨target, link, enters, listed, simple, rfl⟩
    exact .ends enters listed simple

theorem completes_succ {more : Nat} {chain : Chain} {a : MethodAccessor} :
    Completes source (more + 1) chain a ↔
      a ∈ (follow source chain).run.complete ∨
        ∃ next ∈ (follow source chain).run.going, Completes source more next a := by
  rw [mem_complete]
  simp only [mem_going]
  constructor
  · rintro (⟨enters, listed, simple⟩ | ⟨enters, listed, compound, rest⟩)
    · exact .inl ⟨_, _, enters, listed, simple, rfl⟩
    · exact .inr ⟨_, ⟨_, _, _, enters, listed, compound, rfl⟩, rest⟩
  · rintro (⟨target, link, enters, listed, simple, rfl⟩ |
      ⟨_, ⟨target, link, name, enters, listed, compound, rfl⟩, rest⟩)
    · exact .ends enters listed simple
    · exact .goes enters listed compound rest

/-- The expansion finds what its chains complete to. -/
theorem mem_expandLevels {more : Nat} {chains : List Chain} {a : MethodAccessor} :
    a ∈ (expandLevels source more chains).run ↔
      ∃ chain ∈ chains, Completes source more chain a := by
  induction more generalizing chains with
  | zero =>
    rw [expandLevels_zero]
    simp only [completes_zero, Id.run, List.mem_flatMap, List.mem_map, exists_exists_and_eq_and]
  | succ more ih =>
    rw [expandLevels_succ, Id.run, List.mem_append, ih]
    simp only [completes_succ, Id.run, List.mem_flatMap, List.mem_map, exists_exists_and_eq_and]
    constructor
    · rintro (⟨chain, mem, complete⟩ | ⟨next, ⟨chain, mem, going⟩, rest⟩)
      · exact ⟨chain, mem, .inl complete⟩
      · exact ⟨chain, mem, .inr ⟨next, going, rest⟩⟩
    · rintro ⟨chain, mem, complete | ⟨next, going, rest⟩⟩
      · exact .inl ⟨chain, mem, complete⟩
      · exact .inr ⟨next, ⟨chain, mem, going⟩, rest⟩

end Chain

/-! ## 2. Chained accessors in a survey -/

namespace Survey

open Outline

namespace Knowledge

variable {k : Knowledge} {name : Text} {root a : MethodAccessor}

/-- An accessor that the chains of a class find when they start from one of its methods. -/
def StartsFrom (k : Knowledge) (name : Text) (root a : MethodAccessor) : Prop :=
  Chain.Completes k.source (k.settings.maxCompoundDepth - 1) ⟨root, [name]⟩ a

/-- An accessor that starts from a method of a class and goes on by a link of `target`. -/
def GoesOnIn (k : Knowledge) (name : Text) (root : MethodAccessor) (target : Text)
    (a : MethodAccessor) : Prop :=
  ∃ link ∈ k.linksOf target, a = Chain.join ⟨root, [name]⟩ link ∨
    ∃ more, Chain.Completes k.source more ⟨Chain.join ⟨root, [name]⟩ link, [target, name]⟩ a

theorem exists_of_target? {target : Text}
    (enters : Chain.target? k.source ⟨root, [name]⟩ = some target) :
    ∃ n, ReturnType.classify root.returnType = .compound n ∧ k.resolved n name = some target := by
  unfold Chain.target? at enters
  cases use : ReturnType.classify root.returnType with
  | compound n =>
    dsimp only at enters
    rw [use] at enters
    exact ⟨n, rfl, (Option.filter_eq_some_iff.mp enters).1⟩
  | simple => simp [use] at enters
  | unusable => simp [use] at enters

/-- A name stands for the same class in scopes that lie in the same scopes. -/
theorem resolved_congr {scope scope' : Text}
    (same : ClassName.enclosingScopes scope = ClassName.enclosingScopes scope') (n : Text) :
    k.resolved n scope = k.resolved n scope' := by
  unfold resolved ClassName.candidates
  rw [same]

/-- A chain goes on in the class that the return type names inside the cataloged class. -/
theorem StartsFrom.goesOn (starts : k.StartsFrom name root a) :
    ∃ n target, ReturnType.classify root.returnType = .compound n ∧
      k.resolved n name = some target ∧ k.GoesOnIn name root target a ∧
      (ClassName.enclosingScopes root.owner = ClassName.enclosingScopes name →
        k.resolved n root.owner = some target) := by
  have first : ∃ target, Chain.target? k.source ⟨root, [name]⟩ = some target ∧
      k.GoesOnIn name root target a := by
    unfold StartsFrom at starts
    generalize k.settings.maxCompoundDepth - 1 = more at starts
    cases starts with
    | ends enters listed simple => exact ⟨_, enters, _, listed, .inl rfl⟩
    | goes enters listed compound rest => exact ⟨_, enters, _, listed, .inr ⟨_, rest⟩⟩
  obtain ⟨target, enters, on⟩ := first
  obtain ⟨n, use, resolved⟩ := exists_of_target? enters
  exact ⟨n, target, use, resolved, on, fun same => (resolved_congr same n).trans resolved⟩

theorem mem_of_mem_newChains {taken : List Text} {found : List MethodAccessor}
    (h : a ∈ newChains taken found) : a ∈ found := by
  induction found generalizing taken with
  | nil => exact h
  | cons m ms ih =>
    unfold newChains at h
    split at h
    · exact List.mem_cons_of_mem m (ih h)
    · rcases List.mem_cons.mp h with rfl | h
      · exact List.mem_cons_self
      · exact List.mem_cons_of_mem m (ih h)

theorem startsFrom_of_mem_chained {roots : List (Text × MethodAccessor)}
    (mem : a ∈ k.chained name roots) : ∃ r ∈ roots.map Prod.snd, k.StartsFrom name r a := by
  unfold chained at mem
  split at mem
  · obtain ⟨chain, started, complete⟩ := Chain.mem_expandLevels.mp (mem_of_mem_newChains mem)
    obtain ⟨r, listed, starts⟩ := List.mem_filterMap.mp started
    unfold Chain.start? at starts
    split at starts
    · cases starts
      exact ⟨r, listed, complete⟩
    · cases starts
  · cases mem

end Knowledge

/-! ## 3. A name with two meanings -/

/-- Two namespaces, each with a class `V`.  A class of the first returns its `V`; a class of the
second is derived from that one. -/
def twinsText : Text :=
  ("namespace a \x7b\nclass V \x7b\npublic:\nint x();\n\x7d;\n" ++
    "class B \x7b\npublic:\nV v();\n\x7d;\n\x7d\n" ++
    "namespace b \x7b\nclass V \x7b\npublic:\nint y;\n\x7d;\n" ++
    "class C : public a::B \x7b\n\x7d;\n\x7d").toList

/-- The classes of that text. -/
def twinsClasses : List ClassOutline :=
  [⟨⟨"a::V".toList, [], [], "a.h".toList⟩, false, ["int x()".toList], []⟩,
    ⟨⟨"a::B".toList, [], [], "a.h".toList⟩, false, ["V v()".toList], []⟩,
    ⟨⟨"b::V".toList, [], [], "a.h".toList⟩, false, [], ["int y".toList]⟩,
    ⟨⟨"b::C".toList, ["a::B".toList], [], "a.h".toList⟩, false, [], []⟩]

theorem parseHeader_twins : parseHeader 5000 "a.h".toList twinsText = .ok twinsClasses := by
  let namespaces : List Construct :=
    [⟨.namespaceScope, 0, 12, 72, 73⟩, ⟨.namespaceScope, 74, 86, 143, 144⟩]
  let inside : List Construct :=
    [⟨.classScope, 15, 23, 42, 44⟩, ⟨.classScope, 45, 53, 70, 72⟩,
      ⟨.classScope, 107, 115, 132, 134⟩, ⟨.classScope, 135, 157, 159, 161⟩]
  -- The boundaries of both passes come in order, so that there is nothing to sort.
  have outer (s : Segmented) : s.substitute namespaces = _ :=
    substitute_of_sorted s (by decide +kernel)
  have inner (s : Segmented) : s.substitute inside = _ := substitute_of_sorted s (by decide +kernel)
  have normal : Source.normalize twinsText = twinsText := by decide +kernel
  have plain : '\\' ∉ twinsText := by decide +kernel
  have segmented : segment 5000 "a.h".toList twinsText = .ok ((Segmented.substitute
      ⟨Source.convertTypedefs twinsText, []⟩ namespaces).substitute inside) := by
    refine (segment_eq_ok_iff plain).mpr ⟨by decide +kernel, _, _, by decide +kernel, ?_, rfl⟩
    rw [outer]
    decide +kernel
  unfold parseHeader segmentHeader
  rw [normal, segmented]
  show classes _ _ = _
  rw [outer, inner]
  decide +kernel

/-- The survey of that text. -/
def twins : Survey :=
  (Survey.start {} .ignorant).scan [⟨"a.h".toList, twinsText⟩]

theorem reached_twins : twins.Reached :=
  .scan (.start {} .ignorant .empty false .empty) _

theorem knowledge_twins : twins.knowledge =
    (twinsClasses.foldl Knowledge.mergeClass (Knowledge.start {} .ignorant)).redrawn := by
  have read : Header.parse 5000 ⟨"a.h".toList, twinsText⟩ = ⟨"a.h".toList, .ok twinsClasses⟩ := by
    unfold Header.parse
    rw [parseHeader_twins]
  unfold twins
  rw [knowledge_scan, readings, sortByPath, List.mergeSort_singleton, List.map_singleton]
  show Knowledge.redrawn (List.foldl Knowledge.mergeHeader (Knowledge.start {} .ignorant)
    [Header.parse 5000 ⟨"a.h".toList, twinsText⟩]) = _
  rw [read, List.foldl_cons, List.foldl_nil, Knowledge.mergeHeader]

/-- The method that the derived class inherits. -/
def twinsRoot : MethodAccessor :=
  ⟨"a::B".toList, "V".toList, "v".toList, "v()".toList, "v()".toList, 0, 0⟩

/-- The chained accessor that its entry lists. -/
def twinsChained : MethodAccessor :=
  ⟨"a::B".toList, "int".toList, "v().y".toList, "v().y".toList, "v().y".toList, 0, 0⟩

/-- The entry of the derived class. -/
def twinsEntry : CatalogEntry :=
  ⟨⟨"b::C".toList, ["a::B".toList], [], "a.h".toList⟩, [twinsRoot, twinsChained], [],
    ["a::B".toList]⟩

theorem entry_twins : (twins.run (entry · "b::C".toList)).1 = some twinsEntry := by
  rw [reached_twins.run_eq (answers_entry _), knowledge_twins]
  decide +kernel

/-! ## 4. Where chains go on -/

/-- **Chains go on in the class that the return type names inside the cataloged class.**  The
methods of an entry are listed methods of the class, whose return types lead somewhere in the
classes that declare them, and behind them accessors that start from these.  If the declaring class
lies in the same scopes as the cataloged one, a chain goes on in the class by which its method was
listed. -/
theorem chained_goesOn {s : Survey} (reached : s.Reached) {name : Text} {e : CatalogEntry}
    (built : (s.run (entry · name)).1 = some e) :
    ∃ roots chained, e.methods = roots ++ chained ∧
      (∀ r ∈ roots, s.knowledge.lists r.returnType r.owner = true) ∧
      (∀ a ∈ chained, ∃ r ∈ roots, s.knowledge.StartsFrom name r a) ∧
      ∀ r ∈ roots, ∀ a, s.knowledge.StartsFrom name r a → ∃ n target,
        ReturnType.classify r.returnType = .compound n ∧
        s.knowledge.resolved n name = some target ∧ s.knowledge.GoesOnIn name r target a ∧
        (ClassName.enclosingScopes r.owner = ClassName.enclosingScopes name →
          s.knowledge.resolved n r.owner = some target) := by
  rw [reached.run_eq (answers_entry name)] at built
  obtain ⟨record, -, rfl⟩ := Option.map_eq_some_iff.mp built
  cases s.knowledge.collected name with
  | none =>
    refine ⟨[], [], rfl, ?_, ?_, ?_⟩ <;> exact fun _ mem => by cases mem
  | some found =>
    refine ⟨_, _, rfl, ?_, fun a mem => Knowledge.startsFrom_of_mem_chained mem,
      fun r _ a starts => starts.goesOn⟩
    intro r mem
    obtain ⟨m, kept, rfl⟩ := List.mem_map.mp mem
    exact (List.mem_filter.mp kept).2

theorem chained_goesOn_twins :
    ∃ roots chained, twinsEntry.methods = roots ++ chained ∧
      (∀ r ∈ roots, twins.knowledge.lists r.returnType r.owner = true) ∧
      (∀ a ∈ chained, ∃ r ∈ roots, twins.knowledge.StartsFrom "b::C".toList r a) ∧
      ∀ r ∈ roots, ∀ a, twins.knowledge.StartsFrom "b::C".toList r a → ∃ n target,
        ReturnType.classify r.returnType = .compound n ∧
        twins.knowledge.resolved n "b::C".toList = some target ∧
        twins.knowledge.GoesOnIn "b::C".toList r target a ∧
        (ClassName.enclosingScopes r.owner = ClassName.enclosingScopes "b::C".toList →
          twins.knowledge.resolved n r.owner = some target) :=
  chained_goesOn reached_twins entry_twins

/-- **The two meanings of a name can differ.**  The inherited method is listed since its return type
names `a::V` in the class that declares it.  The chained accessor goes on by no link of that class,
but by one of `b::V`. -/
theorem chained_otherScope :
    (twins.run (entry · "b::C".toList)).1 = some twinsEntry ∧
      twinsRoot ∈ twinsEntry.methods ∧ twinsChained ∈ twinsEntry.methods ∧
      ReturnType.classify twinsRoot.returnType = .compound "V".toList ∧
      twins.knowledge.resolved "V".toList twinsRoot.owner = some "a::V".toList ∧
      twins.knowledge.StartsFrom "b::C".toList twinsRoot twinsChained ∧
      ¬ twins.knowledge.GoesOnIn "b::C".toList twinsRoot "a::V".toList twinsChained := by
  refine ⟨entry_twins, by decide, by decide, by decide +kernel, ?_, ?_, ?_⟩
  · rw [knowledge_twins]
    decide +kernel
  · have enters : Chain.target? twins.knowledge.source ⟨twinsRoot, ["b::C".toList]⟩ =
        some "b::V".toList := by
      rw [knowledge_twins]
      decide +kernel
    have listed : memberLink ⟨"b::V".toList, "int".toList, "y".toList⟩ ∈
        twins.knowledge.linksOf "b::V".toList := by
      rw [knowledge_twins]
      decide +kernel
    exact .ends enters listed (by decide +kernel)
  · have links : twins.knowledge.linksOf "a::V".toList =
        [⟨"a::V".toList, "int".toList, "x".toList, "x()".toList, "x()".toList, 0, 0⟩] := by
      rw [knowledge_twins]
      decide +kernel
    rintro ⟨link, listed, on⟩
    rw [links, List.mem_singleton] at listed
    subst listed
    obtain on | ⟨more, on⟩ := on
    · exact absurd on (by decide)
    · -- The chain has ended in an `int`.
      have entered := on.enters
      rw [knowledge_twins] at entered
      exact absurd entered (by decide +kernel)

end Survey
end AccessorCatalog

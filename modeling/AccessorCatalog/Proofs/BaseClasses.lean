/-
# Base classes by their distance

The walk through the base classes of a class goes level by level and stops at a bound, possibly in
the middle of a level.  What it should find is said here by *distances*: `Climbs` counts the steps
from a class to one of its bases, each base taken for the class that it stands for where it is
declared, and a class is `AtDistance` `n` if `n` steps lead to it and no fewer do.

`baseChain_distances` says that the walk finds the classes up to the bound, each once and the nearer
ones first, and that it overruns exactly if a class lies one step behind the bound.  The hierarchy
may have cycles, and it need not end anywhere.

What carries it is an invariant of the levels (`AtLevel`): the level holds the classes at one
distance, and those that have been seen are the ones up to there.  A class at the next distance is
the base of one at this distance (`AtDistance.parent`), so looking at the bases of one level misses
none.
-/
import AccessorCatalog.Proofs.Runs

namespace AccessorCatalog

/-! ## 1. Declared bases -/

namespace InheritanceGraph

variable {g : InheritanceGraph} {name : Text}

theorem edges_addClass : (g.addClass name).edges = g.edges := by
  unfold addClass
  split <;> rfl

theorem edges_addRecord (record : ClassRecord) :
    (g.addRecord record).edges = g.edges ++ record.bases.map fun base => (record.name, base) := by
  have bases (g : InheritanceGraph) (bases : List Text) :
      (bases.foldl (fun g base => g.addBase record.name base) g).edges =
        g.edges ++ bases.map fun base => (record.name, base) := by
    induction bases generalizing g with
    | nil => exact (List.append_nil _).symm
    | cons base bases ih =>
      rw [List.foldl_cons, ih, addBase, edges_addClass, edges_addClass, List.map_cons,
        List.append_assoc, List.singleton_append]
  rw [addRecord, bases, edges_addClass]

/-- The bases of a class are those of all records of its name. -/
theorem bases_ofRecords (records : List ClassRecord) (name : Text) :
    (ofRecords records).bases name =
      records.flatMap fun record => if record.name = name then record.bases else [] := by
  have from_graph (g : InheritanceGraph) : (records.foldl addRecord g).bases name = g.bases name ++
      records.flatMap fun record => if record.name = name then record.bases else [] := by
    induction records generalizing g with
    | nil => exact (List.append_nil _).symm
    | cons record records ih =>
      rw [List.foldl_cons, ih, bases, bases, edges_addRecord, List.filter_append, List.map_append,
        List.flatMap_cons, List.append_assoc]
      by_cases same : record.name = name
      · simp [same, List.filter_map, Function.comp_def]
      · simp [same, List.filter_map, Function.comp_def]
  exact from_graph empty

end InheritanceGraph

namespace Survey

open Outline (ClassOutline)

namespace Knowledge

variable {k : Knowledge} {name : Text}

/-- The bases that a class declares: by the oracle if it knows the class, else by its header. -/
def basesOf (k : Knowledge) (name : Text) : List Text :=
  match k.info? name with
  | some info => info.bases
  | none => ((k.classes.get? name).map fun c => c.record.bases).getD []

/-- The classes that the bases of a class stand for.  A base that stands for no known class keeps
its name. -/
def parents (k : Knowledge) (name : Text) : List Text :=
  (k.basesOf name).map fun base => (k.resolved base name).getD base

/-- In the graph of the classes, a class has the bases of its header. -/
theorem Keyed.bases_graph (keyed : k.Keyed) (drawn : k.graph = .ofRecords k.records) (name : Text) :
    k.graph.bases name = ((k.classes.get? name).map fun c => c.record.bases).getD [] := by
  have named : ∀ entry ∈ k.classes.entries, entry.2.record.name = entry.1 := by
    intro entry mem
    exact keyed entry.1 entry.2 (Table.get?_eq_some_iff.mpr mem)
  rw [drawn, InheritanceGraph.bases_ofRecords, records, Table.values, Table.get?]
  have ascending := k.classes.ascending
  generalize k.classes.entries = entries at named ascending
  induction entries with
  | nil => rfl
  | cons entry entries ih =>
    obtain ⟨behind, ascending⟩ := List.pairwise_cons.mp ascending
    have own := named entry List.mem_cons_self
    have named_rest := fun e mem => named e (List.mem_cons_of_mem entry mem)
    rw [Table.lookup_entry_cons, List.map_cons, List.map_cons, List.flatMap_cons, own]
    by_cases same : entry.1 = name
    · -- No other class has that name.
      rw [if_pos same, if_pos same.symm, List.flatMap_eq_nil_iff.mpr]
      · exact List.append_nil _
      · intro record mem
        obtain ⟨c, value, rfl⟩ := List.mem_map.mp mem
        obtain ⟨other, stored, rfl⟩ := List.mem_map.mp value
        refine if_neg fun eq => List.lt_irrefl entry.1 ?_
        have later := behind other stored
        rwa [← named_rest other stored, eq, ← same] at later
    · rw [if_neg same, if_neg (Ne.symm same), List.nil_append]
      exact ih named_rest ascending

/-! ## 2. Distances -/

/-- So many steps lead from a class to a base. -/
inductive Climbs (k : Knowledge) (name : Text) : Nat → Text → Prop
  | here : Climbs k name 0 name
  | up {n : Nat} {current base : Text} (climbs : Climbs k name n current)
    (declared : base ∈ k.parents current) : Climbs k name (n + 1) base

/-- So many steps lead from a class to a base, and no fewer. -/
def AtDistance (k : Knowledge) (name : Text) (n : Nat) (base : Text) : Prop :=
  k.Climbs name n base ∧ ∀ m < n, ¬ k.Climbs name m base

variable {n m : Nat} {base : Text}

theorem AtDistance.unique (h : k.AtDistance name n base) (h' : k.AtDistance name m base) :
    n = m := by
  rcases Nat.lt_trichotomy n m with lt | same | lt
  · exact absurd h.1 (h'.2 n lt)
  · exact same
  · exact absurd h'.1 (h.2 m lt)

theorem atDistance_zero : k.AtDistance name 0 base ↔ base = name := by
  constructor
  · intro h
    cases h.1 with
    | here => rfl
  · rintro rfl
    exact ⟨.here, fun m lt => absurd lt (Nat.not_lt_zero m)⟩

/-- What some steps lead to has a distance. -/
theorem Climbs.distance (h : k.Climbs name n base) : ∃ m ≤ n, k.AtDistance name m base := by
  induction n using Nat.strongRecOn with
  | ind n ih =>
    by_cases fewer : ∃ m < n, k.Climbs name m base
    · obtain ⟨m, lt, climbs⟩ := fewer
      obtain ⟨l, le, found⟩ := ih m lt climbs
      exact ⟨l, Nat.le_trans le (Nat.le_of_lt lt), found⟩
    · exact ⟨n, Nat.le_refl n, h, fun m lt climbs => fewer ⟨m, lt, climbs⟩⟩

/-- A class at the next distance is the base of one at this distance. -/
theorem AtDistance.parent (h : k.AtDistance name (n + 1) base) :
    ∃ current, k.AtDistance name n current ∧ base ∈ k.parents current := by
  obtain ⟨climbs, least⟩ := h
  cases climbs with
  | up climbs declared =>
    refine ⟨_, ⟨climbs, ?_⟩, declared⟩
    intro m lt fewer
    exact least (m + 1) (Nat.succ_lt_succ lt) (fewer.up declared)

/-! ## 3. The walk -/

/-- Those of some names that have not been seen yet, each once. -/
def unseen : (names seen : List Text) → List Text
  | [], _ => []
  | name :: names, seen =>
    if seen.contains name then unseen names seen else name :: unseen names (name :: seen)

theorem mem_unseen {names seen : List Text} {x : Text} :
    x ∈ unseen names seen ↔ x ∈ names ∧ x ∉ seen := by
  induction names generalizing seen with
  | nil => simp [unseen]
  | cons name names ih =>
    unfold unseen
    by_cases known : name ∈ seen
    · rw [if_pos (List.contains_iff_mem.mpr known), ih, List.mem_cons]
      constructor
      · rintro ⟨mem, fresh⟩
        exact ⟨.inr mem, fresh⟩
      · rintro ⟨rfl | mem, fresh⟩
        · exact absurd known fresh
        · exact ⟨mem, fresh⟩
    · rw [if_neg (mt List.contains_iff_mem.mp known), List.mem_cons, ih, List.mem_cons,
        List.mem_cons]
      constructor
      · rintro (rfl | ⟨mem, fresh⟩)
        · exact ⟨.inl rfl, known⟩
        · exact ⟨.inr mem, fun seen => fresh (.inr seen)⟩
      · rintro ⟨rfl | mem, fresh⟩
        · exact .inl rfl
        · by_cases same : x = name
          · exact .inl same
          · exact .inr ⟨mem, fun seen => seen.elim same fresh⟩

theorem nodup_unseen (names seen : List Text) : (unseen names seen).Nodup := by
  induction names generalizing seen with
  | nil => exact .nil
  | cons name names ih =>
    unfold unseen
    split
    · exact ih seen
    · exact List.nodup_cons.mpr ⟨fun mem => (mem_unseen.mp mem).2 List.mem_cons_self, ih _⟩

/-- The names of a part count as seen behind it. -/
theorem unseen_append (names more seen : List Text) :
    unseen (names ++ more) seen =
      unseen names seen ++ unseen more ((unseen names seen).reverse ++ seen) := by
  induction names generalizing seen with
  | nil => rfl
  | cons name names ih =>
    rw [List.cons_append, unseen, unseen]
    split
    · exact ih seen
    · rw [ih, List.reverse_cons, List.append_assoc, List.singleton_append, List.cons_append]

/-- The bases up to `more` levels beyond the given one. -/
def climb (k : Knowledge) : (more : Nat) → (level seen : List Text) → BaseChain
  | 0, level, seen => ⟨[], (level.flatMap k.parents).any fun base => !seen.contains base⟩
  | more + 1, level, seen =>
    let fresh := unseen (level.flatMap k.parents) seen
    if fresh.isEmpty then ⟨[], false⟩
    else
      let rest := k.climb more fresh (fresh.reverse ++ seen)
      ⟨fresh ++ rest.bases, rest.overrun⟩

end Knowledge

variable {k : Knowledge}

section Answers

variable (bases_graph : ∀ name, k.graph.bases name =
  ((k.classes.get? name).map fun c => c.record.bases).getD [])

include bases_graph

theorem answers_declaredBases (name : Text) :
    Answers k (declaredBases k name) (k.basesOf name) := by
  refine (answers_ask name).bind ?_
  unfold Knowledge.basesOf
  cases k.info? name with
  | some info => exact .pure _
  | none =>
    dsimp only
    rw [bases_graph]
    exact .pure _

omit bases_graph in
theorem answers_resolveBase (current base : Text) :
    Answers k (resolveBase k current base) ((k.resolved base current).getD base) :=
  (answers_resolve base current).bind (.pure _)

omit bases_graph in
theorem answers_freshBases (current : Text) (bases seen : List Text) :
    Answers k (freshBases k current bases seen)
      (Knowledge.unseen (bases.map fun base => (k.resolved base current).getD base) seen) := by
  induction bases generalizing seen with
  | nil => exact .pure _
  | cons base bases ih =>
    refine (answers_resolveBase current base).bind ?_
    rw [List.map_cons, Knowledge.unseen]
    split
    · exact ih seen
    · exact (ih _).bind (.pure _)

theorem answers_freshLevel (level seen : List Text) :
    Answers k (freshLevel k level seen) (Knowledge.unseen (level.flatMap k.parents) seen) := by
  induction level generalizing seen with
  | nil => exact .pure _
  | cons current level ih =>
    rw [List.flatMap_cons, Knowledge.unseen_append]
    refine (answers_declaredBases bases_graph current).bind ?_
    refine (answers_freshBases current _ seen).bind ?_
    exact (ih _).bind (.pure _)

omit bases_graph in
theorem answers_anyFreshBase (current : Text) (seen bases : List Text) :
    Answers k (anyFreshBase k current seen bases)
      ((bases.map fun base => (k.resolved base current).getD base).any
        fun base => !seen.contains base) := by
  induction bases with
  | nil => exact .pure _
  | cons base bases ih =>
    refine (answers_resolveBase current base).bind ?_
    rw [List.map_cons, List.any_cons]
    cases seen.contains ((k.resolved base current).getD base) with
    | true => exact ih
    | false => exact .pure _

theorem answers_anyFresh (seen level : List Text) :
    Answers k (anyFresh k seen level)
      ((level.flatMap k.parents).any fun base => !seen.contains base) := by
  induction level with
  | nil => exact .pure _
  | cons current level ih =>
    rw [List.flatMap_cons, List.any_append]
    refine (answers_declaredBases bases_graph current).bind ?_
    refine (answers_anyFreshBase current seen _).bind ?_
    show Answers k _ ((k.parents current).any _ || _)
    unfold Knowledge.parents
    cases List.any _ _ with
    | true => exact .pure _
    | false => exact ih

theorem answers_chainFrom (more : Nat) (level seen : List Text) :
    Answers k (chainFrom k more level seen) (k.climb more level seen) := by
  induction more generalizing level seen with
  | zero => exact (answers_anyFresh bases_graph seen level).bind (.pure _)
  | succ more ih =>
    refine (answers_freshLevel bases_graph level seen).bind ?_
    rw [Knowledge.climb]
    dsimp only
    split
    · exact .pure _
    · exact (ih _ _).bind (.pure _)

end Answers

/-! ## 4. Level by level -/

namespace Knowledge

variable {name base : Text} {n : Nat} {level seen : List Text}

/-- The classes at one distance, and all that have been seen up to there. -/
structure AtLevel (k : Knowledge) (name : Text) (n : Nat) (level seen : List Text) : Prop where
  level : ∀ base, base ∈ level ↔ k.AtDistance name n base
  seen : ∀ base, base ∈ seen ↔ ∃ m ≤ n, k.AtDistance name m base

theorem atLevel_start (k : Knowledge) (name : Text) : k.AtLevel name 0 [name] [name] where
  level base := by rw [List.mem_singleton, atDistance_zero]
  seen base := by
    rw [List.mem_singleton, ← atDistance_zero]
    constructor
    · intro h
      exact ⟨0, Nat.le_refl 0, h⟩
    · rintro ⟨m, le, h⟩
      rwa [Nat.le_zero.mp le] at h

/-- The unseen bases of a level are the classes at the next distance. -/
theorem AtLevel.mem_unseen (h : k.AtLevel name n level seen) :
    base ∈ unseen (level.flatMap k.parents) seen ↔ k.AtDistance name (n + 1) base := by
  rw [Knowledge.mem_unseen, List.mem_flatMap, h.seen]
  constructor
  · rintro ⟨⟨current, mem, declared⟩, fresh⟩
    have climbs : k.Climbs name (n + 1) base := ((h.level current).mp mem).1.up declared
    refine ⟨climbs, ?_⟩
    intro m lt fewer
    obtain ⟨l, le, found⟩ := fewer.distance
    exact fresh ⟨l, by omega, found⟩
  · intro found
    obtain ⟨current, near, declared⟩ := found.parent
    refine ⟨⟨current, (h.level current).mpr near, declared⟩, ?_⟩
    rintro ⟨m, le, nearer⟩
    have same := found.unique nearer
    omega

theorem AtLevel.next (h : k.AtLevel name n level seen) :
    k.AtLevel name (n + 1) (unseen (level.flatMap k.parents) seen)
      ((unseen (level.flatMap k.parents) seen).reverse ++ seen) where
  level base := h.mem_unseen
  seen base := by
    rw [List.mem_append, List.mem_reverse, h.mem_unseen, h.seen]
    constructor
    · rintro (found | ⟨m, le, found⟩)
      · exact ⟨n + 1, Nat.le_refl _, found⟩
      · exact ⟨m, Nat.le_succ_of_le le, found⟩
    · rintro ⟨m, le, found⟩
      rcases Nat.lt_or_eq_of_le le with lt | rfl
      · exact .inr ⟨m, Nat.le_of_lt_succ lt, found⟩
      · exact .inl found

/-- No distance is left out. -/
theorem AtDistance.nearer {m : Nat} (h : k.AtDistance name m base) (le : n ≤ m) :
    ∃ nearer, k.AtDistance name n nearer := by
  induction le generalizing base with
  | refl => exact ⟨base, h⟩
  | step _ ih =>
    obtain ⟨current, near, -⟩ := h.parent
    exact ih near

/-- What is found from a level on: the classes up to `more` steps behind it, each once and the
nearer ones first, and whether there are any one step behind these. -/
structure Explored (k : Knowledge) (name : Text) (n more : Nat) (found : BaseChain) : Prop where
  nodup : found.bases.Nodup
  mem : ∀ base, base ∈ found.bases ↔ ∃ m, n < m ∧ m ≤ n + more ∧ k.AtDistance name m base
  nearer_first : found.bases.Pairwise fun a b =>
    ∀ m l, k.AtDistance name m a → k.AtDistance name l b → m ≤ l
  overrun : found.overrun = true ↔ ∃ base, k.AtDistance name (n + more + 1) base

/-- At the bound, only the overrun is looked for. -/
theorem AtLevel.explored_zero (h : k.AtLevel name n level seen) :
    k.Explored name n 0 ⟨[], (level.flatMap k.parents).any fun base => !seen.contains base⟩ where
  nodup := .nil
  mem base := by
    constructor
    · intro mem
      cases mem
    · rintro ⟨m, lt, le, -⟩
      omega
  nearer_first := .nil
  overrun := by
    refine List.any_eq_true.trans (exists_congr fun base => ?_)
    rw [← h.mem_unseen, Knowledge.mem_unseen]
    simp only [Bool.not_eq_true', List.contains_eq_mem, decide_eq_false_iff_not]

/-- Where there is no next level, nothing is farther away. -/
theorem explored_of_none (none_next : ∀ base, ¬ k.AtDistance name (n + 1) base) (more : Nat) :
    k.Explored name n more ⟨[], false⟩ where
  nodup := .nil
  mem base := by
    constructor
    · intro mem
      cases mem
    · rintro ⟨m, lt, -, found⟩
      obtain ⟨nearer, next⟩ := found.nearer lt
      exact (none_next nearer next).elim
  nearer_first := .nil
  overrun := by
    constructor
    · intro overrun
      cases overrun
    · rintro ⟨base, found⟩
      obtain ⟨nearer, next⟩ := found.nearer (show n + 1 ≤ n + more + 1 by omega)
      exact (none_next nearer next).elim

/-- The next level comes before all that is found from there on. -/
theorem Explored.behind {more : Nat} {fresh : List Text} {found : BaseChain}
    (rest : k.Explored name (n + 1) more found) (nodup : fresh.Nodup)
    (level : ∀ base, base ∈ fresh ↔ k.AtDistance name (n + 1) base) :
    k.Explored name n (more + 1) ⟨fresh ++ found.bases, found.overrun⟩ where
  nodup := by
    refine List.nodup_append.mpr ⟨nodup, rest.nodup, ?_⟩
    rintro base mem _ mem' rfl
    obtain ⟨m, lt, -, far⟩ := (rest.mem base).mp mem'
    have same := far.unique ((level base).mp mem)
    omega
  mem base := by
    rw [List.mem_append, level, rest.mem]
    constructor
    · rintro (near | ⟨m, lt, le, far⟩)
      · exact ⟨n + 1, by omega, by omega, near⟩
      · exact ⟨m, by omega, by omega, far⟩
    · rintro ⟨m, lt, le, found⟩
      rcases Nat.lt_or_eq_of_le (Nat.succ_le_of_lt lt) with lt | rfl
      · exact .inr ⟨m, lt, by omega, found⟩
      · exact .inl found
  nearer_first := by
    refine List.pairwise_append.mpr ⟨?_, rest.nearer_first, ?_⟩
    · refine List.Pairwise.imp_of_mem ?_ nodup
      intro a b mem mem' _ m l at_m at_l
      have first := at_m.unique ((level a).mp mem)
      have second := at_l.unique ((level b).mp mem')
      omega
    · intro a mem b mem' m l at_m at_l
      obtain ⟨far, lt, -, at_far⟩ := (rest.mem b).mp mem'
      have first := at_m.unique ((level a).mp mem)
      have second := at_l.unique at_far
      omega
  overrun := by
    have same : n + 1 + more + 1 = n + (more + 1) + 1 := by omega
    rw [rest.overrun, same]

/-- What the walk finds from a level on. -/
theorem AtLevel.explored (h : k.AtLevel name n level seen) (more : Nat) :
    k.Explored name n more (k.climb more level seen) := by
  induction more generalizing n level seen with
  | zero => exact h.explored_zero
  | succ more ih =>
    have next := h.next
    have nodup := nodup_unseen (level.flatMap k.parents) seen
    rw [climb]
    generalize unseen (level.flatMap k.parents) seen = fresh at next nodup
    dsimp only
    split
    · next none_fresh =>
      refine explored_of_none (fun base found => ?_) (more + 1)
      have mem := (next.level base).mpr found
      rw [List.isEmpty_iff.mp none_fresh] at mem
      cases mem
    · exact (ih next).behind nodup next.level

end Knowledge

/-! ## 5. The base classes of a survey -/

/-- The base classes up to a bound, and whether there are any beyond it. -/
structure Knowledge.BasesUpTo (k : Knowledge) (name : Text) (bound : Nat) (found : BaseChain) :
    Prop where
  nodup : found.bases.Nodup
  others : name ∉ found.bases
  mem : ∀ base, base ∈ found.bases ↔ ∃ n, 1 ≤ n ∧ n ≤ bound ∧ k.AtDistance name n base
  nearer_first : found.bases.Pairwise fun a b =>
    ∀ m n, k.AtDistance name m a → k.AtDistance name n b → m ≤ n
  overrun : found.overrun = true ↔ ∃ base, k.AtDistance name (bound + 1) base

theorem InOrder.chainOf_eq {s : Survey} (h : s.InOrder) (name : Text) :
    s.knowledge.chainOf name =
      s.knowledge.climb s.knowledge.settings.maxBaseDepth [name] [name] :=
  (answers_chainFrom (h.keyed.bases_graph h.graph) _ _ _).eq (Memory.sound_start _)

/-- **The walk finds the base classes up to the bound.**  It lists the classes whose distance from
the class is at least one and within the bound, each once, and none behind one that is farther away.
It overruns if and only if there is a class one step behind the bound. -/
theorem baseChain_distances {s : Survey} (reached : s.Reached) (name : Text) :
    s.knowledge.BasesUpTo name s.knowledge.settings.maxBaseDepth (s.run (baseChain · name)).1 := by
  have explored := (Knowledge.atLevel_start s.knowledge name).explored
    s.knowledge.settings.maxBaseDepth
  rw [← reached.inOrder.chainOf_eq] at explored
  rw [reached.run_eq (answers_baseChain name)]
  have mem := explored.mem
  have overrun := explored.overrun
  rw [Nat.zero_add] at mem overrun
  refine ⟨explored.nodup, ?_, mem, explored.nearer_first, overrun⟩
  intro listed
  obtain ⟨n, lt, -, found⟩ := (mem name).mp listed
  have same := found.unique (Knowledge.atDistance_zero.mpr rfl)
  omega

/-- An oracle by which every class has a base with a longer name. -/
def endlessOracle : Reflection.Oracle :=
  fun name => .known ⟨[], [], ['X' :: name]⟩

/-- A survey of that hierarchy, with a low bound. -/
def endless : Survey :=
  opened { maxBaseDepth := 2 } endlessOracle .empty false .empty

theorem baseChain_distances_endless :
    endless.Reached ∧ (endless.run (baseChain · ['A'])).1 = ⟨["XA".toList, "XXA".toList], true⟩ ∧
      endless.knowledge.BasesUpTo ['A'] endless.knowledge.settings.maxBaseDepth
        (endless.run (baseChain · ['A'])).1 := by
  have reached : endless.Reached := reached_opened _ endlessOracle .empty false .empty
  exact ⟨reached, by decide +kernel, baseChain_distances reached ['A']⟩

end Survey
end AccessorCatalog

/-
# The routes of chained accessors

The expansion follows its chains level by level.  What it should find is said here without levels: a
*route* is a root with the links that follow it, each link taken from the class that the type before
it names (`Route.LeadsOn`), up to a link of a simple type, and no class is entered twice.

`expand_routes` says that the expansion finds the accessors of exactly these routes, each once, the
shorter routes first and those of one length in the order of the places at which their root and
links stand.

Two things make this an induction over the levels.  A chain remembers all that its further course
depends on, so what a list of chains leads to is what each of its chains leads to
(`expandLevels_tails`).  And the *tails* of one chain, all continuations of one length, can be
listed link by link in the right order (`tails`, `mem_tails`, `sorted_tails`).
-/
import AccessorCatalog.Proofs.Chaining

namespace AccessorCatalog

/-! ## 1. Routes -/

/-- A link of a route: the class that it is taken from, its place among the links of that class, and
the accessor that stands there. -/
structure Link where
  target : Text
  place : Nat
  accessor : MethodAccessor
  deriving DecidableEq

/-- A root, with its place among the roots, and the links behind it. -/
structure Route where
  place : Nat
  root : MethodAccessor
  links : List Link
  deriving DecidableEq

namespace Route

/-- Links that lead on from a type that is used in a class: the type names the class of the first
link, the type of that link names, in its class, the class of the next one, and the last type is
simple. -/
inductive LeadsOn (source : ChainSource Id) : (scope type : Text) → List Link → Prop
  | ends {scope type : Text} (simple : ReturnType.classify type = .simple) :
    LeadsOn source scope type []
  | goes {scope type name : Text} {link : Link} {links : List Link}
    (compound : ReturnType.classify type = .compound name)
    (resolved : (source.resolve name scope).run = some link.target)
    (listed : (source.links link.target).run[link.place]? = some link.accessor)
    (rest : LeadsOn source link.target link.accessor.returnType links) :
    LeadsOn source scope type (link :: links)

/-- A route of a class: it leads from one of the roots to a simple type, over at least one link and
at most `maxLinks` of them, and enters no class twice, nor the class that it starts from.  One link
is always tried. -/
structure Admitted (source : ChainSource Id) (className : Text) (roots : List MethodAccessor)
    (maxLinks : Nat) (r : Route) : Prop where
  listed : roots[r.place]? = some r.root
  leads : LeadsOn source className r.root.returnType r.links
  linked : 1 ≤ r.links.length
  bounded : r.links.length ≤ max maxLinks 1
  distinct : (className :: r.links.map Link.target).Nodup

/-- The places of the root and of the links. -/
def places (r : Route) : List Nat :=
  r.place :: r.links.map Link.place

/-- A route with fewer links comes before one with more; of two with as many links, the one whose
places come first. -/
def Before (r s : Route) : Prop :=
  r.links.length < s.links.length ∨ r.links.length = s.links.length ∧ r.places < s.places

/-- Parts of accessors that are chained, with the delimiter that each type asks for behind it. -/
def joined (part : MethodAccessor → Text) : MethodAccessor → List MethodAccessor → Text
  | a, [] => part a
  | a, next :: rest => part a ++ ReturnType.chainDelimiter a.returnType ++ joined part next rest

/-- Counts of accessors that are chained, added up. -/
def total (count : MethodAccessor → Nat) (a : MethodAccessor) (links : List MethodAccessor) : Nat :=
  links.foldl (fun n link => n + count link) (count a)

/-- The accessors of the links. -/
def linked (r : Route) : List MethodAccessor :=
  r.links.map Link.accessor

/-- The chained accessor that a route makes. -/
def accessor (r : Route) : MethodAccessor where
  owner := r.root.owner
  returnType := (r.linked.getLastD r.root).returnType
  name := joined MethodAccessor.signature r.root r.linked
  signature := joined MethodAccessor.signature r.root r.linked
  call := joined MethodAccessor.call r.root r.linked
  requiredArgs := total MethodAccessor.requiredArgs r.root r.linked
  defaultedArgs := total MethodAccessor.defaultedArgs r.root r.linked

theorem leadsOn_nil_iff {source : ChainSource Id} {scope type : Text} :
    LeadsOn source scope type [] ↔ ReturnType.classify type = .simple := by
  constructor
  · intro h
    cases h with
    | ends simple => exact simple
  · exact .ends

theorem leadsOn_cons_iff {source : ChainSource Id} {scope type : Text} {link : Link}
    {links : List Link} :
    LeadsOn source scope type (link :: links) ↔
      (∃ name, ReturnType.classify type = .compound name ∧
        (source.resolve name scope).run = some link.target) ∧
      (source.links link.target).run[link.place]? = some link.accessor ∧
      LeadsOn source link.target link.accessor.returnType links := by
  constructor
  · intro h
    cases h with
    | goes compound resolved listed rest => exact ⟨⟨_, compound, resolved⟩, listed, rest⟩
  · rintro ⟨⟨name, compound, resolved⟩, listed, rest⟩
    exact .goes compound resolved listed rest

end Route

namespace Chain

variable {source : ChainSource Id} {chain : Chain}

/-! ## 2. One more link -/

theorem target?_eq_some_iff {target : Text} :
    chain.target? source = some target ↔
      (∃ name, ReturnType.classify chain.accessor.returnType = .compound name ∧
        (source.resolve name (chain.path.headD [])).run = some target) ∧ target ∉ chain.path := by
  unfold target?
  cases ReturnType.classify chain.accessor.returnType with
  | simple => simp
  | unusable => simp
  | compound name =>
    dsimp only [Id.run]
    rw [Option.filter_eq_some_iff]
    simp

/-- The chain with a link behind it. -/
def enter (chain : Chain) (link : Link) : Chain :=
  ⟨chain.join link.accessor, link.target :: chain.path⟩

/-- All links that a chain can take, in their order. -/
def nexts (source : ChainSource Id) (chain : Chain) : List Link :=
  match chain.target? source with
  | some target => (source.links target).run.zipIdx.map fun (a, place) => ⟨target, place, a⟩
  | none => []

theorem mem_nexts {link : Link} :
    link ∈ nexts source chain ↔ chain.target? source = some link.target ∧
      (source.links link.target).run[link.place]? = some link.accessor := by
  unfold nexts
  cases chain.target? source with
  | none => simp
  | some target =>
    simp only [List.mem_map, Option.some.injEq]
    constructor
    · rintro ⟨⟨a, place⟩, mem, rfl⟩
      exact ⟨rfl, List.mem_zipIdx_iff_getElem?.mp mem⟩
    · rintro ⟨rfl, listed⟩
      exact ⟨(link.accessor, link.place), List.mem_zipIdx_iff_getElem?.mpr listed, rfl⟩

theorem sorted_zipIdx (accessors : List MethodAccessor) :
    accessors.zipIdx.Pairwise fun a b => a.2 < b.2 := by
  have sorted : (accessors.zipIdx.map Prod.snd).Pairwise (· < ·) := by
    rw [List.zipIdx_map_snd]
    exact List.pairwise_lt_range' 1
  exact List.pairwise_map.mp sorted

theorem sorted_nexts : (nexts source chain).Pairwise fun a b => a.place < b.place := by
  unfold nexts
  cases chain.target? source with
  | none => exact .nil
  | some target => exact List.pairwise_map.mpr (sorted_zipIdx _)

/-! ## 3. Tails -/

/-- All continuations of a chain by `more` links and a last one, in the order of their places. -/
def tails (source : ChainSource Id) : (more : Nat) → Chain → List (List Link)
  | 0, chain =>
    ((nexts source chain).filter fun link =>
      ReturnType.classify link.accessor.returnType = .simple).map fun link => [link]
  | more + 1, chain =>
    (nexts source chain).flatMap fun link => (tails source more (chain.enter link)).map (link :: ·)

/-- The chain with a tail behind it, as an accessor. -/
def ending : (chain : Chain) → List Link → MethodAccessor
  | chain, [] => chain.accessor
  | chain, link :: links => ending (chain.enter link) links

theorem mem_tails {more : Nat} {links : List Link} :
    links ∈ tails source more chain ↔ links.length = more + 1 ∧
      Route.LeadsOn source (chain.path.headD []) chain.accessor.returnType links ∧
      (links.map Link.target).Nodup ∧ ∀ link ∈ links, link.target ∉ chain.path := by
  induction more generalizing chain links with
  | zero =>
    unfold tails
    simp only [List.mem_map, List.mem_filter, mem_nexts, decide_eq_true_eq, target?_eq_some_iff]
    constructor
    · rintro ⟨link, ⟨⟨⟨named, fresh⟩, listed⟩, simple⟩, rfl⟩
      refine ⟨rfl, Route.leadsOn_cons_iff.mpr ⟨named, listed, .ends simple⟩, by simp, ?_⟩
      simpa using fresh
    · rintro ⟨length, leads, -, fresh⟩
      obtain ⟨link, rfl⟩ := List.length_eq_one_iff.mp length
      obtain ⟨named, listed, simple⟩ := Route.leadsOn_cons_iff.mp leads
      exact ⟨link, ⟨⟨⟨named, fresh link List.mem_cons_self⟩, listed⟩,
        Route.leadsOn_nil_iff.mp simple⟩, rfl⟩
  | succ more ih =>
    unfold tails
    simp only [List.mem_flatMap, List.mem_map, mem_nexts, target?_eq_some_iff, ih]
    constructor
    · rintro ⟨link, ⟨⟨named, fresh⟩, listed⟩, links, ⟨length, leads, nodup, others⟩, rfl⟩
      refine ⟨congrArg (· + 1) length, Route.leadsOn_cons_iff.mpr ⟨named, listed, leads⟩, ?_, ?_⟩
      · rw [List.map_cons, List.nodup_cons]
        refine ⟨fun mem => ?_, nodup⟩
        obtain ⟨other, mem, same⟩ := List.mem_map.mp mem
        exact others other mem (same ▸ List.mem_cons_self)
      · intro other mem
        rcases List.mem_cons.mp mem with rfl | mem
        · exact fresh
        · exact fun on_path => others other mem (List.mem_cons_of_mem _ on_path)
    · rintro ⟨length, leads, nodup, fresh⟩
      obtain _ | ⟨link, links⟩ := links
      · cases length
      obtain ⟨named, listed, leads⟩ := Route.leadsOn_cons_iff.mp leads
      rw [List.map_cons, List.nodup_cons] at nodup
      refine ⟨link, ⟨⟨named, fresh link List.mem_cons_self⟩, listed⟩, links,
        ⟨Nat.succ.inj length, leads, nodup.2, ?_⟩, rfl⟩
      intro other mem on_path
      rcases List.mem_cons.mp on_path with same | on_path
      · exact nodup.1 (List.mem_map.mpr ⟨other, mem, same⟩)
      · exact fresh other (List.mem_cons_of_mem link mem) on_path

theorem sorted_tails (more : Nat) (chain : Chain) :
    (tails source more chain).Pairwise fun a b => a.map Link.place < b.map Link.place := by
  induction more generalizing chain with
  | zero =>
    refine List.pairwise_map.mpr ((sorted_nexts.sublist List.filter_sublist).imp ?_)
    intro a b lt
    exact List.cons_lt_cons_iff.mpr (.inl lt)
  | succ more ih =>
    refine List.pairwise_flatMap.mpr ⟨?_, sorted_nexts.imp ?_⟩
    · intro link _
      refine List.pairwise_map.mpr ((ih (chain.enter link)).imp ?_)
      intro a b lt
      exact List.cons_lt_cons_iff.mpr (.inr ⟨rfl, lt⟩)
    · intro a b lt x mem y mem'
      obtain ⟨x, -, rfl⟩ := List.mem_map.mp mem
      obtain ⟨y, -, rfl⟩ := List.mem_map.mp mem'
      exact List.cons_lt_cons_iff.mpr (.inl lt)

/-! ## 4. Level by level -/

/-- A chain that ends in no class leads to nothing, so that it may as well be followed. -/
theorem flatMap_ifCompound (more : Nat) (chain : Chain) :
    ((match ReturnType.classify chain.accessor.returnType with
      | .compound _ => some chain
      | _ => none).toList.flatMap fun chain => (tails source more chain).map chain.ending) =
      (tails source more chain).map chain.ending := by
  have nothing (none_next : nexts source chain = []) : tails source more chain = [] := by
    cases more <;> (unfold tails; rw [none_next]; rfl)
  cases use : ReturnType.classify chain.accessor.returnType with
  | compound name => exact List.flatMap_singleton _ _
  | simple =>
    rw [nothing (by simp [nexts, target?, use])]
    rfl
  | unusable =>
    rw [nothing (by simp [nexts, target?, use])]
    rfl

theorem nexts_accessors :
    (nexts source chain).map Link.accessor = match chain.target? source with
      | some target => (source.links target).run
      | none => [] := by
  unfold nexts
  cases chain.target? source with
  | none => rfl
  | some target =>
    rw [List.map_map]
    exact List.zipIdx_map_fst 0 _

theorem complete_eq :
    (follow source chain).run.complete = (tails source 0 chain).map chain.ending := by
  have joined : (tails source 0 chain).map chain.ending =
      (((nexts source chain).map Link.accessor).filter fun link =>
        ReturnType.classify link.returnType = .simple).map chain.join := by
    unfold tails
    rw [List.filter_map, List.map_map, List.map_map]
    rfl
  rw [joined, nexts_accessors, follow_eq]
  cases chain.target? source <;> rfl

theorem going_eq :
    (follow source chain).run.going = (nexts source chain).filterMap fun link =>
      match ReturnType.classify link.accessor.returnType with
      | .compound _ => some (chain.enter link)
      | _ => none := by
  unfold nexts
  rw [follow_eq]
  cases chain.target? source with
  | none => rfl
  | some target =>
    rw [List.filterMap_map]
    show List.filterMap _ (source.links target).run = _
    generalize (source.links target).run = links
    rw [← List.zipIdx_map_fst 0 links, List.filterMap_map, List.zipIdx_map_fst]
    rfl

theorem going_tails (more : Nat) :
    ((follow source chain).run.going.flatMap fun next => (tails source more next).map next.ending) =
      (tails source (more + 1) chain).map chain.ending := by
  rw [going_eq, List.filterMap_eq_flatMap_toList, List.flatMap_assoc, tails, List.map_flatMap]
  refine List.flatMap_congr fun link _ => ?_
  rw [List.map_map]
  exact flatMap_ifCompound more (chain.enter link)

/-- A step completes what is one link away from its chains. -/
theorem flatMap_complete (chains : List Chain) :
    (chains.map (follow source)).flatMap Continuations.complete =
      chains.flatMap fun chain => (tails source 0 chain).map chain.ending := by
  rw [List.flatMap_map]
  exact List.flatMap_congr fun chain _ => complete_eq

/-- All else that its chains lead to, the chains behind the step lead to with one link less. -/
theorem flatMap_going (more : Nat) (chains : List Chain) :
    (((chains.map (follow source)).flatMap Continuations.going).flatMap fun next =>
        (tails source more next).map next.ending) =
      chains.flatMap fun chain => (tails source (more + 1) chain).map chain.ending := by
  rw [List.flatMap_map, List.flatMap_assoc]
  exact List.flatMap_congr fun chain _ => going_tails more

/-- **What the levels find is what each chain leads to, one length after the other.** -/
theorem expandLevels_tails (more : Nat) (chains : List Chain) :
    (expandLevels source more chains).run = (List.range (more + 1)).flatMap fun n =>
      chains.flatMap fun chain => (tails source n chain).map chain.ending := by
  induction more generalizing chains with
  | zero =>
    rw [expandLevels_zero, List.range_one, List.flatMap_singleton]
    exact flatMap_complete chains
  | succ more ih =>
    calc (expandLevels source (more + 1) chains).run
        = (chains.flatMap fun chain => (tails source 0 chain).map chain.ending) ++
            (List.range (more + 1)).flatMap fun n =>
              chains.flatMap fun chain => (tails source (n + 1) chain).map chain.ending := by
          rw [expandLevels_succ, Id.run, flatMap_complete, ih]
          exact congrArg _ (List.flatMap_congr fun n _ => flatMap_going n chains)
      _ = (List.range (more + 1 + 1)).flatMap fun n =>
            chains.flatMap fun chain => (tails source n chain).map chain.ending := by
          rw [List.range_succ_eq_map (n := more + 1), List.flatMap_cons, List.flatMap_map]

/-! ## 5. The accessor of a route -/

/-- The parts before a link can be chained first. -/
theorem joined_join {part : MethodAccessor → Text} {link next : MethodAccessor}
    {rest : List MethodAccessor}
    (parts : part (chain.join link) =
      part chain.accessor ++ ReturnType.chainDelimiter chain.accessor.returnType ++ part link) :
    Route.joined part (chain.join link) (next :: rest) =
      Route.joined part chain.accessor (link :: next :: rest) := by
  show part (chain.join link) ++ ReturnType.chainDelimiter link.returnType ++ _ =
    part chain.accessor ++ _ ++ (part link ++ ReturnType.chainDelimiter link.returnType ++ _)
  simp only [parts, List.append_assoc]

theorem ending_eq_accessor {root : MethodAccessor} {path : List Text} {links : List Link}
    (linked : 1 ≤ links.length) (place : Nat) :
    ending ⟨root, path⟩ links = (Route.mk place root links).accessor := by
  induction links generalizing root path with
  | nil => cases linked
  | cons link links ih =>
    cases links with
    | nil => rfl
    | cons next links =>
      show ending ⟨join ⟨root, path⟩ link.accessor, link.target :: path⟩ (next :: links) = _
      rw [ih (Nat.succ_pos _)]
      unfold Route.accessor Route.linked
      simp only [List.map_cons, List.getLastD_cons]
      rw [joined_join rfl, joined_join rfl]
      rfl

end Chain

/-! ## 6. All routes -/

namespace Route

variable {source : ChainSource Id} {className : Text} {roots : List MethodAccessor} {maxLinks : Nat}
variable {n : Nat} {start : MethodAccessor × Nat} {r : Route}

/-- The routes that start from a root, in its place, with a last link behind `n` other ones. -/
def startingFrom (source : ChainSource Id) (className : Text) (n : Nat)
    (start : MethodAccessor × Nat) :
    List Route :=
  (Chain.tails source n ⟨start.1, [className]⟩).map fun links => ⟨start.2, start.1, links⟩

/-- The routes of a class, length by length and root by root. -/
def all (source : ChainSource Id) (className : Text) (roots : List MethodAccessor)
    (maxLinks : Nat) :
    List Route :=
  (List.range (maxLinks - 1 + 1)).flatMap fun n =>
    roots.zipIdx.flatMap (startingFrom source className n)

theorem mem_startingFrom :
    r ∈ startingFrom source className n start ↔ (r.root, r.place) = start ∧ r.links.length = n + 1 ∧
      LeadsOn source className r.root.returnType r.links ∧
      (className :: r.links.map Link.target).Nodup := by
  unfold startingFrom
  rw [List.mem_map]
  constructor
  · rintro ⟨links, mem, rfl⟩
    obtain ⟨length, leads, nodup, fresh⟩ := Chain.mem_tails.mp mem
    refine ⟨rfl, length, leads, List.nodup_cons.mpr ⟨?_, nodup⟩⟩
    intro mem
    obtain ⟨link, mem, same⟩ := List.mem_map.mp mem
    exact fresh link mem (List.mem_singleton.mpr same)
  · rintro ⟨rfl, length, leads, distinct⟩
    obtain ⟨fresh, nodup⟩ := List.nodup_cons.mp distinct
    refine ⟨r.links, Chain.mem_tails.mpr ⟨length, leads, nodup, ?_⟩, rfl⟩
    intro link mem on_path
    exact fresh (List.mem_singleton.mp on_path ▸ List.mem_map_of_mem mem)

theorem mem_all :
    r ∈ all source className roots maxLinks ↔ r.Admitted source className roots maxLinks := by
  unfold all
  simp only [List.mem_flatMap, List.mem_range, mem_startingFrom]
  constructor
  · rintro ⟨n, bound, _, listed, rfl, length, leads, distinct⟩
    have listed := List.mem_zipIdx_iff_getElem?.mp listed
    exact ⟨listed, leads, by omega, by omega, distinct⟩
  · rintro ⟨listed, leads, linked, bounded, distinct⟩
    have listed : (r.root, r.place) ∈ roots.zipIdx := List.mem_zipIdx_iff_getElem?.mpr listed
    exact ⟨r.links.length - 1, by omega, _, listed, rfl, by omega, leads, distinct⟩

theorem sorted_startingFrom : (startingFrom source className n start).Pairwise Before := by
  refine List.pairwise_map.mpr ((Chain.sorted_tails n _).imp_of_mem ?_)
  intro a b mem mem' lt
  refine .inr ⟨?_, List.cons_lt_cons_iff.mpr (.inr ⟨rfl, lt⟩)⟩
  exact (Chain.mem_tails.mp mem).1.trans (Chain.mem_tails.mp mem').1.symm

theorem sorted_all : (all source className roots maxLinks).Pairwise Before := by
  refine List.pairwise_flatMap.mpr ⟨fun n _ => List.pairwise_flatMap.mpr ⟨?_, ?_⟩, ?_⟩
  · intro start _
    exact sorted_startingFrom
  · refine (Chain.sorted_zipIdx roots).imp ?_
    intro a b lt r mem s mem'
    obtain ⟨rfl, length, -⟩ := mem_startingFrom.mp mem
    obtain ⟨rfl, length', -⟩ := mem_startingFrom.mp mem'
    exact .inr ⟨length.trans length'.symm, List.cons_lt_cons_iff.mpr (.inl lt)⟩
  · refine List.pairwise_lt_range.imp ?_
    intro n m lt r mem s mem'
    obtain ⟨_, -, mem⟩ := List.mem_flatMap.mp mem
    obtain ⟨_, -, mem'⟩ := List.mem_flatMap.mp mem'
    have length := (mem_startingFrom.mp mem).2.1
    have length' := (mem_startingFrom.mp mem').2.1
    exact .inl (by omega)

/-- The routes from a root make what its chain leads to. -/
theorem map_startingFrom : (startingFrom source className n start).map accessor =
    (Chain.tails source n ⟨start.1, [className]⟩).map (Chain.ending ⟨start.1, [className]⟩) := by
  unfold startingFrom
  rw [List.map_map]
  refine List.map_congr_left fun links mem => (Chain.ending_eq_accessor ?_ start.2).symm
  rw [(Chain.mem_tails.mp mem).1]
  exact Nat.succ_pos n

/-- So do the routes from all roots and the chains that these start. -/
theorem flatMap_startingFrom :
    (roots.zipIdx.flatMap fun start => (startingFrom source className n start).map accessor) =
      (roots.filterMap (Chain.start? className)).flatMap fun chain =>
        (Chain.tails source n chain).map chain.ending := by
  have unplaced : (roots.zipIdx.map Prod.fst) = roots := List.zipIdx_map_fst 0 roots
  rw [List.filterMap_eq_flatMap_toList, List.flatMap_assoc]
  nth_rewrite 2 [← unplaced]
  rw [List.flatMap_map]
  refine List.flatMap_congr fun start _ => ?_
  rw [map_startingFrom]
  exact (Chain.flatMap_ifCompound n ⟨start.1, [className]⟩).symm

/-- **The expansion finds the accessors of the routes.**  It finds one for each route of the class:
the shorter routes first, and those of one length in the order of their places. -/
theorem expand_routes (source : ChainSource Id) (className : Text) (roots : List MethodAccessor)
    (maxLinks : Nat) :
    ∃ routes : List Route, routes.Pairwise Before ∧
      (∀ r, r ∈ routes ↔ r.Admitted source className roots maxLinks) ∧
      (Chain.expand source className roots maxLinks).run = routes.map accessor := by
  refine ⟨all source className roots maxLinks, sorted_all, fun r => mem_all, ?_⟩
  unfold Chain.expand all
  simp only [Chain.expandLevels_tails, List.map_flatMap, flatMap_startingFrom]

end Route
end AccessorCatalog

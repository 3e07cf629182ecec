/-
# What is remembered changes no answer

While entries are built, a survey remembers what its oracle said and which links it found, and it
counts.  None of this may show in what it answers.  `Answers k build a` says so for one computation:
from every memory that is in order it gives `a`, and it leaves the memory in order.  A memory is in
order (`Memory.Sound`) if all that it holds is what would be found again.

* `answers_entry`, `answers_entries`: the entries of a survey are a function of its knowledge,
  `Knowledge.entryOf`;
* `answers_links`, `answers_resolve`: so are the links of a class and the class that a name stands
  for;
* `answers_expandLevels`: so are the chains over any source of classes and links that has answers.

The answers that other proofs look into are written out: `Knowledge.resolved`, `Knowledge.entryOf`,
and in `Knowledge.collected_eq` what a class has with its base classes.  The walk through the base
classes itself is only shown to have one answer, `Knowledge.chainOf`.
-/
import AccessorCatalog.Survey.Output

namespace AccessorCatalog

/-! ## 1. Chains over known classes -/

namespace Chain

variable (source : ChainSource Id)

theorem expandLevels_zero (chains : List Chain) :
    expandLevels source 0 chains = (chains.map (follow source)).flatMap Continuations.complete := by
  rw [← show chains.mapM (follow source) = chains.map (follow source) from List.idRun_mapM]
  rfl

theorem expandLevels_nil (more : Nat) : expandLevels source more [] = [] := by
  cases more <;> rfl

theorem expandLevels_succ (more : Nat) (chains : List Chain) :
    expandLevels source (more + 1) chains =
      (chains.map (follow source)).flatMap Continuations.complete ++
        (expandLevels source more
          ((chains.map (follow source)).flatMap Continuations.going)).run := by
  rw [← show chains.mapM (follow source) = chains.map (follow source) from List.idRun_mapM]
  show (if _ then _ else _) = _
  split
  · next complete =>
    rw [List.isEmpty_iff.mp complete, expandLevels_nil]
    exact (List.append_nil _).symm
  · rfl

end Chain

namespace Survey

open Declaration

variable {α β : Type} {k : Knowledge}

/-! ## 2. Answers from the knowledge alone -/

namespace Knowledge

/-- What the oracle says of a class. -/
def info? (k : Knowledge) (name : Text) : Option Reflection.ClassInfo :=
  (k.oracle name).info?

/-- The known class that a name stands for when it is used inside a scope: the first of its
candidates that is known without the oracle, or else the first that the oracle knows. -/
def resolved (k : Knowledge) (name scope : Text) : Option Text :=
  let names := ClassName.candidates name scope
  (names.find? k.knows).or (names.find? fun name => (k.info? name).isSome)

/-- Own and inherited accessors of a class, if it is known. -/
def collected (k : Knowledge) (name : Text) : Option Collected :=
  (collect k name .start).1

/-- The accessors that a class declares and where they come from, if oracle or headers know it. -/
def own? (k : Knowledge) (name : Text) : Option (OwnAccessors × Origin) :=
  match k.info? name with
  | some info => some (.ofInfo name info, .oracle)
  | none => (k.classes.get? name).map fun c => (.ofOutline name c, .header)

/-- The base classes of a class, and whether there are any beyond the bound. -/
def chainOf (k : Knowledge) (name : Text) : BaseChain :=
  (baseChain k name .start).1

/-- The layers that a class inherits; what the oracle says of it holds them already. -/
def inherited (k : Knowledge) (name : Text) : Origin → List OwnAccessors
  | .oracle => []
  | .header => (k.chainOf name).bases.filterMap fun base => (k.own? base).map Prod.fst

/-- The accessors of a class, its own layered over the inherited ones. -/
def layered (k : Knowledge) (name : Text) : Option Collected :=
  (k.own? name).map fun (own, origin) =>
    ⟨flattenLayers (own :: k.inherited name origin), (k.chainOf name).bases⟩

/-- The links of a class. -/
def linksOf (k : Knowledge) (name : Text) : List MethodAccessor :=
  match k.collected name with
  | some found => found.links
  | none => listedLinks k name

/-- Where the chains of a survey find their classes and links. -/
def source (k : Knowledge) : ChainSource Id :=
  ⟨k.resolved, k.linksOf⟩

/-- The record of a class, by its header if it has been read. -/
def record? (k : Knowledge) (name : Text) : Option ClassRecord :=
  match k.classes.get? name with
  | some c => some c.record
  | none => (k.info? name).map fun info => ⟨name, info.bases, [], (k.map.header? name).getD []⟩

/-- Whether a type leads somewhere when it is used in a class. -/
def lists (k : Knowledge) (type owner : Text) : Bool :=
  match ReturnType.classify type with
  | .simple => true
  | .compound name => (k.resolved name owner).isSome
  | .unusable => false

/-- The methods of a class whose types lead somewhere, with their keys. -/
def rootsOf (k : Knowledge) (found : Collected) : List (Text × MethodAccessor) :=
  found.accessors.methods.filter fun m => k.lists m.2.returnType m.2.owner

/-- The chained accessors that start from the methods of a class. -/
def chained (k : Knowledge) (name : Text) (roots : List (Text × MethodAccessor)) :
    List MethodAccessor :=
  if k.settings.expandCompound then
    newChains (roots.map Prod.fst)
      (Chain.expand k.source name (roots.map Prod.snd) k.settings.maxCompoundDepth)
  else []

/-- The catalog entry of a class, if headers or oracle know it. -/
def entryOf (k : Knowledge) (name : Text) : Option CatalogEntry :=
  (k.record? name).map fun record =>
    match k.collected name with
    | none => .ofRecord record
    | some found =>
      ⟨record, (k.rootsOf found).map Prod.snd ++ k.chained name (k.rootsOf found),
        found.accessors.members.filter fun m => k.lists m.type m.owner, found.bases⟩

end Knowledge

/-! ## 3. Memories in order -/

/-- All that is remembered is what would be found again. -/
structure Memory.Sound (k : Knowledge) (m : Memory) : Prop where
  answers : m.answers.Agrees k.oracle
  links : ∀ name found, m.links.get? name = some found → found = k.linksOf name

theorem Memory.sound_start (k : Knowledge) : Memory.start.Sound k where
  answers := Reflection.Cache.agrees_ofCapacity _ _
  links := fun _ _ h => by cases h

/-- A computation gives one answer from every memory in order, and leaves the memory in order. -/
def Answers (k : Knowledge) (build : Build α) (a : α) : Prop :=
  ∀ m : Memory, m.Sound k → ∃ m', build m = (a, m') ∧ m'.Sound k

/-- A computation has one answer. -/
def Steady (k : Knowledge) (build : Build α) : Prop :=
  ∃ a, Answers k build a

namespace Answers

theorem pure (a : α) : Answers k (Pure.pure a) a :=
  fun m sound => ⟨m, rfl, sound⟩

theorem bind {build : Build α} {next : α → Build β} {a : α} {b : β} (first : Answers k build a)
    (second : Answers k (next a) b) : Answers k (build >>= next) b := by
  intro m sound
  obtain ⟨m', built, sound'⟩ := first m sound
  obtain ⟨m'', built', sound''⟩ := second m' sound'
  refine ⟨m'', ?_, sound''⟩
  show next (build m).1 (build m).2 = _
  rw [built]
  exact built'

theorem steady {build : Build α} {a : α} (h : Answers k build a) : Steady k build :=
  ⟨a, h⟩

/-- What is done with the memory as it is has an answer if it has that answer for every memory in
order. -/
theorem get_bind {next : Memory → Build β} {b : β}
    (h : ∀ m : Memory, m.Sound k → Answers k (next m) b) : Answers k (get >>= next) b :=
  fun m sound => h m sound m sound

theorem modify {change : Memory → Memory} (keeps : ∀ m : Memory, m.Sound k → (change m).Sound k) :
    Answers k (modify change) () :=
  fun m sound => ⟨change m, rfl, keeps m sound⟩

/-- The answer from any memory in order. -/
theorem eq {build : Build α} {a : α} (h : Answers k build a) {m : Memory} (sound : m.Sound k) :
    (build m).1 = a := by
  obtain ⟨m', built, -⟩ := h m sound
  rw [built]

/-- The memory behind a computation is in order. -/
theorem sound {build : Build α} {a : α} (h : Answers k build a) {m : Memory} (sound : m.Sound k) :
    (build m).2.Sound k := by
  obtain ⟨m', built, sound'⟩ := h m sound
  rw [built]
  exact sound'

end Answers

namespace Steady

theorem pure (a : α) : Steady k (Pure.pure a : Build α) :=
  ⟨a, .pure a⟩

theorem bind {build : Build α} {next : α → Build β} (first : Steady k build)
    (second : ∀ a, Steady k (next a)) : Steady k (build >>= next) := by
  obtain ⟨a, first⟩ := first
  obtain ⟨b, second⟩ := second a
  exact ⟨b, first.bind second⟩

/-- The one answer is the answer from a memory that holds nothing. -/
theorem answers {build : Build α} (h : Steady k build) : Answers k build (build .start).1 := by
  obtain ⟨a, h⟩ := h
  rw [h.eq (Memory.sound_start k)]
  exact h

end Steady

/-! ## 4. The oracle -/

theorem answers_note (change : RunReport → RunReport) : Answers k (note change) () :=
  fun _ sound => ⟨_, rfl, sound.answers, sound.links⟩

theorem answers_ask (name : Text) : Answers k (ask k name) (k.info? name) := fun _ sound =>
  ⟨_, Prod.ext (Reflection.Cache.ask_fst sound.answers name) rfl, sound.answers.ask name,
    sound.links⟩

theorem answers_firstInOracle (names : List Text) :
    Answers k (firstInOracle k names) (names.find? fun name => (k.info? name).isSome) := by
  induction names with
  | nil => exact .pure _
  | cons name names ih =>
    refine (answers_ask name).bind ?_
    rw [List.find?_cons]
    cases (k.info? name).isSome
    · exact ih
    · exact .pure _

theorem answers_resolve (name scope : Text) :
    Answers k (resolve k name scope) (k.resolved name scope) := by
  unfold resolve Knowledge.resolved
  dsimp only
  split
  · next found => rw [found]; exact .pure _
  · next missing => rw [missing]; exact answers_firstInOracle _

/-! ## 5. Classes with their base classes -/

/-- A property of computations that asking the oracle has and that passes from the steps of a
computation to the whole. -/
structure Compositional (k : Knowledge) (P : {α : Type} → Build α → Prop) : Prop where
  pure : ∀ {α : Type} (a : α), P (Pure.pure a : Build α)
  bind : ∀ {α β : Type} {build : Build α} {next : α → Build β},
    P build → (∀ a, P (next a)) → P (build >>= next)
  ask : ∀ name, P (ask k name)

namespace Compositional

variable {P : {α : Type} → Build α → Prop} (h : Compositional k P)

include h

theorem firstInOracle (names : List Text) : P (firstInOracle k names) := by
  induction names with
  | nil => exact h.pure _
  | cons name names ih =>
    refine h.bind (h.ask name) fun info? => ?_
    split
    · exact h.pure _
    · exact ih

theorem resolve (name scope : Text) : P (resolve k name scope) := by
  unfold Survey.resolve
  dsimp only
  split
  · exact h.pure _
  · exact h.firstInOracle _

theorem declaredBases (name : Text) : P (declaredBases k name) := by
  refine h.bind (h.ask name) fun info? => ?_
  cases info? <;> exact h.pure _

theorem resolveBase (current base : Text) : P (resolveBase k current base) :=
  h.bind (h.resolve base current) fun _ => h.pure _

theorem freshBases (current : Text) (bases seen : List Text) :
    P (freshBases k current bases seen) := by
  induction bases generalizing seen with
  | nil => exact h.pure _
  | cons base bases ih =>
    refine h.bind (h.resolveBase current base) fun base => ?_
    split
    · exact ih seen
    · exact h.bind (ih _) fun _ => h.pure _

theorem freshLevel (level seen : List Text) : P (freshLevel k level seen) := by
  induction level generalizing seen with
  | nil => exact h.pure _
  | cons current level ih =>
    refine h.bind (h.declaredBases current) fun bases => ?_
    refine h.bind (h.freshBases current bases seen) fun fresh => ?_
    exact h.bind (ih _) fun _ => h.pure _

theorem anyFreshBase (current : Text) (seen bases : List Text) :
    P (anyFreshBase k current seen bases) := by
  induction bases with
  | nil => exact h.pure _
  | cons base bases ih =>
    refine h.bind (h.resolveBase current base) fun base => ?_
    split
    · exact ih
    · exact h.pure _

theorem anyFresh (seen level : List Text) : P (anyFresh k seen level) := by
  induction level with
  | nil => exact h.pure _
  | cons current level ih =>
    refine h.bind (h.declaredBases current) fun bases => ?_
    refine h.bind (h.anyFreshBase current seen bases) fun any => ?_
    split
    · exact h.pure _
    · exact ih

theorem chainFrom (more : Nat) (level seen : List Text) : P (chainFrom k more level seen) := by
  induction more generalizing level seen with
  | zero => exact h.bind (h.anyFresh seen level) fun _ => h.pure _
  | succ more ih =>
    refine h.bind (h.freshLevel level seen) fun fresh => ?_
    split
    · exact h.pure _
    · exact h.bind (ih fresh _) fun _ => h.pure _

theorem baseChain (name : Text) : P (baseChain k name) :=
  h.chainFrom _ _ _

end Compositional

theorem compositional_steady : Compositional k (Steady k) where
  pure := .pure
  bind := .bind
  ask name := (answers_ask name).steady

theorem answers_baseChain (name : Text) : Answers k (baseChain k name) (k.chainOf name) :=
  (compositional_steady.baseChain name).answers

theorem answers_ownAccessors (name : Text) : Answers k (ownAccessors k name) (k.own? name) := by
  refine (answers_ask name).bind ?_
  unfold Knowledge.own?
  cases k.info? name with
  | some info => exact .pure _
  | none =>
    dsimp only
    cases k.classes.get? name with
    | some c => exact (answers_note _).bind (.pure _)
    | none => exact .pure _

theorem answers_baseLayers (bases : List Text) :
    Answers k (baseLayers k bases) (bases.filterMap fun base => (k.own? base).map Prod.fst) := by
  induction bases with
  | nil => exact .pure _
  | cons base bases ih =>
    refine (answers_ownAccessors base).bind (ih.bind ?_)
    rw [List.filterMap_cons]
    cases k.own? base <;> exact .pure _

theorem answers_reportOverrun (name : Text) : Answers k (reportOverrun k name) () := by
  refine .get_bind fun m _ => ?_
  split
  · exact .pure _
  · refine Answers.bind (a := ()) (.modify fun _ sound => ⟨sound.answers, sound.links⟩) ?_
    exact answers_note _

theorem answers_collect_layers (name : Text) : Answers k (collect k name) (k.layered name) := by
  refine (answers_ownAccessors name).bind ?_
  unfold Knowledge.layered
  obtain _ | ⟨own, origin⟩ := k.own? name
  · exact .pure _
  refine (answers_baseChain name).bind ?_
  cases origin with
  | oracle =>
    dsimp only
    split
    · exact (answers_reportOverrun name).bind ((Answers.pure []).bind (.pure _))
    · exact (Answers.pure []).bind (.pure _)
  | header =>
    have layers := answers_baseLayers (k := k) (k.chainOf name).bases
    dsimp only
    split
    · exact (answers_reportOverrun name).bind (layers.bind (.pure _))
    · exact layers.bind (.pure _)

/-- **The accessors of a class are its own, layered over those of its base classes.** -/
theorem Knowledge.collected_eq (k : Knowledge) (name : Text) : k.collected name = k.layered name :=
  (answers_collect_layers name).eq (Memory.sound_start k)

theorem answers_collect (name : Text) : Answers k (collect k name) (k.collected name) := by
  rw [k.collected_eq]
  exact answers_collect_layers name

/-! ## 6. Links and chains -/

theorem answers_links (name : Text) : Answers k (links k name) (k.linksOf name) := by
  refine .get_bind fun m sound => ?_
  split
  · next found known =>
    rw [sound.links name found known]
    exact .pure _
  refine (answers_collect name).bind ?_
  refine Answers.bind (a := ())
    (.modify fun m sound => ⟨sound.answers, fun other found known => ?_⟩) (.pure _)
  rw [Table.get?_insert] at known
  split at known
  · next same =>
    rw [same, ← Option.some.inj known]
    rfl
  · exact sound.links other found known

/-- A source of classes and links that has answers. -/
structure AnsweredBy (k : Knowledge) (asked : ChainSource Build) (known : ChainSource Id) :
    Prop where
  resolve : ∀ name scope, Answers k (asked.resolve name scope) (known.resolve name scope)
  links : ∀ name, Answers k (asked.links name) (known.links name)

theorem Answers.mapM {f : α → Build β} {g : α → β} (h : ∀ a, Answers k (f a) (g a)) (as : List α) :
    Answers k (as.mapM f) (as.map g) := by
  induction as with
  | nil => exact .pure _
  | cons a as ih =>
    rw [List.mapM_cons]
    exact (h a).bind (ih.bind (.pure _))

variable {asked : ChainSource Build} {known : ChainSource Id}

theorem answers_follow (h : AnsweredBy k asked known) (chain : Chain) :
    Answers k (Chain.follow asked chain) (Chain.follow known chain) := by
  unfold Chain.follow
  cases ReturnType.classify chain.accessor.returnType with
  | simple => exact .pure _
  | unusable => exact .pure _
  | compound name =>
    refine (h.resolve name _).bind ?_
    show Answers k _ (match known.resolve name (chain.path.headD []) with
      | some target => if chain.path.contains target then Chain.Continuations.mk [] []
        else chain.continuations target (known.links target)
      | none => Chain.Continuations.mk [] [])
    cases known.resolve name (chain.path.headD []) with
    | none => exact .pure _
    | some target =>
      dsimp only
      cases chain.path.contains target with
      | true => exact .pure _
      | false => exact (h.links target).bind (.pure _)

theorem answers_expandLevels (h : AnsweredBy k asked known) (more : Nat) (chains : List Chain) :
    Answers k (Chain.expandLevels asked more chains) (Chain.expandLevels known more chains) := by
  induction more generalizing chains with
  | zero =>
    rw [Chain.expandLevels_zero]
    exact (Answers.mapM (answers_follow h) chains).bind (.pure _)
  | succ more ih =>
    rw [Chain.expandLevels_succ]
    refine (Answers.mapM (answers_follow h) chains).bind ?_
    dsimp only
    split
    · next complete =>
      rw [List.isEmpty_iff.mp complete, Chain.expandLevels_nil, Id.run, List.append_nil]
      exact .pure _
    · exact (ih _).bind (.pure _)

theorem answers_chains (name : Text) (methods : List (Text × MethodAccessor)) :
    Answers k (chains k name methods) (k.chained name methods) := by
  have source : AnsweredBy k (chainSource k) k.source := ⟨answers_resolve, answers_links⟩
  unfold chains Knowledge.chained
  cases k.settings.expandCompound with
  | false => exact .pure _
  | true => exact (answers_expandLevels source _ _).bind (.pure _)

/-! ## 7. Entries -/

theorem answers_keepListable {test : α → Build Bool} {kept : α → Bool}
    (h : ∀ a, Answers k (test a) (kept a)) (as : List α) :
    Answers k (keepListable test as) (as.filter kept) := by
  induction as with
  | nil => exact .pure _
  | cons a as ih =>
    refine (h a).bind (ih.bind ?_)
    rw [List.filter_cons]
    exact .pure _

theorem answers_isListable (type owner : Text) :
    Answers k (isListable k type owner) (k.lists type owner) := by
  unfold isListable Knowledge.lists
  cases ReturnType.classify type with
  | simple => exact .pure _
  | compound name => exact (answers_resolve name owner).bind (.pure _)
  | unusable => exact .pure _

theorem answers_recordOf (name : Text) : Answers k (recordOf k name) (k.record? name) := by
  refine (answers_ask name).bind ?_
  unfold Knowledge.record?
  cases k.classes.get? name <;> exact .pure _

theorem answers_entry (name : Text) : Answers k (entry k name) (k.entryOf name) := by
  refine (answers_recordOf name).bind ?_
  unfold Knowledge.entryOf
  obtain _ | record := k.record? name
  · exact .pure _
  dsimp only
  refine (answers_collect name).bind ?_
  obtain _ | found := k.collected name
  · exact .pure _
  have methods (m : Text × MethodAccessor) :
      Answers k (isListable k m.2.returnType m.2.owner) (k.lists m.2.returnType m.2.owner) :=
    answers_isListable _ _
  have members (m : MemberAccessor) :
      Answers k (isListable k m.type m.owner) (k.lists m.type m.owner) :=
    answers_isListable _ _
  refine (answers_keepListable methods _).bind ((answers_keepListable members _).bind ?_)
  exact (answers_chains name _).bind ((answers_note _).bind (.pure _))

theorem answers_entriesOf (names : List Text) :
    Answers k (entriesOf k names) (names.filterMap k.entryOf) := by
  induction names with
  | nil => exact .pure _
  | cons name names ih =>
    refine (answers_entry name).bind (ih.bind ?_)
    rw [List.filterMap_cons]
    cases k.entryOf name <;> exact .pure _

/-- The entries of all cataloged classes are a function of the knowledge. -/
theorem answers_entries : Answers k (entries k) ((catalogedNames k).filterMap k.entryOf) :=
  (answers_note _).bind ((answers_entriesOf _).bind ((answers_note _).bind (.pure _)))

/-- So are the catalogs. -/
theorem answers_catalogFiles (created : Text) : Answers k (catalogFiles created k)
    (((catalogedNames k).filterMap k.entryOf).map (catalogFile k created)) :=
  answers_entries.bind (.pure _)

end Survey
end AccessorCatalog

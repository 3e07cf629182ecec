/-
# The nearest declaration

A method can be declared by a class and again by its base classes.  `entry_nearest` says what the
entry of a class makes of that: of all methods with one key it lists the first one that is met from
the class outwards, unless its type leads nowhere in the class that declares it, and of all data
members with one name likewise.

The *layers* of a class are what it is met in: the class and its base classes, or the oracle's
answer alone, which holds what is inherited (`Knowledge.layers`).  `firstOfKeys` keeps the first of
each key; adding accessors one by one, unless their key is there, comes to the same
(`foldl_addFirst`).

That no two methods have one key, that each comes from the class or a base class, and that the
chained ones behind them have keys of their own, then follows from how the methods are found.
-/
import AccessorCatalog.Proofs.Chaining
import AccessorCatalog.Proofs.Spelling

namespace AccessorCatalog

/-! ## 1. The first of each key -/

section Keys

variable {α : Type} (key : α → Text)

/-- The elements whose keys no earlier one has. -/
def firstOfKeys : List α → List α
  | [] => []
  | a :: as => a :: (firstOfKeys as).filter fun b => key b != key a

/-- Adds an element, unless its key is there. -/
def addFirst (kept : List α) (a : α) : List α :=
  if kept.any fun b => key b == key a then kept else kept ++ [a]

/-- Elements that are added one by one are those of new keys, the first of each. -/
theorem foldl_addFirst (kept as : List α) :
    as.foldl (addFirst key) kept =
      kept ++ (firstOfKeys key as).filter fun a => !kept.any fun b => key b == key a := by
  induction as generalizing kept with
  | nil => exact (List.append_nil kept).symm
  | cons a as ih =>
    rw [List.foldl_cons, ih, firstOfKeys, List.filter_cons, List.filter_filter, addFirst]
    cases taken : kept.any fun b => key b == key a with
    | true =>
      rw [if_pos rfl, if_neg (by simp)]
      refine congrArg _ (List.filter_congr fun b _ => ?_)
      by_cases same : key b = key a
      · simp [same, taken]
      · simp [same]
    | false =>
      rw [if_neg Bool.false_ne_true, if_pos (by simp), List.append_assoc, List.singleton_append]
      refine congrArg (kept ++ a :: ·) (List.filter_congr fun b _ => ?_)
      have swapped : (key a == key b) = (key b == key a) := BEq.comm
      simp [List.any_append, swapped, bne]

theorem foldl_addFirst_nil (as : List α) : as.foldl (addFirst key) [] = firstOfKeys key as := by
  rw [foldl_addFirst]
  exact List.filter_true _

variable {key}

theorem nodup_firstOfKeys (as : List α) : ((firstOfKeys key as).map key).Nodup := by
  induction as with
  | nil => exact .nil
  | cons a as ih =>
    rw [firstOfKeys, List.map_cons, List.nodup_cons]
    refine ⟨?_, ih.sublist (List.filter_sublist.map key)⟩
    intro mem
    obtain ⟨b, kept, same⟩ := List.mem_map.mp mem
    exact bne_iff_ne.mp (List.mem_filter.mp kept).2 same

/-- An element is kept if it stands somewhere behind other keys only. -/
theorem mem_firstOfKeys {a : α} {as : List α} :
    a ∈ firstOfKeys key as ↔
      ∃ before behind, as = before ++ a :: behind ∧ ∀ b ∈ before, key b ≠ key a := by
  induction as with
  | nil =>
    constructor
    · intro mem
      cases mem
    · rintro ⟨before, behind, eq, -⟩
      simp at eq
  | cons first as ih =>
    rw [firstOfKeys, List.mem_cons, List.mem_filter, ih, bne_iff_ne]
    constructor
    · rintro (rfl | ⟨⟨before, behind, rfl, others⟩, other⟩)
      · exact ⟨[], as, rfl, fun _ mem => by cases mem⟩
      · refine ⟨first :: before, behind, rfl, ?_⟩
        intro b mem
        rcases List.mem_cons.mp mem with rfl | mem
        · exact other.symm
        · exact others b mem
    · rintro ⟨before, behind, eq, others⟩
      cases before with
      | nil =>
        cases eq
        exact .inl rfl
      | cons b before =>
        cases eq
        exact .inr ⟨⟨before, behind, rfl, fun b mem => others b (List.mem_cons_of_mem _ mem)⟩,
          (others _ List.mem_cons_self).symm⟩

end Keys

/-! ## 2. What becomes of the root of a chain -/

theorem Chain.Completes.owner {source : ChainSource Id} {more : Nat} {chain : Chain}
    {a : MethodAccessor} (completes : Completes source more chain a) :
    a.owner = chain.accessor.owner := by
  induction completes with
  | ends => rfl
  | goes _ _ _ _ ih => exact ih

theorem Chain.Completes.simple {source : ChainSource Id} {more : Nat} {chain : Chain}
    {a : MethodAccessor} (completes : Completes source more chain a) :
    ReturnType.classify a.returnType = .simple := by
  induction completes with
  | ends _ _ simple => exact simple
  | goes _ _ _ _ ih => exact ih

namespace Survey

open Declaration

/-- Chained accessors are kept with new keys only, each once. -/
theorem nodup_newChains {taken : List Text} (distinct : taken.Nodup) (found : List MethodAccessor) :
    (taken ++ (newChains taken found).map chainKey).Nodup := by
  induction found generalizing taken with
  | nil => rwa [newChains, List.map_nil, List.append_nil]
  | cons m found ih =>
    unfold newChains
    split
    · exact ih distinct
    · next fresh =>
      have apart : chainKey m ∉ taken := mt List.contains_iff_mem.mpr fresh
      have rest := ih (List.nodup_cons.mpr ⟨apart, distinct⟩)
      exact List.perm_middle.nodup_iff.mpr rest

/-! ## 3. Layers -/

namespace OwnAccessors

/-- All accessors are those of one class. -/
structure OwnedBy (own : OwnAccessors) (className : Text) : Prop where
  methods : ∀ m ∈ own.methods, m.2.owner = className
  members : ∀ m ∈ own.members, m.owner = className

theorem ownedBy_ofDeclarations (className : Text) (methods : List Signature)
    (members : List Member) :
    (ofDeclarations className methods members).OwnedBy className where
  methods m mem := by
    obtain ⟨s, -, keyed⟩ := List.mem_filterMap.mp mem
    obtain ⟨selected, method, rfl⟩ := Option.map_eq_some_iff.mp keyed
    obtain ⟨-, -, -, -, -, rfl⟩ := Selection.method?_eq_some_iff.mp method
    rfl
  members m mem := by
    obtain ⟨declared, -, member⟩ := List.mem_filterMap.mp mem
    unfold Selection.member? at member
    dsimp only at member
    split_ifs at member
    cases member
    rfl

end OwnAccessors

/-- Of several layers, the first accessors of each key are kept. -/
theorem flattenLayers_eq (layers : List OwnAccessors) :
    flattenLayers layers =
      ⟨firstOfKeys Prod.fst (layers.flatMap OwnAccessors.methods),
        firstOfKeys MemberAccessor.name (layers.flatMap OwnAccessors.members)⟩ := by
  rw [← foldl_addFirst_nil, ← foldl_addFirst_nil]
  rfl

theorem exists_layer_of_mem_firstOfKeys {α : Type} {key : α → Text} {part : OwnAccessors → List α}
    {layers : List OwnAccessors} {a : α} (mem : a ∈ firstOfKeys key (layers.flatMap part)) :
    ∃ own ∈ layers, a ∈ part own := by
  obtain ⟨before, behind, eq, -⟩ := mem_firstOfKeys.mp mem
  refine List.mem_flatMap.mp ?_
  rw [eq]
  exact List.mem_append_right before List.mem_cons_self

namespace Knowledge

variable {k : Knowledge} {name : Text}

/-- The accessors that a class declares, if oracle or headers know it. -/
def declared? (k : Knowledge) (name : Text) : Option OwnAccessors :=
  (k.own? name).map Prod.fst

/-- What a class is met in: what the oracle says of it, or else what it declares and then what its
base classes do, as far as they are known. -/
def layers (k : Knowledge) (name : Text) (bases : List Text) : List OwnAccessors :=
  match k.info? name with
  | some info => [.ofInfo name info]
  | none => (name :: bases).filterMap k.declared?

theorem ownedBy_of_declared? {own : OwnAccessors} (known : k.declared? name = some own) :
    own.OwnedBy name := by
  obtain ⟨⟨_, origin⟩, declared, rfl⟩ := Option.map_eq_some_iff.mp known
  unfold own? at declared
  split at declared
  · cases declared
    exact OwnAccessors.ownedBy_ofDeclarations _ _ _
  · obtain ⟨c, -, same⟩ := Option.map_eq_some_iff.mp declared
    cases same
    exact OwnAccessors.ownedBy_ofDeclarations _ _ _

/-- Every layer is that of the class or of one of its base classes. -/
theorem ownedBy_of_mem_layers {bases : List Text} {own : OwnAccessors}
    (mem : own ∈ k.layers name bases) : ∃ owner ∈ name :: bases, own.OwnedBy owner := by
  unfold layers at mem
  split at mem
  · rw [List.mem_singleton] at mem
    subst mem
    exact ⟨name, List.mem_cons_self, OwnAccessors.ownedBy_ofDeclarations _ _ _⟩
  · obtain ⟨owner, listed, known⟩ := List.mem_filterMap.mp mem
    exact ⟨owner, listed, ownedBy_of_declared? known⟩

/-- The accessors of a known class are those of its layers. -/
theorem collected_eq_layers (known : (k.info? name).isSome ∨ k.classes.contains name) :
    k.collected name = some ⟨flattenLayers (k.layers name (k.chainOf name).bases),
      (k.chainOf name).bases⟩ := by
  rw [k.collected_eq]
  unfold layered layers own?
  cases info : k.info? name with
  | some info => rfl
  | none =>
    rw [info] at known
    obtain ⟨c, found⟩ := Option.isSome_iff_exists.mp (known.resolve_left Bool.false_ne_true)
    have own : k.declared? name = some (.ofOutline name c) := by
      unfold declared? own?
      rw [info]
      dsimp only
      rw [found]
      rfl
    dsimp only
    rw [found, List.filterMap_cons, own]
    rfl

theorem exists_record (known : (k.info? name).isSome ∨ k.classes.contains name) :
    ∃ record, k.record? name = some record := by
  unfold record?
  cases found : k.classes.get? name with
  | some c => exact ⟨_, rfl⟩
  | none =>
    have missing : ¬ k.classes.contains name := by simp [Table.contains, found]
    obtain ⟨info, asked⟩ := Option.isSome_iff_exists.mp (known.resolve_right missing)
    rw [asked]
    exact ⟨_, rfl⟩

/-- The methods that a class lists of itself and its base classes, with their keys: the first of
each key, as far as their types lead somewhere in the classes that declare them. -/
def nearestMethods (k : Knowledge) (name : Text) (bases : List Text) :
    List (Text × MethodAccessor) :=
  (firstOfKeys Prod.fst ((k.layers name bases).flatMap OwnAccessors.methods)).filter fun m =>
    k.lists m.2.returnType m.2.owner

/-- The data members, by their names. -/
def nearestMembers (k : Knowledge) (name : Text) (bases : List Text) : List MemberAccessor :=
  (firstOfKeys MemberAccessor.name ((k.layers name bases).flatMap OwnAccessors.members)).filter
    fun m => k.lists m.type m.owner

variable {bases : List Text}

theorem nodup_nearestMethods : ((k.nearestMethods name bases).map Prod.fst).Nodup :=
  (nodup_firstOfKeys _).sublist (List.filter_sublist.map _)

theorem nodup_nearestMembers : ((k.nearestMembers name bases).map MemberAccessor.name).Nodup :=
  (nodup_firstOfKeys _).sublist (List.filter_sublist.map _)

theorem owner_nearestMethods {m : Text × MethodAccessor} (mem : m ∈ k.nearestMethods name bases) :
    m.2.owner ∈ name :: bases := by
  obtain ⟨own, layer, mem⟩ := exists_layer_of_mem_firstOfKeys (List.mem_of_mem_filter mem)
  obtain ⟨owner, listed, owned⟩ := ownedBy_of_mem_layers layer
  rwa [owned.methods m mem]

theorem owner_nearestMembers {m : MemberAccessor} (mem : m ∈ k.nearestMembers name bases) :
    m.owner ∈ name :: bases := by
  obtain ⟨own, layer, mem⟩ := exists_layer_of_mem_firstOfKeys (List.mem_of_mem_filter mem)
  obtain ⟨owner, listed, owned⟩ := ownedBy_of_mem_layers layer
  rwa [owned.members m mem]

theorem nodup_chained {roots : List (Text × MethodAccessor)}
    (distinct : (roots.map Prod.fst).Nodup) :
    (roots.map Prod.fst ++ (k.chained name roots).map chainKey).Nodup := by
  unfold chained
  split
  · exact nodup_newChains distinct _
  · rwa [List.map_nil, List.append_nil]

/-- What the entry of a class lists if of several declarations the nearest one counts. -/
structure ListsNearest (k : Knowledge) (name : Text) (bases : List Text) (e : CatalogEntry) :
    Prop where
  inherited : e.inherited = bases
  methods : e.methods = (k.nearestMethods name bases).map Prod.snd ++
    k.chained name (k.nearestMethods name bases)
  members : e.members = k.nearestMembers name bases
  /-- No two methods have one key, whether they are chained or not. -/
  distinct_keys : ((k.nearestMethods name bases).map Prod.fst ++
    (k.chained name (k.nearestMethods name bases)).map chainKey).Nodup
  distinct_names : (e.members.map MemberAccessor.name).Nodup
  method_owners : ∀ m ∈ e.methods, m.owner ∈ name :: bases
  member_owners : ∀ m ∈ e.members, m.owner ∈ name :: bases
  simple_chains : ∀ m ∈ k.chained name (k.nearestMethods name bases),
    ReturnType.classify m.returnType = .simple

theorem listsNearest (k : Knowledge) (name : Text) (bases : List Text) (record : ClassRecord) :
    k.ListsNearest name bases ⟨record, (k.nearestMethods name bases).map Prod.snd ++
      k.chained name (k.nearestMethods name bases), k.nearestMembers name bases, bases⟩ where
  inherited := rfl
  methods := rfl
  members := rfl
  distinct_keys := nodup_chained nodup_nearestMethods
  distinct_names := nodup_nearestMembers
  method_owners m mem := by
    rcases List.mem_append.mp mem with mem | mem
    · obtain ⟨root, listed, rfl⟩ := List.mem_map.mp mem
      exact owner_nearestMethods listed
    · obtain ⟨_, mem, starts⟩ := startsFrom_of_mem_chained mem
      obtain ⟨root, listed, rfl⟩ := List.mem_map.mp mem
      rw [starts.owner]
      exact owner_nearestMethods listed
  member_owners m mem := owner_nearestMembers mem
  simple_chains m mem := by
    obtain ⟨_, -, starts⟩ := startsFrom_of_mem_chained mem
    exact starts.simple

theorem exists_entry_listsNearest (known : (k.info? name).isSome ∨ k.classes.contains name) :
    ∃ e, k.entryOf name = some e ∧ k.ListsNearest name (k.chainOf name).bases e := by
  obtain ⟨record, recorded⟩ := exists_record known
  refine ⟨_, ?_, k.listsNearest name _ record⟩
  rw [entryOf, recorded, collected_eq_layers known, flattenLayers_eq]
  rfl

end Knowledge

/-! ## 4. The entry of a class -/

/-- **The nearest declaration counts, and nothing else is lost.**  The entry of a known class lists
the methods and the data members of its layers, the first of each key, as far as their types lead
somewhere; behind the methods come the chained ones.  No two of them have one key, all owners are
the class or one that it inherits, and the chained methods have simple types. -/
theorem entry_nearest {s : Survey} (reached : s.Reached) {name : Text}
    (known : (s.knowledge.info? name).isSome ∨ s.knowledge.classes.contains name) :
    ∃ e, (s.run (entry · name)).1 = some e ∧
      s.knowledge.ListsNearest name (s.run (baseChain · name)).1.bases e := by
  rw [reached.run_eq (answers_entry name), reached.run_eq (answers_baseChain name)]
  exact Knowledge.exists_entry_listsNearest known

/-- A class and one derived from it that declares a method and a data member again. -/
def redeclaring : List Outline.ClassOutline :=
  [⟨⟨"Hit".toList, [], [], "t.h".toList⟩, false, ["int id()".toList, "float charge()".toList],
      ["int layer".toList]⟩,
    ⟨⟨"Track".toList, ["Hit".toList], [], "t.h".toList⟩, false,
      ["int id()".toList, "Hit first()".toList], ["double layer".toList]⟩]

/-- A survey of these classes. -/
def redeclared : Survey :=
  (start {} .ignorant).merge [⟨"t.h".toList, .ok redeclaring⟩]

theorem knowledge_redeclared : redeclared.knowledge =
    (redeclaring.foldl Knowledge.mergeClass (Knowledge.start {} .ignorant)).redrawn := by
  show Knowledge.redrawn (List.foldl Knowledge.mergeHeader _ (sortByPath _ [_])) = _
  rw [sortByPath, List.mergeSort_singleton]
  rfl

theorem entry_nearest_redeclared :
    redeclared.Reached ∧ redeclared.knowledge.classes.contains "Track".toList ∧
      ∃ e, (redeclared.run (entry · "Track".toList)).1 = some e ∧
        redeclared.knowledge.ListsNearest "Track".toList
          (redeclared.run (baseChain · "Track".toList)).1.bases e := by
  have reached : redeclared.Reached := .merge (.start {} .ignorant .empty false .empty) _
  have read : redeclared.knowledge.classes.contains "Track".toList := by
    rw [knowledge_redeclared]
    decide +kernel
  exact ⟨reached, read, entry_nearest reached (.inr read)⟩

/-- The derived class lists its own `id`, the `charge` that it inherits, and its own `layer`. -/
example : ((redeclaring.foldl Knowledge.mergeClass (.start {} .ignorant)).redrawn.entryOf
    "Track".toList).map (fun e =>
      (e.methods.map fun m => (m.owner, m.signature), e.members.map MemberAccessor.type)) =
    some ([("Track".toList, "id()".toList), ("Track".toList, "first()".toList),
      ("Hit".toList, "charge()".toList), ("Track".toList, "first().id()".toList),
      ("Track".toList, "first().charge()".toList), ("Track".toList, "first().layer".toList)],
      ["double".toList]) := by
  decide +kernel

end Survey
end AccessorCatalog

/-
# Links of a class that only a listing knows

A survey can know a class from the catalog of an earlier run alone.  Its links are then what the
lines of that catalog give (`links_listing`): a line of a data member gives the data member back,
and a line of a method gives what its text declares, read as a declaration, if it is worth listing.

A line that is spelled as a declaration in canonical form (`SpelledBy`) gives the listed method back
(`rereadMethod?_of_spelledBy`), so a catalog of such lines and of data members gives nothing that it
does not list.

The lines of methods hold chained accessors too, and a chain is no declaration.  What is read of a
line always ends with the parenthesis of its arguments (`getLast?_of_rereadMethod?`), so a chain
that ends in a data member never comes back as itself.  It can come back as an accessor that the
catalog does not list (`links_listing_invents`): the class that a chain starts from is then given a
method of the type in which the chain ends.
-/
import AccessorCatalog.Proofs.Chaining
import AccessorCatalog.Proofs.CatalogRoundTrip
import AccessorCatalog.Proofs.PlainLines
import AccessorCatalog.Proofs.Spelling

namespace AccessorCatalog

open Declaration

namespace Survey

/-! ## 1. What is read of a listing -/

/-- The method that the line of a listed method declares, if it is worth listing. -/
def rereadMethod? (className : Text) (m : MethodAccessor) : Option MethodAccessor :=
  (decodeMethod (m.returnType ++ ' ' :: m.signature)).toOption.bind fun s =>
    Selection.method? s className

theorem getLast?_of_rereadMethod? {className : Text} {m link : MethodAccessor}
    (read : rereadMethod? className m = some link) : link.signature.getLast? = some ')' := by
  obtain ⟨s, -, selected⟩ := Option.bind_eq_some_iff.mp read
  exact getLast?_signature selected

/-- A listed method is spelled by a signature in canonical form: it is the accessor of that
signature, and has its type and its text, with every argument under the name by which it is
called. -/
structure SpelledBy (m : MethodAccessor) (s : Signature) : Prop where
  form : s.InCanonicalForm
  selected : Selection.method? s m.owner = some m
  returnType : m.returnType = s.returnType
  signature : m.signature =
    Signature.applied s.name ((Selection.namedArguments s.args).map Selection.declareArgument)

/-- **A method that is spelled as a declaration comes back**, now of the class whose catalog is
read, unless it would be a constructor or destructor of that. -/
theorem rereadMethod?_of_spelledBy {m : MethodAccessor} {s : Signature} (spelled : SpelledBy m s)
    (className : Text) :
    rereadMethod? className m =
      if s.kind className = .plain then some { m with owner := className } else none := by
  have read : decodeMethod (m.returnType ++ ' ' :: m.signature) = .ok (Selection.listed s) := by
    rw [spelled.returnType, spelled.signature]
    exact Selection.decodeMethod_listed spelled.form
      (Selection.returnType_ne_nil spelled.selected)
  rw [rereadMethod?, read]
  exact Selection.method?_listed spelled.selected className

theorem pair_of_spelledBy {className : Text} {m link : MethodAccessor} {s : Signature}
    (spelled : SpelledBy m s) (read : rereadMethod? className m = some link) :
    link.returnType = m.returnType ∧ link.signature = m.signature := by
  rw [rereadMethod?_of_spelledBy spelled] at read
  split at read
  · cases read
    exact ⟨rfl, rfl⟩
  · cases read

variable {k : Knowledge} {name : Text}

/-- A class that neither oracle nor headers know has no accessors of its own. -/
theorem collected_eq_none (no_info : k.info? name = none) (no_class : k.classes.get? name = none) :
    k.collected name = none := by
  rw [k.collected_eq, Knowledge.layered, Knowledge.own?, no_info, no_class]
  rfl

/-- If only a listing knows a class, its links are read of that, the methods before the data
members. -/
theorem linksOf_listing {e : CatalogEntry} {version created : Text}
    (printable : Catalog.Printable e version created) (no_info : k.info? name = none)
    (no_class : k.classes.get? name = none)
    (listed : k.listings.get? name = some (Listing.parse (Catalog.render e version created))) :
    k.linksOf name =
      e.groupedMethods.filterMap (rereadMethod? name) ++
        e.groupedMembers.map fun m => memberLink ⟨name, m.type, m.name⟩ := by
  rw [Knowledge.linksOf, collected_eq_none no_info no_class]
  dsimp only
  rw [listedLinks, listed, Catalog.parse_render printable]
  dsimp only
  rw [List.filterMap_append, List.filterMap_map, List.filterMap_map]
  congr 1
  rw [← List.filterMap_eq_map]
  rfl

/-! ## 2. The links of a class that only a listing knows -/

/-- **Links of a listing are what its lines declare.**  If neither oracle nor headers know a class,
its links are read of its listing line by line.  Every listed data member is among them under its
own name, and every other link is what the text of a listed method declares; so it ends with the
parenthesis of its arguments, whatever the listed signature ends with.

A method that is spelled as a declaration in canonical form comes back as itself, unless the class
has its name.  If all listed methods are, then every link is a listed pair of type and signature. -/
theorem links_listing {s : Survey} (reached : s.Reached) {e : CatalogEntry} {version created : Text}
    (printable : Catalog.Printable e version created)
    (no_info : s.knowledge.info? e.record.name = none)
    (no_class : s.knowledge.classes.get? e.record.name = none)
    (listed : s.knowledge.listings.get? e.record.name =
      some (Listing.parse (Catalog.render e version created))) :
    (s.run (links · e.record.name)).1 =
        e.groupedMethods.filterMap (rereadMethod? e.record.name) ++
          e.groupedMembers.map (fun m => memberLink ⟨e.record.name, m.type, m.name⟩) ∧
      (∀ m ∈ e.members, memberLink ⟨e.record.name, m.type, m.name⟩ ∈
        (s.run (links · e.record.name)).1) ∧
      (∀ link ∈ (s.run (links · e.record.name)).1,
        (∃ m ∈ e.members, link = memberLink ⟨e.record.name, m.type, m.name⟩) ∨
          ∃ m ∈ e.methods, rereadMethod? e.record.name m = some link ∧
            link.signature.getLast? = some ')') ∧
      (∀ m ∈ e.methods, ∀ sig, SpelledBy m sig → rereadMethod? e.record.name m =
        if sig.kind e.record.name = .plain then some { m with owner := e.record.name } else none) ∧
      ((∀ m ∈ e.methods, ∃ sig, SpelledBy m sig) → ∀ link ∈ (s.run (links · e.record.name)).1,
        (∃ m ∈ e.methods, link.returnType = m.returnType ∧ link.signature = m.signature) ∨
          ∃ m ∈ e.members, link.returnType = m.type ∧ link.signature = m.name) := by
  have all : (s.run (links · e.record.name)).1 =
      e.groupedMethods.filterMap (rereadMethod? e.record.name) ++
        e.groupedMembers.map fun m => memberLink ⟨e.record.name, m.type, m.name⟩ := by
    rw [reached.run_eq (answers_links e.record.name)]
    exact linksOf_listing printable no_info no_class listed
  have origin : ∀ link ∈ (s.run (links · e.record.name)).1,
      (∃ m ∈ e.members, link = memberLink ⟨e.record.name, m.type, m.name⟩) ∨
        ∃ m ∈ e.methods, rereadMethod? e.record.name m = some link ∧
          link.signature.getLast? = some ')' := by
    intro link mem
    rw [all] at mem
    rcases List.mem_append.mp mem with mem | mem
    · obtain ⟨m, grouped, read⟩ := List.mem_filterMap.mp mem
      exact .inr ⟨m, e.groupedMethods_perm.mem_iff.mp grouped, read, getLast?_of_rereadMethod? read⟩
    · obtain ⟨m, grouped, rfl⟩ := List.mem_map.mp mem
      exact .inl ⟨m, e.groupedMembers_perm.mem_iff.mp grouped, rfl⟩
  refine ⟨all, fun m mem => ?_, origin, fun m _ sig spelled => rereadMethod?_of_spelledBy spelled _,
    fun plain link mem => ?_⟩
  · rw [all]
    refine List.mem_append_right _ (List.mem_map.mpr ⟨m, ?_, rfl⟩)
    exact e.groupedMembers_perm.mem_iff.mpr mem
  · rcases origin link mem with ⟨m, here, rfl⟩ | ⟨m, here, read, -⟩
    · exact .inr ⟨m, here, rfl, rfl⟩
    · obtain ⟨sig, spelled⟩ := plain m here
      exact .inl ⟨m, here, pair_of_spelledBy spelled read⟩

/-- A survey that knows the class of an entry by its catalog alone. -/
def listedOnly (e : CatalogEntry) : Survey :=
  ⟨(Knowledge.start {} .ignorant).withListings (Table.insert .empty e.record.name
    (Listing.parse (Catalog.render e "v1".toList "now".toList))), .start⟩

theorem listings_listedOnly (e : CatalogEntry) :
    (listedOnly e).knowledge.listings.get? e.record.name =
      some (Listing.parse (Catalog.render e "v1".toList "now".toList)) := by
  show (Table.insert .empty _ _).get? _ = _
  rw [Table.get?_insert, if_pos rfl]

theorem reached_listedOnly (e : CatalogEntry) : (listedOnly e).Reached :=
  .start {} .ignorant .empty false _

/-- A method with an unnamed argument, which has a default value. -/
def cutSignature : Signature where
  returnType := "const float&".toList
  name := "cut".toList
  args := [⟨"int".toList, "bins".toList, none⟩, ⟨"double".toList, [], some "0.5".toList⟩]
  qualifier := "const".toList

theorem inCanonicalForm_cutSignature : cutSignature.InCanonicalForm where
  returnType := by
    have float : IsType ("const ".toList ++ "float".toList ++ ['&']) :=
      .plain (by decide) (.inl (by decide +kernel)) (.inr rfl)
    exact .inr float
  name := ⟨by decide, by decide, by decide⟩
  no_keyword := by decide +kernel
  no_operator := by decide
  args := by
    have int : IsType ([] ++ "int".toList ++ []) :=
      .plain (by decide) (.inl (by decide +kernel)) (.inl (by simp))
    have double : IsType ([] ++ "double".toList ++ []) :=
      .plain (by decide) (.inl (by decide +kernel)) (.inl (by simp))
    have named : Argument.InCanonicalForm ⟨"int".toList, "bins".toList, none⟩ :=
      ⟨.inr ⟨⟨_, [], int, .inl rfl, rfl⟩, ⟨by decide, by decide, by decide⟩, by decide,
        by decide +kernel⟩, by decide, nofun⟩
    have unnamed : Argument.InCanonicalForm ⟨"double".toList, [], some "0.5".toList⟩ := by
      refine ⟨.inl ⟨rfl, double⟩, by decide, ?_⟩
      rintro _ ⟨⟩
      exact ⟨[], "0.5".toList, by decide, by decide, rfl⟩
    exact List.forall_mem_cons.mpr ⟨named, List.forall_mem_cons.mpr ⟨unnamed, nofun⟩⟩
  qualifier := by decide

/-- Its accessor, declared in a base class. -/
def cutMethod : MethodAccessor :=
  ⟨"Cuts".toList, "const float&".toList, "cut".toList, "cut(int bins, double x1=0.5)".toList,
    "cut(bins, x1)".toList, 1, 1⟩

theorem spelledBy_cutMethod : SpelledBy cutMethod cutSignature where
  form := inCanonicalForm_cutSignature
  selected := by decide +kernel
  returnType := rfl
  signature := by decide

/-- A class that inherits that accessor, and has a data member. -/
def cutEntry : CatalogEntry :=
  ⟨⟨"Track".toList, ["Cuts".toList], [], "t.h".toList⟩, [cutMethod],
    [⟨"Track".toList, "int".toList, "charge".toList⟩], ["Cuts".toList]⟩

theorem printable_cutEntry : Catalog.Printable cutEntry "v1".toList "now".toList := by
  decide +kernel

theorem links_listing_relisted :
    SpelledBy cutMethod cutSignature ∧
      ((listedOnly cutEntry).run (links · "Track".toList)).1 =
        [{ cutMethod with owner := "Track".toList },
          memberLink ⟨"Track".toList, "int".toList, "charge".toList⟩] ∧
      ∀ link ∈ ((listedOnly cutEntry).run (links · "Track".toList)).1,
        (∃ m ∈ cutEntry.methods,
            link.returnType = m.returnType ∧ link.signature = m.signature) ∨
          ∃ m ∈ cutEntry.members, link.returnType = m.type ∧ link.signature = m.name := by
  obtain ⟨all, -, -, reread, listed⟩ := links_listing (reached_listedOnly cutEntry)
    printable_cutEntry rfl rfl (listings_listedOnly cutEntry)
  have spelled : ∀ m ∈ cutEntry.methods, ∃ sig, SpelledBy m sig :=
    List.forall_mem_singleton.mpr ⟨cutSignature, spelledBy_cutMethod⟩
  have back := reread cutMethod List.mem_cons_self cutSignature spelledBy_cutMethod
  have methods : cutEntry.groupedMethods = [cutMethod] := by decide
  have members : cutEntry.groupedMembers = cutEntry.members := by decide
  refine ⟨spelledBy_cutMethod, ?_, listed spelled⟩
  show ((listedOnly cutEntry).run (links · cutEntry.record.name)).1 = _
  rw [all, methods, members, List.filterMap_cons, back]
  rfl

/-- A survey that knows the derived class of the text with two meanings by its catalog alone. -/
def relisted : Survey :=
  listedOnly twinsEntry

theorem reached_relisted : relisted.Reached :=
  reached_listedOnly twinsEntry

theorem printable_twinsEntry : Catalog.Printable twinsEntry "v1".toList "now".toList := by
  decide +kernel

/-- **A link can be no listed accessor.**  The entry lists a method of type `V` and a chain of type
`int` that starts with it.  Of its catalog that chain is read as a method of type `int`. -/
theorem links_listing_invents :
    (twins.run (entry · "b::C".toList)).1 = some twinsEntry ∧
      ∃ link ∈ (relisted.run (links · "b::C".toList)).1,
        link.returnType = "int".toList ∧ link.signature = "v()".toList ∧
          (∀ m ∈ twinsEntry.methods,
            ¬ (m.returnType = link.returnType ∧ m.signature = link.signature)) ∧
          ∀ m ∈ twinsEntry.members, ¬ (m.type = link.returnType ∧ m.name = link.signature) := by
  refine ⟨entry_twins,
    ⟨"b::C".toList, "int".toList, "v".toList, "v()".toList, "v()".toList, 0, 0⟩, ?_, rfl, rfl,
    ?_, ?_⟩
  · have listed : relisted.knowledge.listings.get? "b::C".toList =
        some (Listing.parse (Catalog.render twinsEntry "v1".toList "now".toList)) :=
      listings_listedOnly twinsEntry
    rw [reached_relisted.run_eq (answers_links _),
      linksOf_listing printable_twinsEntry rfl rfl listed]
    decide +kernel
  · decide
  · decide

end Survey
end AccessorCatalog

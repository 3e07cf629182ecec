/-
# Which catalogs lie on the shelf

Every cataloged class gives a catalog, and the catalogs of a survey are written one after the other.
Since file names forget namespaces and template arguments, two catalogs can have one name, and then
the later one takes the place of the earlier.

`shelf_complete_iff` says what is read from the shelf of a survey: a class has its listing there if
and only if no class behind it has a catalog of the same name.  So all classes are found again
exactly if all names differ, and they need not (`shelf_twins`).  Within one header, the names of two
catalogs differ exactly if their classes have different last components, template arguments aside
(`ofClass_eq_iff`).
-/
import AccessorCatalog.Catalog.Shelf
import AccessorCatalog.Proofs.CatalogRoundTrip
import AccessorCatalog.Proofs.Chaining
import AccessorCatalog.Proofs.Encoding

namespace AccessorCatalog

/-! ## 1. Reading a shelf -/

namespace Shelf

theorem get?_addListing (listings : Table Listing) (fileName : Text) (bytes : List UInt8)
    (className : Text) :
    (addListing listings fileName bytes).get? className =
      (listings.get? className).or
        ((listing? fileName bytes).filter fun listing => listing.className == className) := by
  unfold addListing
  cases listing? fileName bytes with
  | none => rw [Option.filter_none, Option.or_none]
  | some listing =>
    rw [Option.filter_some]
    dsimp only
    rw [Table.get?_insertNew]
    by_cases same : className = listing.className
    · rw [if_pos same, if_pos (beq_iff_eq.mpr same.symm), same]
      cases listings.get? listing.className <;> rfl
    · rw [if_neg same, if_neg (by simpa using Ne.symm same), Option.or_none]

theorem get?_foldl_addListing (entries : List (Text × List UInt8)) (listings : Table Listing)
    (className : Text) :
    (entries.foldl (fun listings (fileName, bytes) => addListing listings fileName bytes)
        listings).get? className =
      (listings.get? className).or (entries.findSome? fun file =>
        (listing? file.1 file.2).filter fun listing => listing.className == className) := by
  induction entries generalizing listings with
  | nil => rw [List.findSome?_nil, Option.or_none, List.foldl_nil]
  | cons entry entries ih =>
    rw [List.foldl_cons, ih, get?_addListing, Option.or_assoc, List.findSome?_cons]
    cases (listing? entry.1 entry.2).filter _ <;> rfl

/-- What a shelf says of a class stands in one of its files. -/
theorem exists_of_get?_listings {files : List (Text × List UInt8)} {className : Text}
    {listing : Listing} (found : (listings files).get? className = some listing) :
    ∃ fileName bytes, (Table.ofList files).get? fileName = some bytes ∧
      listing? fileName bytes = some listing ∧ listing.className = className := by
  unfold listings at found
  rw [get?_foldl_addListing, Table.get?_empty, Option.none_or] at found
  obtain ⟨⟨fileName, bytes⟩, mem, read⟩ := List.exists_of_findSome?_eq_some found
  obtain ⟨read, same⟩ := Option.filter_eq_some_iff.mp read
  exact ⟨fileName, bytes, Table.get?_eq_some_iff.mpr mem, read, beq_iff_eq.mp same⟩

/-- A class with a catalog among the files of a shelf is found there. -/
theorem isSome_get?_listings {files : List (Text × List UInt8)} {fileName : Text}
    {bytes : List UInt8} {listing : Listing}
    (file : (Table.ofList files).get? fileName = some bytes)
    (read : listing? fileName bytes = some listing) :
    ((listings files).get? listing.className).isSome := by
  unfold listings
  rw [get?_foldl_addListing, Table.get?_empty, Option.none_or, List.findSome?_isSome_iff]
  refine ⟨(fileName, bytes), Table.get?_eq_some_iff.mp file, ?_⟩
  rw [read, Option.filter_some, if_pos (beq_self_eq_true _)]
  rfl

end Shelf

/-! ## 2. Names of catalogs -/

namespace FileName

/-- Within one header, catalogs have one name exactly if their classes have the same last component,
template arguments aside, as far as a file name can hold it. -/
theorem ofClass_eq_iff {header className className' : Text} :
    ofClass header className = ofClass header className' ↔
      (ClassName.short (ClassName.withoutArguments className)).map
          (fun c => if isSafe c then c else '_') =
        (ClassName.short (ClassName.withoutArguments className')).map
          fun c => if isSafe c then c else '_' := by
  unfold ofClass
  simp

theorem extension?_ofClass (header className : Text) :
    Files.Path.extension? (ofClass header className) = some Shelf.fileExtension := by
  have cut (base : Text) :
      Text.cutLast? ['.'] (base ++ ".txt".toList) = some (base, "txt".toList) := by
    simp [Text.cutLast?, Text.cutFirst?, Text.afterPrefix?]
  unfold Files.Path.extension? ofClass
  dsimp only
  rw [cut]
  simp [Shelf.fileExtension]

end FileName

namespace Survey

open Catalog (Printable parse_render)

/-! ## 3. Entries under different names -/

namespace Knowledge

variable {k : Knowledge}

theorem Keyed.name_of_record? (keyed : k.Keyed) {name : Text} {record : ClassRecord}
    (known : k.record? name = some record) : record.name = name := by
  unfold record? at known
  split at known
  · next c found =>
    cases known
    exact keyed _ _ found
  · obtain ⟨info, -, rfl⟩ := Option.map_eq_some_iff.mp known
    rfl

theorem Keyed.name_of_entryOf (keyed : k.Keyed) {name : Text} {e : CatalogEntry}
    (built : k.entryOf name = some e) : e.record.name = name := by
  obtain ⟨record, known, rfl⟩ := Option.map_eq_some_iff.mp built
  have same := keyed.name_of_record? known
  cases k.collected name <;> exact same

theorem Keyed.nodup_catalogedNames (keyed : k.Keyed) : (catalogedNames k).Nodup := by
  refine keyed.sorted_catalogedNames.imp fun {name name'} before same => ?_
  rw [same] at before
  exact List.lt_irrefl _ before

/-- The entries of the cataloged classes have different names. -/
theorem Keyed.nodup_entries (keyed : k.Keyed) :
    (((catalogedNames k).filterMap k.entryOf).map fun e => e.record.name).Nodup := by
  refine List.pairwise_map.mpr (List.pairwise_filterMap.mpr ?_)
  refine keyed.nodup_catalogedNames.imp fun {name name'} ne e built e' built' same => ne ?_
  rw [← keyed.name_of_entryOf built, ← keyed.name_of_entryOf built', same]

end Knowledge

/-! ## 4. The shelf of a survey -/

/-- What is read from a shelf when files have been written to it one after the other.  A file takes
the place of an earlier one of its name. -/
def shelfOf (files : List CatalogFile) : Table Listing :=
  Shelf.listings (files.map fun f => (f.name, Text.encode f.text))

variable {k : Knowledge} {created : Text}

/-- The last of some entries whose catalog has a name. -/
def lastNamed (k : Knowledge) (created : Text) (es : List CatalogEntry) (fileName : Text) :
    Option CatalogEntry :=
  es.reverse.find? fun e => (catalogFile k created e).name == fileName

variable {es : List CatalogEntry} {e : CatalogEntry}

theorem mem_of_lastNamed {fileName : Text} (last : lastNamed k created es fileName = some e) :
    e ∈ es ∧ (catalogFile k created e).name = fileName :=
  ⟨List.mem_reverse.mp (List.mem_of_find?_eq_some last),
    beq_iff_eq.mp (List.find?_some last :)⟩

/-- An entry is the last of its name if no entry behind it has that name. -/
theorem lastNamed_eq_some_iff {before after : List CatalogEntry} (fresh : e ∉ after) :
    lastNamed k created (before ++ e :: after) (catalogFile k created e).name = some e ↔
      ∀ later ∈ after, (catalogFile k created later).name ≠ (catalogFile k created e).name := by
  have behind_first : lastNamed k created (before ++ e :: after) (catalogFile k created e).name =
      (lastNamed k created after (catalogFile k created e).name).or (some e) := by
    unfold lastNamed
    rw [List.reverse_append, List.reverse_cons, List.append_assoc, List.find?_append,
      List.singleton_append, List.find?_cons, beq_self_eq_true]
  rw [behind_first, Option.or_eq_some_iff]
  constructor
  · rintro (last | ⟨none_behind, -⟩) later mem same
    · exact fresh (mem_of_lastNamed last).1
    · exact List.find?_eq_none.mp none_behind later (List.mem_reverse.mpr mem) (beq_iff_eq.mpr same)
  · intro others
    refine .inr ⟨List.find?_eq_none.mpr fun later mem same => ?_, rfl⟩
    exact others later (List.mem_reverse.mp mem) (beq_iff_eq.mp same)

/-- The file that stays under a name is that of the last entry with this name. -/
theorem get?_ofList_catalogFiles (k : Knowledge) (created : Text) (es : List CatalogEntry)
    (fileName : Text) :
    (Table.ofList ((es.map (catalogFile k created)).map fun f => (f.name, Text.encode f.text))).get?
        fileName =
      (lastNamed k created es fileName).map fun e =>
        Text.encode (catalogFile k created e).text := by
  unfold lastNamed
  rw [Table.get?_ofList, ← List.map_reverse, ← List.map_reverse, List.map_map]
  induction es.reverse with
  | nil => rfl
  | cons e es ih =>
    rw [List.map_cons, Table.lookup_entry_cons, ih, List.find?_cons]
    dsimp only [Function.comp_apply]
    by_cases same : (catalogFile k created e).name = fileName
    · rw [beq_iff_eq.mpr same, if_pos same.symm]
      rfl
    · rw [beq_eq_false_iff_ne.mpr same, if_neg (Ne.symm same)]

theorem listing?_catalogFile (printable : Printable e k.settings.version created) :
    Shelf.listing? (catalogFile k created e).name (Text.encode (catalogFile k created e).text) =
      some (Listing.parse (catalogFile k created e).text) := by
  unfold Shelf.listing? catalogFile
  rw [Text.decode?_encode, FileName.extension?_ofClass]
  dsimp only [Option.map_some, Option.bind_eq_bind, Option.bind_some]
  rw [parse_render printable, if_pos ⟨rfl, printable.name.filled⟩]

/-- A class has its listing on the shelf if it is the last whose catalog has that name, and
otherwise it has none. -/
theorem get?_shelf (distinct : (es.map fun e => e.record.name).Nodup)
    (printable : ∀ e ∈ es, Printable e k.settings.version created) (mem : e ∈ es) :
    (shelfOf (es.map (catalogFile k created))).get? e.record.name =
      if lastNamed k created es (catalogFile k created e).name = some e then
        some (Listing.parse (catalogFile k created e).text)
      else none := by
  have className {e : CatalogEntry} (mem : e ∈ es) :
      (Listing.parse (catalogFile k created e).text).className = e.record.name := by
    rw [catalogFile, parse_render (printable e mem)]
  -- What is found under the name of the class can only be its own catalog, under its own file name.
  have own {l : Listing}
      (found : (shelfOf (es.map (catalogFile k created))).get? e.record.name = some l) :
      lastNamed k created es (catalogFile k created e).name = some e ∧
        l = Listing.parse (catalogFile k created e).text := by
    obtain ⟨fileName, bytes, file, read, same⟩ := Shelf.exists_of_get?_listings found
    rw [get?_ofList_catalogFiles] at file
    obtain ⟨e', last, rfl⟩ := Option.map_eq_some_iff.mp file
    obtain ⟨mem', rfl⟩ := mem_of_lastNamed last
    rw [listing?_catalogFile (printable e' mem'), Option.some.injEq] at read
    rw [← read, className mem'] at same
    obtain rfl : e' = e := List.inj_on_of_nodup_map distinct mem' mem same
    exact ⟨last, read.symm⟩
  split_ifs with last
  · have file := get?_ofList_catalogFiles k created es (catalogFile k created e).name
    rw [last, Option.map_some] at file
    have isSome := Shelf.isSome_get?_listings file (listing?_catalogFile (printable e mem))
    rw [className mem] at isSome
    obtain ⟨l, found⟩ := Option.isSome_iff_exists.mp isSome
    exact found.trans (congrArg some (own found).2)
  · exact Option.eq_none_iff_forall_ne_some.mpr fun l found => last (own found).1

/-- The names of all catalogs differ exactly if every entry is the last with its name. -/
theorem nodup_names_iff (distinct : es.Nodup) :
    ((es.map (catalogFile k created)).map CatalogFile.name).Nodup ↔
      ∀ e ∈ es, lastNamed k created es (catalogFile k created e).name = some e := by
  rw [List.map_map]
  constructor
  · intro names e mem
    have found : (lastNamed k created es (catalogFile k created e).name).isSome :=
      List.find?_isSome.mpr ⟨e, List.mem_reverse.mpr mem, beq_self_eq_true _⟩
    obtain ⟨last, found⟩ := Option.isSome_iff_exists.mp found
    obtain ⟨mem', same⟩ := mem_of_lastNamed found
    rw [found, List.inj_on_of_nodup_map names mem' mem same]
  · intro last
    refine distinct.map_on fun e mem e' mem' same => Option.some.inj ?_
    rw [← last e mem, ← last e' mem']
    exact congrArg (lastNamed k created es) same

/-! ## 5. Two classes with one file name -/

/-- The entries of all classes of the text in which a name has two meanings. -/
def twinsEntries : List CatalogEntry :=
  [⟨⟨"a::B".toList, [], [], "a.h".toList⟩,
      [twinsRoot,
        ⟨"a::B".toList, "int".toList, "v().x()".toList, "v().x()".toList, "v().x()".toList, 0, 0⟩],
      [], []⟩,
    ⟨⟨"a::V".toList, [], [], "a.h".toList⟩,
      [⟨"a::V".toList, "int".toList, "x".toList, "x()".toList, "x()".toList, 0, 0⟩], [], []⟩,
    twinsEntry,
    ⟨⟨"b::V".toList, [], [], "a.h".toList⟩, [], [⟨"b::V".toList, "int".toList, "y".toList⟩], []⟩]

theorem entries_twins : (twins.run entries).1 = twinsEntries := by
  rw [reached_twins.run_eq answers_entries, knowledge_twins]
  decide +kernel

theorem printable_twins : ∀ e ∈ twinsEntries, Printable e twins.knowledge.settings.version [] := by
  have version : twins.knowledge.settings.version = Settings.version {} := by
    rw [knowledge_twins]
    rfl
  rw [version]
  decide +kernel

/-! ## 6. Who is on the shelf -/

/-- **A class is on the shelf unless a later one has its file name.**  Each entry of a survey has
its own listing there if no class behind it has a catalog of the same name, and none at all
otherwise.  So the names of all catalogs differ exactly if every cataloged class is on the shelf. -/
theorem shelf_complete_iff {s : Survey} (reached : s.Reached) {created : Text}
    (printable : ∀ e ∈ (s.run entries).1, Printable e s.knowledge.settings.version created) :
    (∀ before e after, (s.run entries).1 = before ++ e :: after →
      (shelfOf (s.run (catalogFiles created)).1).get? e.record.name =
        if ∃ later ∈ after, FileName.ofClass later.record.header later.record.name =
          FileName.ofClass e.record.header e.record.name then none
        else some ⟨e.record.name, e.record.header, e.inherited,
          e.groupedMethods.map .ofMethod ++ e.groupedMembers.map .ofMember⟩) ∧
      (((s.run (catalogFiles created)).1.map CatalogFile.name).Nodup ↔
        ∀ e ∈ (s.run entries).1,
          ((shelfOf (s.run (catalogFiles created)).1).get? e.record.name).isSome) := by
  rw [reached.run_eq answers_entries] at *
  rw [reached.run_eq (answers_catalogFiles created)]
  have distinct := reached.inOrder.keyed.nodup_entries
  constructor
  · intro before e after here
    have mem : e ∈ (catalogedNames s.knowledge).filterMap s.knowledge.entryOf := by
      rw [here]
      exact List.mem_append_right before List.mem_cons_self
    have fresh : e ∉ after := by
      rw [here] at distinct
      exact (List.nodup_cons.mp (List.nodup_append.mp distinct.of_map).2.1).1
    have last :
        lastNamed s.knowledge created _ (catalogFile s.knowledge created e).name = some e ↔ _ :=
      here ▸ lastNamed_eq_some_iff fresh
    rw [get?_shelf distinct printable mem,
      show (catalogFile s.knowledge created e).text =
        Catalog.render e s.knowledge.settings.version created from rfl,
      parse_render (printable e mem)]
    split_ifs with stays replaced replaced
    · obtain ⟨later, behind, same⟩ := replaced
      exact absurd same (last.mp stays later behind)
    · rfl
    · rfl
    · exact absurd (last.mpr fun later behind same => replaced ⟨later, behind, same⟩) stays
  · rw [nodup_names_iff distinct.of_map]
    refine forall₂_congr fun e mem => ?_
    rw [get?_shelf distinct printable mem]
    split_ifs with last <;> simp [last]

theorem shelf_complete_iff_twins :
    (∀ before e after, (twins.run entries).1 = before ++ e :: after →
      (shelfOf (twins.run (catalogFiles [])).1).get? e.record.name =
        if ∃ later ∈ after, FileName.ofClass later.record.header later.record.name =
          FileName.ofClass e.record.header e.record.name then none
        else some ⟨e.record.name, e.record.header, e.inherited,
          e.groupedMethods.map .ofMethod ++ e.groupedMembers.map .ofMember⟩) ∧
      (((twins.run (catalogFiles [])).1.map CatalogFile.name).Nodup ↔
        ∀ e ∈ (twins.run entries).1,
          ((shelfOf (twins.run (catalogFiles [])).1).get? e.record.name).isSome) :=
  shelf_complete_iff reached_twins (entries_twins ▸ printable_twins)

/-- **A catalog can be lost.**  The two classes `V` are cataloged, but their catalogs have one name,
and nothing of the first is on the shelf. -/
theorem shelf_twins :
    (twins.run entries).1.map (fun e => e.record.name) =
        ["a::B".toList, "a::V".toList, "b::C".toList, "b::V".toList] ∧
      (twins.run (catalogFiles [])).1.map CatalogFile.name =
        ["a.B.txt".toList, "a.V.txt".toList, "a.C.txt".toList, "a.V.txt".toList] ∧
      (shelfOf (twins.run (catalogFiles [])).1).get? "a::V".toList = none := by
  have files :
      (twins.run (catalogFiles [])).1 = twinsEntries.map (catalogFile twins.knowledge []) := by
    rw [reached_twins.run_eq (answers_catalogFiles []), ← reached_twins.run_eq answers_entries,
      entries_twins]
  have listed : twinsEntries[1] ∈ twinsEntries := List.getElem_mem _
  rw [files, entries_twins]
  refine ⟨by decide, by decide +kernel, ?_⟩
  have replaced : ¬ lastNamed twins.knowledge [] twinsEntries
      (catalogFile twins.knowledge [] twinsEntries[1]).name = some twinsEntries[1] := by
    decide +kernel
  have shelf := get?_shelf (by decide) printable_twins listed
  rwa [if_neg replaced] at shelf

end Survey
end AccessorCatalog

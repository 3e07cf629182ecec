/-
# Reading a catalog back

`listing_parse_render` says that reading undoes writing.  The listing of a written catalog has the
name, the header and the base classes of its entry, and then its accessors, the methods before the
data members and both owner by owner; and grouping by owners loses nothing and doubles nothing.

The reader knows a section only by its lines: labels open sections, and empty lines end them.  So an
entry must keep to `Printable`: its texts stay on their lines, its types and base classes look like
no labels, and its types hold no gap that could end their column.  Each section is then read for
itself (`foldl_basesLines`, `listing_foldl_sections`), whatever section stood before it.
-/
import Mathlib.Data.List.Infix
import AccessorCatalog.Catalog.Writer
import AccessorCatalog.Proofs.Columns

namespace AccessorCatalog

/-! ## 1. Accessors by owners -/

/-- The items of each owner in turn. -/
def groupBy {α : Type} (owner : α → Text) (owners : List Text) (items : List α) : List α :=
  owners.flatMap fun o => items.filter fun item => owner item == o

/-- Grouping by different owners takes each item of theirs once. -/
theorem groupBy_perm_filter {α : Type} (owner : α → Text) {owners : List Text} (once : owners.Nodup)
    (items : List α) :
    (groupBy owner owners items).Perm (items.filter fun item => owners.contains (owner item)) := by
  induction owners with
  | nil => simp [groupBy]
  | cons o owners ih =>
    obtain ⟨fresh, once⟩ := List.nodup_cons.mp once
    have mine : (items.filter fun item => (o :: owners).contains (owner item)).filter
        (fun item => owner item == o) = items.filter fun item => owner item == o := by
      rw [List.filter_filter]
      exact List.filter_congr fun item _ => by cases h : owner item == o <;> simp_all
    have others : (items.filter fun item => (o :: owners).contains (owner item)).filter
          (fun item => !(owner item == o)) =
        items.filter fun item => owners.contains (owner item) := by
      rw [List.filter_filter]
      refine List.filter_congr fun item _ => ?_
      cases h : owner item == o with
      | false => simp_all
      | true => simp_all
    have parts := List.filter_append_perm (fun item => owner item == o)
      (items.filter fun item => (o :: owners).contains (owner item))
    rw [mine, others] at parts
    exact ((ih once).append_left _).trans parts

theorem groupBy_perm {α : Type} {owner : α → Text} {owners : List Text} {items : List α}
    (once : owners.Nodup) (all : ∀ item ∈ items, owner item ∈ owners) :
    (groupBy owner owners items).Perm items := by
  have every : (items.filter fun item => owners.contains (owner item)) = items := by
    rw [List.filter_eq_self]
    exact fun item mem => by simpa using all item mem
  have grouped := groupBy_perm_filter owner once items
  rwa [every] at grouped

namespace CatalogEntry

/-- The owners met so far and those of a list, each once. -/
theorem foldl_owners {seen : List Text} (once : seen.Nodup) (owners : List Text) :
    (owners.foldl (fun seen o => if seen.contains o then seen else seen ++ [o]) seen).Nodup ∧
      ∀ o, o ∈ owners.foldl (fun seen o => if seen.contains o then seen else seen ++ [o]) seen ↔
        o ∈ seen ∨ o ∈ owners := by
  induction owners generalizing seen with
  | nil => simp [once]
  | cons o owners ih =>
    rw [List.foldl_cons]
    split
    · next known =>
      obtain ⟨nodup, mem⟩ := ih once
      refine ⟨nodup, fun o' => ?_⟩
      have seen_o : o ∈ seen := by simpa using known
      rw [mem, List.mem_cons]
      grind
    · next fresh =>
      have longer : (seen ++ [o]).Nodup := by
        rw [List.nodup_append]
        refine ⟨once, by simp, ?_⟩
        rintro a mem b mem_b rfl
        rw [List.mem_singleton.mp mem_b] at mem
        exact fresh (by simpa using mem)
      obtain ⟨nodup, mem⟩ := ih longer
      refine ⟨nodup, fun o' => ?_⟩
      rw [mem, List.mem_append, List.mem_singleton, List.mem_cons, or_assoc]

theorem owners_nodup (e : CatalogEntry) : e.owners.Nodup :=
  (foldl_owners List.nodup_nil _).1

theorem mem_owners {e : CatalogEntry} {o : Text} :
    o ∈ e.owners ↔ (∃ m ∈ e.methods, m.owner = o) ∨ ∃ m ∈ e.members, m.owner = o := by
  unfold owners
  rw [(foldl_owners List.nodup_nil _).2]
  simp

/-- The methods of an entry, owner by owner. -/
def groupedMethods (e : CatalogEntry) : List MethodAccessor :=
  groupBy MethodAccessor.owner e.owners e.methods

/-- The data members of an entry, owner by owner. -/
def groupedMembers (e : CatalogEntry) : List MemberAccessor :=
  groupBy MemberAccessor.owner e.owners e.members

theorem groupedMethods_perm (e : CatalogEntry) : e.groupedMethods.Perm e.methods :=
  groupBy_perm e.owners_nodup fun m mem => mem_owners.mpr (.inl ⟨m, mem, rfl⟩)

theorem groupedMembers_perm (e : CatalogEntry) : e.groupedMembers.Perm e.members :=
  groupBy_perm e.owners_nodup fun m mem => mem_owners.mpr (.inr ⟨m, mem, rfl⟩)

end CatalogEntry

/-! ## 2. Entries that a catalog can hold -/

namespace Catalog

open Listing (ReadState splitLabel)

/-- A text that a line can hold without blanks around it. -/
structure Field (t : Text) : Prop where
  single : '\n' ∉ t
  trimmed : Text.trim t = t
  filled : t ≠ []

theorem field_iff {t : Text} : Field t ↔ '\n' ∉ t ∧ Text.trim t = t ∧ t ≠ [] :=
  ⟨fun h => ⟨h.single, h.trimmed, h.filled⟩, fun h => ⟨h.1, h.2.1, h.2.2⟩⟩

instance (t : Text) : Decidable (Field t) :=
  decidable_of_iff _ field_iff.symm

/-- The words that open or end the sections of a catalog. -/
def sectionLabels : List Text :=
  ["Class:".toList, "Header:".toList, "BaseClasses:".toList, "AccessMethods:".toList,
    "DataMembers:".toList, "Version:".toList, "Created:".toList]

/-- A text whose first word is none of them. -/
def Unlabelled (t : Text) : Prop :=
  (splitLabel t).1 ∉ sectionLabels

instance (t : Text) : Decidable (Unlabelled t) :=
  inferInstanceAs (Decidable (_ ∉ _))

/-- A text for the column of types. -/
structure TypeField (t : Text) : Prop extends Field t where
  unlabelled : Unlabelled t
  no_gap : ¬ [' ', ' '] <:+: t

theorem typeField_iff {t : Text} :
    TypeField t ↔ Field t ∧ Unlabelled t ∧ ¬ [' ', ' '] <:+: t :=
  ⟨fun h => ⟨h.toField, h.unlabelled, h.no_gap⟩, fun h => ⟨h.1, h.2.1, h.2.2⟩⟩

instance (t : Text) : Decidable (TypeField t) :=
  decidable_of_iff _ typeField_iff.symm

/-- An entry, a version and a time of creation that a catalog can hold. -/
structure Printable (e : CatalogEntry) (version created : Text) : Prop where
  name : Field e.record.name
  header : Field e.record.header
  base : ∀ base ∈ e.inherited, Field base ∧ Unlabelled base
  /-- A signature holds an opening parenthesis and behind it a closing one. -/
  method : ∀ m ∈ e.methods, '\n' ∉ m.owner ∧ TypeField m.returnType ∧ Field m.signature ∧
    ['(', ')'].Sublist m.signature
  member : ∀ m ∈ e.members, '\n' ∉ m.owner ∧ TypeField m.type ∧ Field m.name
  version : '\n' ∉ version
  created : '\n' ∉ created

theorem printable_iff {e : CatalogEntry} {version created : Text} :
    Printable e version created ↔
      (Field e.record.name ∧ Field e.record.header) ∧
        (∀ base ∈ e.inherited, Field base ∧ Unlabelled base) ∧
        (∀ m ∈ e.methods, '\n' ∉ m.owner ∧ TypeField m.returnType ∧ Field m.signature ∧
          ['(', ')'].Sublist m.signature) ∧
        (∀ m ∈ e.members, '\n' ∉ m.owner ∧ TypeField m.type ∧ Field m.name) ∧
        '\n' ∉ version ∧ '\n' ∉ created :=
  ⟨fun h => ⟨⟨h.name, h.header⟩, h.base, h.method, h.member, h.version, h.created⟩,
    fun ⟨⟨name, header⟩, base, method, member, version, created⟩ =>
      ⟨name, header, base, method, member, version, created⟩⟩

instance (e : CatalogEntry) (version created : Text) : Decidable (Printable e version created) :=
  decidable_of_iff _ printable_iff.symm

/-! ## 3. The lines of a catalog -/

/-- The lines of the base classes, the empty one behind them included. -/
def basesLines : List Text → List Text
  | [] => []
  | first :: others =>
    (label "BaseClasses" ++ first) :: others.map (List.replicate labelWidth ' ' ++ ·) ++ [[]]

/-- The lines of a section of accessors. -/
def sectionLines (name : String) (owner : Text) : (lines : List Text) → List Text
  | [] => []
  | lines => [] :: (label name ++ owner) :: lines

/-- The lines in front of the accessors. -/
def frontLines (e : CatalogEntry) (version created : Text) : List Text :=
  [label "Class" ++ e.record.name, [], label "Header" ++ e.record.header, []] ++
    basesLines e.inherited ++
    [label "Version" ++ version, label "Created" ++ (created ++ '\t' :: toolName)]

/-- The lines of a catalog. -/
def catalogLines (e : CatalogEntry) (version created : Text) : List Text :=
  frontLines e version created ++
    (e.owners.flatMap fun owner => sectionLines "AccessMethods" owner (methodLines e owner)) ++
    e.owners.flatMap fun owner => sectionLines "DataMembers" owner (memberLines e owner)

/-- Lines with their line feeds. -/
def ended (lines : List Text) : Text :=
  lines.flatMap fun line => line ++ ['\n']

theorem ended_append (lines lines' : List Text) :
    ended (lines ++ lines') = ended lines ++ ended lines' :=
  List.flatMap_append

theorem basesSection_eq (bases : List Text) : basesSection bases = ended (basesLines bases) := by
  cases bases with
  | nil => rfl
  | cons first others =>
    simp [basesSection, basesLines, ended, labelled, List.flatMap_map]

theorem ownerSection_eq (name : String) (owner : Text) (lines : List Text) :
    ownerSection name owner lines = ended (sectionLines name owner lines) := by
  cases lines with
  | nil => rfl
  | cons line lines => simp [ownerSection, sectionLines, ended, labelled]

theorem render_eq (e : CatalogEntry) (version created : Text) :
    render e version created = ended (catalogLines e version created) := by
  have owners (name : String) (lines : Text → List Text) :
      (e.owners.flatMap fun owner => ended (sectionLines name owner (lines owner))) =
        ended (e.owners.flatMap fun owner => sectionLines name owner (lines owner)) := by
    rw [ended, List.flatMap_assoc]
    rfl
  unfold render catalogLines frontLines
  simp only [basesSection_eq, ownerSection_eq, owners, ended_append]
  simp [ended, labelled]

theorem not_mem_basesLines {bases : List Text} (single : ∀ base ∈ bases, '\n' ∉ base) :
    ∀ line ∈ basesLines bases, '\n' ∉ line := by
  have padding : '\n' ∉ List.replicate labelWidth ' ' := by decide
  have no_label : '\n' ∉ label "BaseClasses" := by decide
  cases bases with
  | nil => simp [basesLines]
  | cons first others =>
    intro line mem
    simp only [basesLines, List.cons_append, List.mem_cons, List.mem_append, List.mem_map,
      List.not_mem_nil, or_false] at mem
    rcases mem with rfl | ⟨base, mem, rfl⟩ | rfl
    · simpa [no_label] using single first List.mem_cons_self
    · simpa [padding] using single base (List.mem_cons_of_mem first mem)
    · exact List.not_mem_nil

theorem not_mem_sectionLines {name : String} {owner : Text} {lines : List Text}
    (no_label : '\n' ∉ label name) (no_owner : '\n' ∉ owner)
    (single : ∀ line ∈ lines, '\n' ∉ line) :
    ∀ line ∈ sectionLines name owner lines, '\n' ∉ line := by
  cases lines with
  | nil => simp [sectionLines]
  | cons first others =>
    intro line mem
    rcases List.mem_cons.mp mem with rfl | mem
    · exact List.not_mem_nil
    rcases List.mem_cons.mp mem with rfl | mem
    · simp [no_label, no_owner]
    · exact single line mem

theorem not_mem_listingLine {type subject : Text} (no_type : '\n' ∉ type)
    (no_subject : '\n' ∉ subject) :
    '\n' ∉ listingLine type subject := by
  simp [listingLine, Text.padLeft, no_type, no_subject]

/-- No line of a catalog holds a line feed. -/
theorem not_mem_catalogLines {e : CatalogEntry} {version created : Text}
    (h : Printable e version created) : ∀ line ∈ catalogLines e version created, '\n' ∉ line := by
  have owner : ∀ owner ∈ e.owners, '\n' ∉ owner := by
    intro owner mem
    rcases CatalogEntry.mem_owners.mp mem with ⟨m, listed, rfl⟩ | ⟨m, listed, rfl⟩
    · exact (h.method m listed).1
    · exact (h.member m listed).1
  have methods (owner : Text) : ∀ line ∈ methodLines e owner, '\n' ∉ line := by
    intro line mem
    obtain ⟨m, filtered, rfl⟩ := List.mem_map.mp mem
    obtain ⟨-, type, signature, -⟩ := h.method m (List.mem_filter.mp filtered).1
    exact not_mem_listingLine type.single signature.single
  have members (owner : Text) : ∀ line ∈ memberLines e owner, '\n' ∉ line := by
    intro line mem
    obtain ⟨m, filtered, rfl⟩ := List.mem_map.mp mem
    obtain ⟨-, type, name⟩ := h.member m (List.mem_filter.mp filtered).1
    exact not_mem_listingLine type.single name.single
  have labels : '\n' ∉ label "Class" ∧ '\n' ∉ label "Header" ∧ '\n' ∉ label "Version" ∧
      '\n' ∉ label "Created" ∧ '\n' ∉ '\t' :: toolName := by
    decide
  obtain ⟨no_class, no_header, no_version, no_created, no_tool⟩ := labels
  intro line mem
  simp only [catalogLines, frontLines, List.mem_append, List.mem_cons, List.not_mem_nil, or_false,
    List.mem_flatMap] at mem
  rcases mem with
    ((((rfl | rfl | rfl | rfl) | mem) | rfl | rfl) | ⟨o, known, mem⟩) | ⟨o, known, mem⟩
  · simp [no_class, h.name.single]
  · exact List.not_mem_nil
  · simp [no_header, h.header.single]
  · exact List.not_mem_nil
  · exact not_mem_basesLines (fun base mem => (h.base base mem).1.single) line mem
  · simp [no_version, h.version]
  · simp only [List.mem_append, not_or]
    exact ⟨no_created, h.created, no_tool⟩
  · exact not_mem_sectionLines (by decide) (owner o known) (methods o) line mem
  · exact not_mem_sectionLines (by decide) (owner o known) (members o) line mem

/-! ## 4. Reading sections -/

theorem splitLabel_label {name : String} (solid : name.toList.any Text.isBlank = false)
    (short : name.toList.length + 1 < labelWidth) (value : Text) :
    splitLabel (Text.trim (label name ++ value)) = (name.toList ++ [':'], Text.trim value) := by
  unfold label Text.padRight
  refine Listing.splitLabel_trim (by simp) ?_ ?_ ?_ value
  · intro c mem
    rcases List.mem_append.mp mem with mem | mem
    · exact Bool.eq_false_iff.mpr (List.any_eq_false.mp solid c mem)
    · rw [List.mem_singleton.mp mem]
      decide
  · simp [labelWidth] at short ⊢
    omega
  · intro b mem
    rw [List.eq_of_mem_replicate mem]
    decide

theorem feed_class (s : ReadState) (value : Text) :
    s.feed (Text.trim (label "Class" ++ value)) =
      ⟨{ s.listing with className := Text.trim value }, .outside⟩ := by
  unfold ReadState.feed
  rw [splitLabel_label (by decide) (by decide)]
  rfl

theorem feed_header (s : ReadState) (value : Text) :
    s.feed (Text.trim (label "Header" ++ value)) =
      ⟨{ s.listing with header := Text.trim value }, .outside⟩ := by
  unfold ReadState.feed
  rw [splitLabel_label (by decide) (by decide)]
  rfl

theorem feed_bases (s : ReadState) {base : Text} (filled : Text.trim base ≠ []) :
    s.feed (Text.trim (label "BaseClasses" ++ base)) =
      ⟨{ s.listing with bases := s.listing.bases ++ [Text.trim base] }, .bases⟩ := by
  unfold ReadState.feed
  rw [splitLabel_label (by decide) (by decide)]
  simp [filled]

/-- The sections that their labels open, whatever stands behind the label. -/
def openedSections : List (String × Listing.Section) :=
  [("AccessMethods", .methods), ("DataMembers", .members), ("Version", .outside),
    ("Created", .outside)]

theorem feed_opens {name : String} {opened : Listing.Section}
    (opens : (name, opened) ∈ openedSections) (s : ReadState) (value : Text) :
    s.feed (Text.trim (label name ++ value)) = { s with current := opened } := by
  simp only [openedSections, List.mem_cons, List.not_mem_nil, or_false, Prod.mk.injEq] at opens
  unfold ReadState.feed
  rcases opens with ⟨rfl, rfl⟩ | ⟨rfl, rfl⟩ | ⟨rfl, rfl⟩ | ⟨rfl, rfl⟩ <;>
    rw [splitLabel_label (by decide) (by decide)] <;> rfl

theorem feed_empty (s : ReadState) : s.feed [] = { s with current := .outside } :=
  rfl

theorem feed_unlabelled (s : ReadState) {line : Text} (no_label : Unlabelled line)
    (filled : line ≠ []) : s.feed line = s.feedPlain line := by
  unfold Unlabelled sectionLabels at no_label
  simp only [List.mem_cons, List.not_mem_nil, or_false, not_or] at no_label
  obtain ⟨no_class, no_header, no_bases, no_methods, no_members, no_version, no_created⟩ := no_label
  unfold ReadState.feed
  dsimp only
  rw [if_neg no_class, if_neg no_header, if_neg no_bases, if_neg no_methods, if_neg no_members,
    if_neg]
  rw [List.isEmpty_iff]
  simp only [not_or]
  exact ⟨no_version, no_created, filled⟩

/-- Lines of base classes behind the first are read. -/
theorem foldl_feed_bases {bases : List Text} (h : ∀ base ∈ bases, Field base ∧ Unlabelled base)
    {s : ReadState} (inside : s.current = .bases) :
    bases.foldl ReadState.feed s =
      ⟨{ s.listing with bases := s.listing.bases ++ bases }, .bases⟩ := by
  induction bases generalizing s with
  | nil => rw [List.append_nil, ← inside]; rfl
  | cons base bases ih =>
    obtain ⟨field, no_label⟩ := h base List.mem_cons_self
    have fed : s.feed base = ⟨{ s.listing with bases := s.listing.bases ++ [base] }, .bases⟩ := by
      rw [feed_unlabelled s no_label field.filled]
      obtain ⟨listing, _⟩ := s
      obtain rfl := inside
      rfl
    rw [List.foldl_cons, fed, ih (fun b mem => h b (List.mem_cons_of_mem base mem)) rfl,
      List.append_assoc]
    rfl

/-- The base classes are read, and their section is left. -/
theorem foldl_basesLines {s : ReadState} (outside : s.current = .outside) {bases : List Text}
    (h : ∀ base ∈ bases, Field base ∧ Unlabelled base) :
    ((basesLines bases).map Text.trim).foldl ReadState.feed s =
      ⟨{ s.listing with bases := s.listing.bases ++ bases }, .outside⟩ := by
  cases bases with
  | nil => rw [List.append_nil, ← outside]; rfl
  | cons first others =>
    obtain ⟨field, -⟩ := h first List.mem_cons_self
    have behind : ∀ base ∈ others, Field base ∧ Unlabelled base := fun base mem =>
      h base (List.mem_cons_of_mem first mem)
    have padding : ∀ b ∈ List.replicate labelWidth ' ', Text.isBlank b = true := fun b mem => by
      rw [List.eq_of_mem_replicate mem]
      decide
    have trimmed : (others.map (List.replicate labelWidth ' ' ++ ·)).map Text.trim = others := by
      rw [List.map_map]
      refine (List.map_congr_left fun base mem => ?_).trans (List.map_id others)
      exact (Text.trim_blanks_append padding).trans (behind base mem).1.trimmed
    have filled : Text.trim first ≠ [] := by
      rw [field.trimmed]
      exact field.filled
    have opened := feed_bases s filled
    rw [field.trimmed] at opened
    rw [basesLines, List.map_append, List.map_cons, trimmed, List.foldl_append, List.foldl_cons,
      opened, foldl_feed_bases behind rfl, List.append_assoc]
    rfl

/-- What stands in front of the accessors is read. -/
theorem foldl_frontLines {e : CatalogEntry} {version created : Text}
    (h : Printable e version created) :
    ((frontLines e version created).map Text.trim).foldl ReadState.feed
        ⟨⟨[], [], [], []⟩, .outside⟩ =
      ⟨⟨e.record.name, e.record.header, e.inherited, []⟩, .outside⟩ := by
  have version_opens : ("Version", Listing.Section.outside) ∈ openedSections := by decide
  have created_opens : ("Created", Listing.Section.outside) ∈ openedSections := by decide
  unfold frontLines
  simp only [List.map_append, List.map_cons, List.map_nil, List.foldl_append, List.foldl_cons,
    List.foldl_nil, feed_class, feed_header, h.name.trimmed, h.header.trimmed, Text.trim_nil,
    feed_empty]
  rw [foldl_basesLines rfl h.base, feed_opens version_opens, feed_opens created_opens]
  rfl

/-- A section of accessors is read, whatever section stood before it. -/
theorem listing_foldl_section {α : Type} {name : String} {opened : Listing.Section}
    (opens : (name, opened) ∈ openedSections) {read : Text → Option ListedEntry}
    (reads : ∀ (s : ReadState), s.current = opened → ∀ line,
      s.feedPlain line = s.addEntries (read line).toList)
    {write : α → Text} {listed : α → ListedEntry} {items : List α}
    (h : ∀ item ∈ items, Unlabelled (Text.trim (write item)) ∧ Text.trim (write item) ≠ [] ∧
      read (Text.trim (write item)) = some (listed item)) (owner : Text) (s : ReadState) :
    (((sectionLines name owner (items.map write)).map Text.trim).foldl ReadState.feed s).listing =
      { s.listing with entries := s.listing.entries ++ items.map listed } := by
  have lines (s : ReadState) (inside : s.current = opened) :
      ((items.map write).map Text.trim).foldl ReadState.feed s =
        s.addEntries (items.map listed) := by
    induction items generalizing s with
    | nil => simp [ReadState.addEntries]
    | cons item items ih =>
      obtain ⟨no_label, filled, line⟩ := h item List.mem_cons_self
      rw [List.map_cons, List.map_cons, List.foldl_cons, feed_unlabelled s no_label filled,
        reads s inside, line,
        ih (fun i mem => h i (List.mem_cons_of_mem item mem)) (s.addEntries _) inside]
      simp [ReadState.addEntries]
  cases items with
  | nil => simp [sectionLines]
  | cons item items =>
    show ((([] :: (label name ++ owner) :: (item :: items).map write).map Text.trim).foldl
      ReadState.feed s).listing = _
    rw [List.map_cons, List.map_cons, List.foldl_cons, List.foldl_cons, feed_opens opens,
      lines _ rfl]
    rfl

/-- The sections of all owners are read. -/
theorem listing_foldl_sections {α : Type} {name : String} {opened : Listing.Section}
    (opens : (name, opened) ∈ openedSections) {read : Text → Option ListedEntry}
    (reads : ∀ (s : ReadState), s.current = opened → ∀ line,
      s.feedPlain line = s.addEntries (read line).toList)
    {write : α → Text} {listed : α → ListedEntry} {items : Text → List α}
    (h : ∀ owner, ∀ item ∈ items owner, Unlabelled (Text.trim (write item)) ∧
      Text.trim (write item) ≠ [] ∧ read (Text.trim (write item)) = some (listed item))
    (owners : List Text) (s : ReadState) :
    (((owners.flatMap fun owner => sectionLines name owner ((items owner).map write)).map
      Text.trim).foldl ReadState.feed s).listing =
      { s.listing with entries := s.listing.entries ++ (owners.flatMap items).map listed } := by
  induction owners generalizing s with
  | nil => simp
  | cons owner owners ih =>
    rw [List.flatMap_cons, List.map_append, List.foldl_append, ih,
      listing_foldl_section opens reads (h owner) owner s]
    simp

/-! ## 5. Reading accessors -/

end Catalog

namespace ListedEntry

/-- What a catalog lists for a method. -/
def ofMethod (m : MethodAccessor) : ListedEntry :=
  let inside := m.signature.drop ((Text.beforeChar '(' m.signature).length + 1)
  let args := Text.trim (Text.beforeChar ')' inside)
  { returnType := m.returnType
    name := Text.trim (Text.beforeChar '(' m.signature)
    signature := m.signature
    args? := some (if args.isEmpty then "void".toList else args)
    line := Listing.row m.returnType m.signature }

/-- What a catalog lists for a data member. -/
def ofMember (m : MemberAccessor) : ListedEntry :=
  ⟨m.type, m.name, m.name, none, Listing.row m.type m.name⟩

end ListedEntry

namespace Catalog

open Listing (ReadState)

/-- Of two characters one behind the other, the second stands behind the first place of the
first. -/
theorem mem_drop_beforeChar {c d : Char} {t : Text} (h : [c, d].Sublist t) :
    d ∈ t.drop ((Text.beforeChar c t).length + 1) := by
  induction t with
  | nil => cases h
  | cons a t ih =>
    by_cases first : a = c
    · subst first
      simpa [Text.beforeChar] using h
    · have behind : [c, d].Sublist t := by
        cases h with
        | cons _ behind => exact behind
        | cons_cons => exact absurd rfl first
      simpa [Text.beforeChar, first] using ih behind

theorem methodOfLine?_row {m : MethodAccessor} (type : TypeField m.returnType)
    (signature : Field m.signature) (call : ['(', ')'].Sublist m.signature) :
    Listing.methodOfLine? (Listing.row m.returnType m.signature) = some (.ofMethod m) := by
  have opening := Text.cutFirst?_char (call.subset (List.mem_cons_self (a := '(')))
  have closing := Text.cutFirst?_char (mem_drop_beforeChar call)
  have columns := Listing.splitColumns?_row type.trimmed signature.trimmed type.no_gap
  unfold Listing.methodOfLine? Listing.splitMethodLine?
  rw [columns]
  simp [opening, closing, ListedEntry.ofMethod]

theorem memberOfLine?_row {m : MemberAccessor} (type : TypeField m.type) (name : Field m.name) :
    Listing.memberOfLine? (Listing.row m.type m.name) = some (.ofMember m) := by
  have columns := Listing.splitColumns?_row type.trimmed name.trimmed type.no_gap
  unfold Listing.memberOfLine?
  rw [columns]
  simp [ListedEntry.ofMember, type.trimmed, name.trimmed]

theorem unlabelled_row {type : Text} (h : Unlabelled type) (subject : Text) :
    Unlabelled (Listing.row type subject) := by
  unfold Unlabelled
  rwa [Listing.splitLabel_row]

/-! ## 6. The round trip -/

/-- What is read of a written catalog, with the accessors owner by owner. -/
theorem parse_render {e : CatalogEntry} {version created : Text} (h : Printable e version created) :
    Listing.parse (render e version created) =
      ⟨e.record.name, e.record.header, e.inherited,
        e.groupedMethods.map .ofMethod ++ e.groupedMembers.map .ofMember⟩ := by
  have methods : ∀ owner, ∀ m ∈ e.methods.filter fun m => m.owner == owner,
      Unlabelled (Text.trim m.listingLine) ∧ Text.trim m.listingLine ≠ [] ∧
        Listing.methodOfLine? (Text.trim m.listingLine) = some (.ofMethod m) := by
    intro owner m mem
    obtain ⟨-, type, signature, call⟩ := h.method m (List.mem_filter.mp mem).1
    rw [MethodAccessor.listingLine,
      Listing.trim_listingLine type.trimmed signature.trimmed type.filled signature.filled]
    exact ⟨unlabelled_row type.unlabelled _, by simp [Listing.row],
      methodOfLine?_row type signature call⟩
  have members : ∀ owner, ∀ m ∈ e.members.filter fun m => m.owner == owner,
      Unlabelled (Text.trim m.listingLine) ∧ Text.trim m.listingLine ≠ [] ∧
        Listing.memberOfLine? (Text.trim m.listingLine) = some (.ofMember m) := by
    intro owner m mem
    obtain ⟨-, type, name⟩ := h.member m (List.mem_filter.mp mem).1
    rw [MemberAccessor.listingLine, Listing.trim_listingLine type.trimmed name.trimmed type.filled
      name.filled]
    exact ⟨unlabelled_row type.unlabelled _, by simp [Listing.row], memberOfLine?_row type name⟩
  have in_methods : ∀ s : ReadState, s.current = .methods → ∀ line,
      s.feedPlain line = s.addEntries (Listing.methodOfLine? line).toList := by
    intro s inside line
    rw [ReadState.feedPlain, inside]
  have in_members : ∀ s : ReadState, s.current = .members → ∀ line,
      s.feedPlain line = s.addEntries (Listing.memberOfLine? line).toList := by
    intro s inside line
    rw [ReadState.feedPlain, inside]
  have methods_open : ("AccessMethods", Listing.Section.methods) ∈ openedSections := by decide
  have members_open : ("DataMembers", Listing.Section.members) ∈ openedSections := by decide
  have read_methods := listing_foldl_sections methods_open in_methods methods
  have read_members := listing_foldl_sections members_open in_members members
  unfold Listing.parse
  rw [render_eq, ended, Text.trim_lines_flatMap (not_mem_catalogLines h)]
  unfold catalogLines methodLines memberLines
  rw [List.map_append, List.map_append, List.foldl_append, List.foldl_append]
  rw [foldl_frontLines h, read_members, read_methods]
  rfl

/-- **Reading a catalog undoes writing it.** -/
theorem listing_parse_render {e : CatalogEntry} {version created : Text}
    (h : Printable e version created) :
    Listing.parse (render e version created) =
        ⟨e.record.name, e.record.header, e.inherited,
          e.groupedMethods.map .ofMethod ++ e.groupedMembers.map .ofMember⟩ ∧
      e.groupedMethods.Perm e.methods ∧ e.groupedMembers.Perm e.members :=
  ⟨parse_render h, e.groupedMethods_perm, e.groupedMembers_perm⟩

/-- An entry with base classes, several owners and a type wider than its column. -/
def wideEntry : CatalogEntry :=
  { record := ⟨"foo::Bar".toList, [], [], "foo/interface/Bar.h".toList⟩
    methods := [
      ⟨"foo::Bar".toList, "int".toList, "x".toList, "x() const".toList, "x()".toList, 0, 0⟩,
      ⟨"Base".toList, "const std::vector<reco::TrackExtra> &".toList, "extras".toList,
        "extras(int q=3)".toList, "extras(q)".toList, 0, 1⟩,
      ⟨"foo::Bar".toList, "double".toList, "y".toList, "y()".toList, "y()".toList, 0, 0⟩]
    members :=
      [⟨"Other".toList, "float".toList, "z".toList⟩, ⟨"Base".toList, "int".toList, "w".toList⟩]
    inherited := ["Base".toList, "Other".toList] }

theorem printable_wideEntry : Printable wideEntry "v1".toList "now".toList := by
  decide +kernel

theorem listing_parse_render_wideEntry :
    Listing.parse (render wideEntry "v1".toList "now".toList) =
        ⟨"foo::Bar".toList, "foo/interface/Bar.h".toList, ["Base".toList, "Other".toList],
          wideEntry.groupedMethods.map .ofMethod ++ wideEntry.groupedMembers.map .ofMember⟩ ∧
      wideEntry.groupedMethods.Perm wideEntry.methods ∧
        wideEntry.groupedMembers.Perm wideEntry.members :=
  listing_parse_render printable_wideEntry

end Catalog
end AccessorCatalog

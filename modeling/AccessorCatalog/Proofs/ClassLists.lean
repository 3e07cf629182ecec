/-
# What a class list says

A class list has one line for each class, whatever the names are that it is built from, in which
order and how often they come.  `build_lines` says which classes are listed, and what is said of
each.

A name *offers* a class if it denotes it and nothing in its spelling keeps it out (`Offers`).  Only
names are kept out, not classes: the element of a vector is looked up, but what is excluded or
skipped is the vector as it is spelled.

Several names can offer one class.  Which of their lines is kept is known from the lines alone
(`get?_foldl_add`): the last one for a collection, or else the first one.  So there is one for every
class that is offered and known, and it says that there is a collection if any of them does.
-/
import AccessorCatalog.ClassMap.ClassList
import AccessorCatalog.Proofs.Columns

namespace AccessorCatalog

/-! ## 1. Pieces of names -/

namespace Text

variable {piece t : Text}

theorem isSome_cutFirst? (inside : piece <:+: t) : (cutFirst? piece t).isSome = true := by
  induction t with
  | nil =>
    rw [List.infix_nil.mp inside]
    rfl
  | cons c t ih =>
    rw [cutFirst?]
    split
    · rfl
    · next not_here =>
      rcases List.infix_cons_iff.mp inside with ⟨rest, start⟩ | behind
      · rw [afterPrefix?_eq_some.mpr start.symm] at not_here
        cases not_here
      · rw [Option.isSome_map]
        exact ih behind

theorem hasPiece_iff : hasPiece piece t = true ↔ piece <:+: t := by
  constructor
  · intro found
    obtain ⟨⟨left, right⟩, cut⟩ := Option.isSome_iff_exists.mp found
    exact ⟨left, right, (eq_of_cutFirst? cut).symm⟩
  · exact isSome_cutFirst?

end Text

namespace ClassList

variable {name className inner header : Text} {classes extra : List Text} {m : ClassMap} {e : Entry}

/-- A name that holds `Point`, one more character of the line, and `D`. -/
def HoldsPoint (name : Text) : Prop :=
  ∃ before d behind, name = before ++ ("Point".toList ++ d :: 'D' :: behind) ∧ d ≠ '\n'

theorem hasPointDimension_iff : hasPointDimension name = true ↔ HoldsPoint name := by
  induction name with
  | nil =>
    constructor
    · intro found
      cases found
    · rintro ⟨before, d, behind, cut, -⟩
      simp at cut
  | cons c t ih =>
    rw [hasPointDimension, Bool.or_eq_true, ih]
    constructor
    · rintro (here | ⟨before, d, behind, rfl, other⟩)
      · split at here
        · next d behind start =>
          have cut : c :: t = "Point".toList ++ d :: 'D' :: behind :=
            Text.afterPrefix?_eq_some.mp start
          exact ⟨[], d, behind, cut, by simpa using here⟩
        · cases here
      · exact ⟨c :: before, d, behind, rfl, other⟩
    · rintro ⟨before, d, behind, cut, other⟩
      cases before with
      | nil =>
        rw [cut, List.nil_append, Text.afterPrefix?_eq_some.mpr rfl]
        exact .inl (by simpa using other)
      | cons b before =>
        cases cut
        exact .inr ⟨before, d, behind, rfl, other⟩

/-- Something in the name keeps it out of class lists. -/
def Skips (name : Text) : Prop :=
  (∃ piece ∈ skippedPieces, piece <:+: name) ∨ HoldsPoint name

theorem isSkipped_iff : isSkipped name = true ↔ Skips name := by
  simp [isSkipped, Skips, Text.hasPiece_iff, hasPointDimension_iff]

/-- The name starts with an exclusion, be it a default or a further one, whose blanks at the ends do
not count. -/
def Excludes (extra : List Text) (name : Text) : Prop :=
  (∃ head ∈ defaultExclusions, head <+: name) ∨
    ∃ line ∈ extra, Text.trim line ≠ [] ∧ Text.trim line <+: name

theorem isExcluded_iff : isExcluded (exclusions extra) name = true ↔ Excludes extra name := by
  simp [isExcluded, exclusions, Excludes, Text.startsWith]

/-! ## 2. The class that a name denotes -/

/-- A name of a vector, with something in one line between its brackets. -/
structure IsVector (name inner : Text) : Prop where
  form : name = "vector<".toList ++ inner ++ ['>'] ∨ name = "std::vector<".toList ++ inner ++ ['>']
  filled : inner ≠ []
  line : '\n' ∉ inner

theorem withoutPrefix_std_iff {rest : Text} :
    Text.afterPrefix? "vector<".toList (Text.withoutPrefix "std::".toList name) = some rest ↔
      name = "vector<".toList ++ rest ∨ name = "std::vector<".toList ++ rest := by
  rw [Text.afterPrefix?_eq_some]
  constructor
  · intro behind
    unfold Text.withoutPrefix at behind
    cases found : Text.afterPrefix? "std::".toList name with
    | none =>
      rw [found] at behind
      exact .inl behind
    | some tail =>
      rw [found] at behind
      have same : tail = "vector<".toList ++ rest := behind
      rw [Text.afterPrefix?_eq_some.mp found, same]
      exact .inr rfl
  · rintro (rfl | rfl)
    · rfl
    · rfl

theorem vectorElement?_eq_some_iff {element : Text} :
    vectorElement? name = some element ↔ ∃ inner, IsVector name inner ∧
      element = Text.trim inner := by
  simp only [vectorElement?, Option.bind_eq_bind, Option.bind_eq_some_iff, withoutPrefix_std_iff,
    Source.beforeSuffix_eq_some]
  constructor
  · rintro ⟨rest, form, inner, rfl, taken⟩
    split at taken
    · cases taken
    · next plain =>
      cases taken
      simp only [Bool.or_eq_true, not_or, List.isEmpty_iff, List.contains_iff_mem] at plain
      refine ⟨inner, ⟨?_, plain.1, plain.2⟩, rfl⟩
      simpa [List.append_assoc] using form
  · rintro ⟨inner, ⟨form, filled, line⟩, rfl⟩
    refine ⟨inner ++ ['>'], by simpa [List.append_assoc] using form, inner, rfl, if_neg ?_⟩
    simp only [Bool.or_eq_true, not_or, List.isEmpty_iff, List.contains_iff_mem]
    exact ⟨filled, line⟩

/-- The class that a name denotes: the element of a vector, or else what the name says. -/
inductive Denotes (name : Text) : Text → Prop
  | element {inner : Text} (vector : IsVector name inner) : Denotes name (Text.trim inner)
  | itself (plain : ∀ inner, ¬ IsVector name inner) : Denotes name name

/-- A name of a collection. -/
def IsCollection (name : Text) : Prop :=
  (∃ inner, IsVector name inner) ∨ "SortedCollection".toList <:+: name

theorem plain_of_vectorElement? (none_there : vectorElement? name = none) (inner : Text) :
    ¬ IsVector name inner := by
  intro vector
  rw [vectorElement?_eq_some_iff.mpr ⟨inner, vector, rfl⟩] at none_there
  cases none_there

theorem denotes_iff : Denotes name className ↔ (denoted name).1 = className := by
  unfold denoted
  cases found : vectorElement? name with
  | none =>
    have plain := plain_of_vectorElement? found
    have itself :
        (if Text.hasPiece "SortedCollection".toList name then (name, Multiplicity.collection)
        else (name, .singleton)).1 = name := by
      split <;> rfl
    rw [itself]
    constructor
    · rintro (vector | -)
      · exact absurd vector (plain _)
      · rfl
    · rintro rfl
      exact .itself plain
  | some element =>
    obtain ⟨inner, vector, rfl⟩ := vectorElement?_eq_some_iff.mp found
    constructor
    · rintro (vector' | plain)
      · rw [vectorElement?_eq_some_iff.mpr ⟨_, vector', rfl⟩] at found
        exact (Option.some.inj found).symm
      · exact absurd vector (plain inner)
    · rintro rfl
      exact .element vector

theorem isCollection_iff : (denoted name).2 = .collection ↔ IsCollection name := by
  unfold denoted IsCollection
  cases found : vectorElement? name with
  | none =>
    have plain := plain_of_vectorElement? found
    rw [← Text.hasPiece_iff]
    dsimp only
    split
    · next there => exact ⟨fun _ => .inr there, fun _ => rfl⟩
    · next missing =>
      constructor
      · intro alone
        cases alone
      · rintro (⟨inner, vector⟩ | there)
        · exact absurd vector (plain inner)
        · exact absurd there missing
  | some element =>
    obtain ⟨inner, vector, rfl⟩ := vectorElement?_eq_some_iff.mp found
    exact ⟨fun _ => .inl ⟨inner, vector⟩, fun _ => rfl⟩

example : denoted "vector< reco::Track >".toList = ("reco::Track".toList, .collection) := by
  decide +kernel

/-! ## 3. The line of a name -/

/-- A listed name that says of a class that it is to be exposed. -/
structure Offers (classes extra : List Text) (name className : Text) : Prop where
  listed : ∃ spelled ∈ classes, name = Text.trim spelled
  filled : name ≠ []
  admitted : ¬ Excludes extra name
  simple : ¬ Skips name
  denotes : Denotes name className

/-- The class map knows the class, or the template that it is an instance of. -/
def Knows (m : ClassMap) (className : Text) : Prop :=
  m.contains className = true ∨ m.contains (ClassName.primary className) = true

/-- The first header of the class, or of the template if the class itself is unknown. -/
def HeaderOf (m : ClassMap) (className header : Text) : Prop :=
  m.header? className = some header ∨
    m.header? className = none ∧ m.header? (ClassName.primary className) = some header

theorem lookup?_eq_some_iff : lookup? m className = some header ↔ HeaderOf m className header := by
  unfold lookup? HeaderOf
  rw [Option.or_eq_some_iff]

theorem exists_header_iff : (∃ header, HeaderOf m className header) ↔ Knows m className := by
  have known (name : Text) : m.contains name = (m.header? name).isSome := by
    rw [Table.contains, ClassMap.header?, Option.isSome_map]
  simp only [← lookup?_eq_some_iff, Knows, known]
  rw [← Option.isSome_iff_exists, lookup?, Option.isSome_or, Bool.or_eq_true]

theorem lineOf?_eq_some_iff : lineOf? m (exclusions extra) name = some e ↔
    ¬ Excludes extra name ∧ ¬ Skips name ∧ Denotes name e.className ∧
      (e.multiplicity = .collection ↔ IsCollection name) ∧ ¬ ['*'] <:+ e.className ∧
      ∃ header, HeaderOf m e.className header ∧ e.package = package header := by
  rw [denotes_iff, ← isCollection_iff, ← isExcluded_iff, ← isSkipped_iff]
  simp only [← lookup?_eq_some_iff, lineOf?]
  obtain ⟨denotedClass, multiplicity⟩ := denoted name
  obtain ⟨pack, listed, kind⟩ := e
  rw [Option.bind_eq_bind, Option.bind_eq_some_iff]
  constructor
  · rintro ⟨header, found, taken⟩
    split at taken
    · cases taken
    · next kept =>
      cases taken
      simp only [Bool.or_eq_true, not_or] at kept
      refine ⟨kept.1.1, kept.1.2, rfl, .rfl, ?_, header, found, rfl⟩
      exact fun suffix => kept.2 (List.isSuffixOf_iff_suffix.mpr suffix)
  · rintro ⟨admitted, simple, same, kinds, no_star, header, found, packed⟩
    obtain rfl : denotedClass = listed := same
    have same_kind : kind = multiplicity := by
      cases kind <;> cases multiplicity <;> simp_all
    have kept : ¬ (isExcluded (exclusions extra) name || isSkipped name ||
        Text.endsWith ['*'] denotedClass) = true := by
      simp only [Bool.or_eq_true, not_or]
      exact ⟨⟨admitted, simple⟩, fun ends => no_star (List.isSuffixOf_iff_suffix.mp ends)⟩
    refine ⟨header, found, (if_neg kept).trans ?_⟩
    obtain rfl : pack = package header := packed
    rw [same_kind]

/-! ## 4. Entries of one class -/

/-- The entry of a class, once some entries have been added to a table: the last one for a
collection, then the one that was there, then the first one. -/
theorem get?_foldl_add (entries : List Entry) (chosen : Table Entry) (className : Text) :
    (entries.foldl add chosen).get? className =
      (entries.reverse.find? fun e => e.className = className ∧ e.multiplicity = .collection).or
        ((chosen.get? className).or (entries.find? fun e => e.className = className)) := by
  induction entries generalizing chosen with
  | nil => simp
  | cons e entries ih =>
    rw [List.foldl_cons, ih, List.reverse_cons, List.find?_append, Option.or_assoc, List.find?_cons,
      List.find?_cons, List.find?_nil]
    refine congrArg _ ?_
    by_cases own : e.className = className
    · cases kind : e.multiplicity with
      | collection => simp [add, kind, Table.get?_insert, own]
      | singleton =>
        cases there : chosen.get? className with
        | none => simp [add, kind, Table.get?_insertNew, own, there]
        | some old => simp [add, kind, Table.get?_insertNew, own, there]
    · have other : ¬ className = e.className := fun same => own same.symm
      cases kind : e.multiplicity with
      | collection => simp [add, kind, Table.get?_insert, own, other]
      | singleton => simp [add, kind, Table.get?_insertNew, own, other]

variable {entries : List Entry}

theorem exists_get?_foldl_add (mem : e ∈ entries) :
    ∃ kept, (entries.foldl add .empty).get? e.className = some kept := by
  rw [get?_foldl_add, Table.get?_empty, Option.none_or, ← Option.isSome_iff_exists,
    Option.isSome_or, Bool.or_eq_true]
  refine .inr (List.find?_isSome.mpr ⟨e, mem, ?_⟩)
  exact decide_eq_true rfl

/-- What the table holds for a class is one of its entries: one for a collection, if there is
any. -/
theorem of_get?_foldl_add (found : (entries.foldl add .empty).get? className = some e) :
    e ∈ entries ∧ e.className = className ∧
      (e.multiplicity = .collection ↔
        ∃ e' ∈ entries, e'.className = className ∧ e'.multiplicity = .collection) := by
  rw [get?_foldl_add, Table.get?_empty, Option.none_or, Option.or_eq_some_iff] at found
  rcases found with last | ⟨no_collection, first⟩
  · have mem := List.mem_reverse.mp (List.mem_of_find?_eq_some last)
    have chosen : e.className = className ∧ e.multiplicity = .collection := by
      simpa using List.find?_some last
    exact ⟨mem, chosen.1, fun _ => ⟨e, mem, chosen⟩, fun _ => chosen.2⟩
  · have mem := List.mem_of_find?_eq_some first
    have own : e.className = className := by simpa using List.find?_some first
    have none_there (e' : Entry) (mem : e' ∈ entries) :
        ¬ (e'.className = className ∧ e'.multiplicity = .collection) := by
      have missed := List.find?_eq_none.mp no_collection e' (List.mem_reverse.mpr mem)
      exact fun both => missed (decide_eq_true both)
    refine ⟨mem, own, fun kind => absurd ⟨own, kind⟩ (none_there e mem), ?_⟩
    rintro ⟨e', mem', both⟩
    exact absurd both (none_there e' mem')

/-- The entries of the table are those that it holds for their classes. -/
theorem mem_values_iff : e ∈ (entries.foldl add .empty).values ↔
    (entries.foldl add .empty).get? e.className = some e := by
  rw [Table.get?_eq_some_iff, Table.values, List.mem_map]
  constructor
  · rintro ⟨⟨key, value⟩, mem, rfl⟩
    have own := (of_get?_foldl_add (Table.get?_eq_some_iff.mpr mem)).2.1
    exact own ▸ mem
  · intro mem
    exact ⟨_, mem, rfl⟩

/-- The table has one entry for a class. -/
theorem nodup_values : ((entries.foldl add .empty).values.map Entry.className).Nodup := by
  have keys :
      (entries.foldl add .empty).values.map Entry.className = (entries.foldl add .empty).keys := by
    rw [Table.values, Table.keys, List.map_map]
    refine List.map_congr_left fun entry mem => ?_
    exact (of_get?_foldl_add (Table.get?_eq_some_iff.mpr mem)).2.1
  rw [keys]
  have ascending := (entries.foldl add .empty).ascending
  refine List.Pairwise.map _ (fun a b before => ?_) ascending
  exact fun same => List.lt_irrefl _ (same ▸ before)

/-! ## 5. The order of the lines -/

/-- The order of lines: by package, by class, and collections first. -/
def Entry.Before (a b : Entry) : Prop :=
  a.package < b.package ∨ a.package = b.package ∧ (a.className < b.className ∨
    a.className = b.className ∧ a.multiplicity = .collection ∧ b.multiplicity = .singleton)

theorem Entry.precedes_iff {a b : Entry} : a.precedes b = true ↔
    a.package < b.package ∨ a.package = b.package ∧ ¬ b.className < a.className := by
  simp [Entry.precedes, Text.precedes]

theorem Entry.precedes_trans (a b c : Entry) (ab : a.precedes b = true) (bc : b.precedes c = true) :
    a.precedes c = true := by
  rw [precedes_iff] at *
  rcases ab with ab | ⟨ab, class_ab⟩
  · rcases bc with bc | ⟨bc, -⟩
    · exact .inl (List.lt_trans ab bc)
    · exact .inl (bc ▸ ab)
  · rcases bc with bc | ⟨bc, class_bc⟩
    · exact .inl (ab ▸ bc)
    · refine .inr ⟨ab.trans bc, ?_⟩
      exact List.not_lt.mpr (List.le_trans (List.not_lt.mp class_ab) (List.not_lt.mp class_bc))

theorem Entry.precedes_total (a b : Entry) : (a.precedes b || b.precedes a) = true := by
  rw [Bool.or_eq_true, precedes_iff, precedes_iff]
  by_cases before : a.package < b.package
  · exact .inl (.inl before)
  by_cases same : a.package = b.package
  · rcases List.le_total a.className b.className with le | le
    · exact .inl (.inr ⟨same, List.not_lt.mpr le⟩)
    · exact .inr (.inr ⟨same.symm, List.not_lt.mpr le⟩)
  · exact .inr (.inl (lt_of_not_lt_of_ne before (Ne.symm same)))

theorem pairwise_before {lines : List Entry} (distinct : (lines.map Entry.className).Nodup) :
    (lines.mergeSort Entry.precedes).Pairwise Entry.Before := by
  have sorted := List.pairwise_mergeSort Entry.precedes_trans Entry.precedes_total lines
  have perm := List.mergeSort_perm lines Entry.precedes
  have apart : (lines.mergeSort Entry.precedes).Pairwise fun a b => a.className ≠ b.className :=
    List.pairwise_map.mp ((perm.map Entry.className).nodup_iff.mpr distinct)
  refine sorted.imp₂ (fun a b precedes other => ?_) apart
  rcases Entry.precedes_iff.mp precedes with before | ⟨same, not_behind⟩
  · exact .inl before
  · exact .inr ⟨same, .inl (lt_of_not_lt_of_ne not_behind other)⟩

/-! ## 6. The class list -/

/-- The entries that listed names give. -/
def offered (classes : List Text) (m : ClassMap) (extra : List Text) : List Entry :=
  (candidates classes).filterMap (lineOf? m (exclusions extra))

theorem mem_candidates_iff :
    name ∈ candidates classes ↔ (∃ spelled ∈ classes, name = Text.trim spelled) ∧ name ≠ [] := by
  rw [candidates, Text.sort, List.mem_mergeSort, List.mem_filter, List.mem_map]
  refine and_congr (exists_congr fun spelled => and_congr_right fun _ => eq_comm) ?_
  simp

theorem mem_offered_iff : e ∈ offered classes m extra ↔
    ∃ name, Offers classes extra name e.className ∧
      (e.multiplicity = .collection ↔ IsCollection name) ∧
      ¬ ['*'] <:+ e.className ∧ ∃ header, HeaderOf m e.className header ∧
        e.package = package header := by
  unfold offered
  rw [List.mem_filterMap]
  constructor
  · rintro ⟨name, candidate, gives⟩
    obtain ⟨listed, filled⟩ := mem_candidates_iff.mp candidate
    obtain ⟨admitted, simple, denotes, kind, no_star, packed⟩ := lineOf?_eq_some_iff.mp gives
    exact ⟨name, ⟨listed, filled, admitted, simple, denotes⟩, kind, no_star, packed⟩
  · rintro ⟨name, offers, kind, no_star, packed⟩
    refine ⟨name, mem_candidates_iff.mpr ⟨offers.listed, offers.filled⟩, lineOf?_eq_some_iff.mpr ?_⟩
    exact ⟨offers.admitted, offers.simple, offers.denotes, kind, no_star, packed⟩

/-- A name that offers a known class gives an entry for it, of the kind that the name says. -/
theorem exists_mem_offered (offers : Offers classes extra name className)
    (no_star : ¬ ['*'] <:+ className)
    (known : Knows m className) : ∃ e ∈ offered classes m extra, e.className = className ∧
      (e.multiplicity = .collection ↔ IsCollection name) := by
  obtain ⟨header, own⟩ := exists_header_iff.mpr known
  refine ⟨⟨package header, className, (denoted name).2⟩, mem_offered_iff.mpr ?_, rfl,
    isCollection_iff⟩
  exact ⟨name, offers, isCollection_iff, no_star, header, own, rfl⟩

/-- **A class list has one line for each class that is offered and known.**  The line has the
package of the header of the class, and it says that there is a collection if one of the names that
offer the class is one. The lines are in order. -/
theorem build_lines (classes extra : List Text) (m : ClassMap) :
    (∀ className, className ∈ (build classes m (exclusions extra)).map Entry.className ↔
      (∃ name, Offers classes extra name className) ∧ ¬ ['*'] <:+ className ∧ Knows m className) ∧
    ((build classes m (exclusions extra)).map Entry.className).Nodup ∧
    (∀ e ∈ build classes m (exclusions extra),
      (∃ header, HeaderOf m e.className header ∧ e.package = package header) ∧
      (e.multiplicity = .collection ↔
        ∃ name, Offers classes extra name e.className ∧ IsCollection name)) ∧
    (build classes m (exclusions extra)).Pairwise Entry.Before := by
  have mem_build {e : Entry} : e ∈ build classes m (exclusions extra) ↔
      ((offered classes m extra).foldl add .empty).get? e.className = some e :=
    List.mem_mergeSort.trans mem_values_iff
  have perm : (build classes m (exclusions extra)).Perm
      ((offered classes m extra).foldl add .empty).values :=
    List.mergeSort_perm _ _
  refine ⟨fun className => ?_, ?_, fun e mem => ?_, pairwise_before nodup_values⟩
  · rw [List.mem_map]
    constructor
    · rintro ⟨e, mem, rfl⟩
      obtain ⟨of_list, -, -⟩ := of_get?_foldl_add (mem_build.mp mem)
      obtain ⟨name, offers, -, no_star, header, own, -⟩ := mem_offered_iff.mp of_list
      exact ⟨⟨name, offers⟩, no_star, exists_header_iff.mp ⟨header, own⟩⟩
    · rintro ⟨⟨name, offers⟩, no_star, known⟩
      obtain ⟨e, of_list, rfl, -⟩ := exists_mem_offered offers no_star known
      obtain ⟨kept, found⟩ := exists_get?_foldl_add of_list
      have own := (of_get?_foldl_add found).2.1
      exact ⟨kept, mem_build.mpr (own ▸ found), own⟩
  · exact (perm.map Entry.className).nodup_iff.mpr nodup_values
  · obtain ⟨of_list, -, collection⟩ := of_get?_foldl_add (mem_build.mp mem)
    obtain ⟨name, offers, kind, no_star, header, own, packed⟩ := mem_offered_iff.mp of_list
    refine ⟨⟨header, own, packed⟩, collection.trans ⟨?_, ?_⟩⟩
    · rintro ⟨e', of_list', same, kind'⟩
      obtain ⟨name', offers', kinds, -⟩ := mem_offered_iff.mp of_list'
      exact ⟨name', same ▸ offers', kinds.mp kind'⟩
    · rintro ⟨name', offers', collects⟩
      obtain ⟨e', of_list', same, kind'⟩ :=
        exists_mem_offered offers' no_star (exists_header_iff.mp ⟨header, own⟩)
      exact ⟨e', of_list', same, kind'.mpr collects⟩

end ClassList
end AccessorCatalog

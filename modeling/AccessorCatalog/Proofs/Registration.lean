/-
# What a class map says of a name

A record registers its name and, if that has template arguments, the name of its template too.
Which records did so can be read off the class map, in closed form:

* `classMap_sightings`: a map that starts empty holds for every name the header of the first record
  that registers it, and behind it, each once, the headers of the later records of the template of
  that name;
* `updating_onlyAdds`: a map that is updated keeps what it has and adds for every other name the
  header of the first record that registers it, so that reading the same headers again adds nothing.

Both come from one lemma on one record (`get?_register`), which looks at a single name: a name that
is not there gets the record's header if the record registers it, and one that is there can only get
more headers, and only if the map is not being updated.

A template shows in the arguments of a name or in parameters (`showsTemplate`).  Registering
compares the name with its template instead, which comes to the same for a trimmed name
(`isTemplate_eq`), and all scanned names are trimmed.  A record that is made by hand can have
another name, and then counts as one of a template without being one (`sightings_untrimmed`).
-/
import AccessorCatalog.Proofs.Runs
import AccessorCatalog.Proofs.TrimmedNames

namespace AccessorCatalog

/-! ## 1. Lists of headers -/

namespace HeaderPaths

variable {h : HeaderPaths} {listed : List Text}

/-- What a class map holds for some headers: nothing for none, a path for one, a list for
several. -/
def ofPaths? : List Text → Option HeaderPaths
  | [] => none
  | [path] => some (one path)
  | paths => some (many paths)

theorem paths_of_ofPaths? (held : ofPaths? listed = some h) : h.paths = listed := by
  match listed with
  | [] => cases held
  | [path] => cases held; rfl
  | first :: second :: rest => cases held; rfl

theorem isSome_ofPaths?_iff : (ofPaths? listed).isSome = true ↔ listed ≠ [] := by
  match listed with
  | [] => simp [ofPaths?]
  | [path] => simp [ofPaths?]
  | first :: second :: rest => simp [ofPaths?]

/-- More headers behind the ones that are held leave the first of them where it is. -/
theorem exists_ofPaths?_of_prefix (held : ofPaths? listed = some h) {more : List Text}
    (before : listed <+: more) : ∃ h', ofPaths? more = some h' ∧ h'.primary = h.primary := by
  have seen : listed ≠ [] := by
    rw [← isSome_ofPaths?_iff, held]
    rfl
  obtain ⟨h', held'⟩ := Option.isSome_iff_exists.mp (isSome_ofPaths?_iff.mpr (before.ne_nil seen))
  refine ⟨h', held', ?_⟩
  unfold primary
  rw [paths_of_ofPaths? held, paths_of_ofPaths? held']
  obtain ⟨first, rest, rfl⟩ := List.exists_cons_of_ne_nil seen
  obtain ⟨later, rfl⟩ := before
  rfl

/-- A path stands for one header and no more. -/
theorem eq_one_iff (held : ofPaths? listed = some h) (path : Text) :
    h = one path ↔ h.paths = [path] := by
  rw [paths_of_ofPaths? held]
  match listed with
  | [] => cases held
  | [only] => cases held; simp
  | first :: second :: rest => cases held; simp

theorem ofPaths?_add (held : ofPaths? listed = some h) (path : Text) :
    ofPaths? (if path ∈ listed then listed else listed ++ [path]) = some (h.add path) := by
  unfold add
  rw [paths_of_ofPaths? held]
  by_cases known : path ∈ listed
  · rw [if_pos known, if_pos (List.contains_iff_mem.mpr known), held]
  · rw [if_neg known, if_neg (mt List.contains_iff_mem.mp known)]
    match listed with
    | [] => cases held
    | [only] => rfl
    | first :: second :: rest => rfl

/-- Headers that are added are held once each, in the order in which they came. -/
theorem ofPaths?_foldl_add {seen : List Text} (held : ofPaths? seen.eraseDups = some h)
    (more : List Text) : ofPaths? (seen ++ more).eraseDups = some (more.foldl add h) := by
  induction more generalizing h seen with
  | nil => rw [List.append_nil]; exact held
  | cons path more ih =>
    have once : (seen ++ [path]).eraseDups =
        if path ∈ seen.eraseDups then seen.eraseDups else seen.eraseDups ++ [path] := by
      rw [List.eraseDups_append]
      by_cases known : path ∈ seen
      · simp [known, List.removeAll]
      · simp [known, List.removeAll, List.eraseDups_cons]
    have next : ofPaths? (seen ++ [path]).eraseDups = some (h.add path) := by
      rw [once]
      exact ofPaths?_add held path
    rw [List.foldl_cons, ← ih next, List.append_assoc]
    rfl

end HeaderPaths

namespace Survey

open Outline (ClassOutline)

/-! ## 2. Names that a record registers -/

/-- A record registers a name: its own, or that of its template. -/
def Registers (r : ClassRecord) (name : Text) : Prop :=
  r.name = name ∨ ClassName.primary r.name = name

instance (r : ClassRecord) (name : Text) : Decidable (Registers r name) :=
  inferInstanceAs (Decidable (_ ∨ _))

/-- A template shows in a record: in the arguments of its name, or in parameters. -/
def showsTemplate (r : ClassRecord) : Bool :=
  ClassName.isInstance r.name || !r.templateParams.isEmpty

/-- A record is of the template of a name: of the template itself, or of an instance of it.  Which
records are templates or instances at all is given. -/
def OfTemplate (template : ClassRecord → Bool) (r : ClassRecord) (name : Text) : Prop :=
  ClassName.primary r.name = name ∧ template r = true

instance (template : ClassRecord → Bool) (r : ClassRecord) (name : Text) :
    Decidable (OfTemplate template r name) :=
  inferInstanceAs (Decidable (_ ∧ _))

/-- The headers in which a name is seen: that of the first record that registers it, and then, each
once, those of the later records of the template of that name. -/
def sightings (template : ClassRecord → Bool) (name : Text) : List ClassRecord → List Text
  | [] => []
  | r :: later =>
    if Registers r name then
      (r.header :: (later.filter fun r => OfTemplate template r name).map
        ClassRecord.header).eraseDups
    else sightings template name later

/-- The name of the template differs if the name has arguments, and if it is not trimmed. -/
theorem primary_ne_iff (name : Text) :
    ClassName.primary name ≠ name ↔ ClassName.isInstance name = true ∨ Text.trim name ≠ name := by
  unfold ClassName.primary ClassName.withoutArguments ClassName.isInstance Text.beforeChar
  rw [List.contains_iff_mem]
  by_cases bracket : '<' ∈ name
  · refine iff_of_true (fun same => ?_) (.inl bracket)
    rw [← same] at bracket
    have inside := (Source.trim_isInfix _).subset bracket
    simpa using List.mem_takeWhile_imp inside
  · have whole : name.takeWhile (· != '<') = name := by
      rw [List.takeWhile_eq_self_iff]
      intro c mem
      simpa using ne_of_mem_of_not_mem mem bracket
    rw [whole, or_iff_right bracket]

/-- What registering takes for a template: a record in which one shows, and one whose name is not
trimmed. -/
theorem isTemplate_eq (r : ClassRecord) :
    isTemplate r = (showsTemplate r || Text.trim r.name != r.name) := by
  rw [Bool.eq_iff_iff, isTemplate, showsTemplate]
  simp only [Bool.or_eq_true, bne_iff_ne, primary_ne_iff]
  exact or_right_comm

/-- Sightings look at the records of the template of a name only. -/
theorem sightings_congr {template template' : ClassRecord → Bool} {name : Text}
    {records : List ClassRecord}
    (same : ∀ r ∈ records, ClassName.primary r.name = name → template r = template' r) :
    sightings template name records = sightings template' name records := by
  induction records with
  | nil => rfl
  | cons r later ih =>
    have behind : ∀ r ∈ later, ClassName.primary r.name = name → template r = template' r :=
      fun r mem => same r (List.mem_cons_of_mem _ mem)
    have counted : (later.filter fun r => OfTemplate template r name) =
        later.filter fun r => OfTemplate template' r name := by
      refine List.filter_congr fun r mem => decide_eq_decide.mpr (and_congr_right fun primary => ?_)
      rw [behind r mem primary]
    rw [sightings, sightings, counted, ih behind]

/-! ## 3. One record -/

variable {m : ClassMap} {r : ClassRecord} {name : Text}

theorem get?_registerFull (m : ClassMap) (r : ClassRecord) (name : Text) :
    (registerFull m r).get? name =
      if name = r.name ∧ ClassName.primary r.name ≠ r.name then
        some ((m.get? name).getD (.one r.header))
      else m.get? name := by
  unfold registerFull ClassMap.insertPlain
  by_cases plain : ClassName.primary r.name = r.name
  · rw [if_pos plain, if_neg fun h => h.2 plain]
  · rw [if_neg plain, Table.get?_insertNew]
    by_cases own : name = r.name
    · rw [if_pos own, if_pos ⟨own, plain⟩, own]
    · rw [if_neg own, if_neg fun h => own h.1]

theorem get?_registerPrimary (m : ClassMap) (r : ClassRecord) (name : Text) :
    (registerPrimary m r).get? name =
      if ClassName.primary r.name = name then
        match m.get? name with
        | some paths => some (if isTemplate r then paths.add r.header else paths)
        | none => some (.one r.header)
      else m.get? name := by
  unfold registerPrimary ClassMap.insertTemplate ClassMap.insertPlain
  dsimp only
  by_cases own : ClassName.primary r.name = name
  · subst own
    rw [if_pos rfl]
    cases template : isTemplate r with
    | true =>
      rw [if_pos rfl]
      cases known : m.get? (ClassName.primary r.name) with
      | none => exact (Table.get?_insert _ _ _ _).trans (if_pos rfl)
      | some paths => exact (Table.get?_insert _ _ _ _).trans (if_pos rfl)
    | false =>
      rw [if_neg (by decide), Table.get?_insertNew, if_pos rfl]
      cases known : m.get? (ClassName.primary r.name) <;> rfl
  · have other : name ≠ ClassName.primary r.name := Ne.symm own
    rw [if_neg own]
    split
    · split
      · rw [Table.get?_insert, if_neg other]
      · rw [Table.get?_insert, if_neg other]
    · rw [Table.get?_insertNew, if_neg other]

/-- What a record does to the name of its template. -/
theorem get?_register_primary (updating : Bool) (m : ClassMap)
    (primary : ClassName.primary r.name = name) :
    (register updating m r).get? name =
      match m.get? name with
      | some paths =>
        some (if updating = false ∧ isTemplate r = true then paths.add r.header else paths)
      | none => some (.one r.header) := by
  have full : (registerFull m r).get? name = m.get? name := by
    rw [get?_registerFull, if_neg]
    rintro ⟨own, differs⟩
    exact differs (primary.trans own)
  unfold register
  dsimp only
  rw [primary, Table.contains, full]
  cases known : m.get? name with
  | none =>
    simp only [Option.isSome_none, Bool.and_false, Bool.false_eq_true, if_false]
    rw [get?_registerPrimary, if_pos primary, full, known]
  | some paths =>
    cases updating with
    | true =>
      simp only [Option.isSome_some, Bool.and_true, if_true]
      rw [full, known]
      simp
    | false =>
      simp only [Option.isSome_some, Bool.and_true, Bool.false_eq_true, if_false]
      rw [get?_registerPrimary, if_pos primary, full, known]
      simp

/-- What a record does to another name. -/
theorem get?_register_other (updating : Bool) (m : ClassMap)
    (other : ClassName.primary r.name ≠ name) :
    (register updating m r).get? name =
      if r.name = name then some ((m.get? name).getD (.one r.header)) else m.get? name := by
  have full : (register updating m r).get? name = (registerFull m r).get? name := by
    unfold register
    dsimp only
    split
    · rfl
    · rw [get?_registerPrimary, if_neg other]
  rw [full, get?_registerFull]
  by_cases own : r.name = name
  · rw [if_pos own, if_pos ⟨own.symm, fun same => other (same.trans own)⟩]
  · rw [if_neg own, if_neg fun both => own both.1.symm]

/-- **What one record does to one name.**  A name that is not there gets the record's header if the
record registers it.  One that is there gets the header if the record is of its template, unless the
map is being updated. -/
theorem get?_register (updating : Bool) (m : ClassMap) (r : ClassRecord) (name : Text) :
    (register updating m r).get? name =
      match m.get? name with
      | some paths =>
        some (if updating = false ∧ OfTemplate isTemplate r name then paths.add r.header else paths)
      | none => if Registers r name then some (.one r.header) else none := by
  by_cases primary : ClassName.primary r.name = name
  · rw [get?_register_primary updating m primary]
    cases m.get? name with
    | none => simp [Registers, primary]
    | some paths => simp [OfTemplate, primary]
  · rw [get?_register_other updating m primary]
    cases m.get? name with
    | none => simp [Registers, primary]
    | some paths => simp [OfTemplate, primary]

/-! ## 4. Many records -/

/-- In a map that is not being updated, a name that is there gets the headers of its template. -/
theorem get?_foldl_register_known {paths : HeaderPaths} (known : m.get? name = some paths)
    (records : List ClassRecord) :
    (records.foldl (register false) m).get? name =
      some (((records.filter fun r => OfTemplate isTemplate r name).map ClassRecord.header).foldl
        HeaderPaths.add paths) := by
  induction records generalizing m paths with
  | nil => exact known
  | cons r records ih =>
    have next := get?_register false m r name
    rw [known] at next
    rw [List.foldl_cons, ih next, List.filter_cons]
    by_cases template : OfTemplate isTemplate r name
    · simp [template]
    · simp [template]

/-- **A map that has no header of a name before holds its sightings afterwards.** -/
theorem get?_foldl_register (unknown : m.get? name = none) (records : List ClassRecord) :
    (records.foldl (register false) m).get? name =
      HeaderPaths.ofPaths? (sightings isTemplate name records) := by
  induction records generalizing m with
  | nil => exact unknown
  | cons r records ih =>
    have next := get?_register false m r name
    rw [unknown] at next
    dsimp only at next
    rw [List.foldl_cons, sightings]
    split_ifs at next ⊢
    · rw [get?_foldl_register_known next]
      have first : HeaderPaths.ofPaths? [r.header].eraseDups = some (.one r.header) := rfl
      exact (HeaderPaths.ofPaths?_foldl_add first _).symm
    · exact ih next

theorem sightings_ne_nil_iff (template : ClassRecord → Bool) (name : Text)
    (records : List ClassRecord) :
    sightings template name records ≠ [] ↔ ∃ r ∈ records, Registers r name := by
  induction records with
  | nil => simp [sightings]
  | cons r records ih =>
    rw [sightings, List.exists_mem_cons_iff]
    by_cases registers : Registers r name
    · simp [registers, List.eraseDups_cons]
    · simp [registers, ih]

/-- Later records only add sightings behind the earlier ones. -/
theorem sightings_prefix_append (template : ClassRecord → Bool) (name : Text)
    (records more : List ClassRecord) :
    sightings template name records <+: sightings template name (records ++ more) := by
  induction records with
  | nil => exact List.nil_prefix
  | cons r records ih =>
    rw [List.cons_append, sightings, sightings]
    by_cases registers : Registers r name
    · rw [if_pos registers, if_pos registers, List.filter_append, List.map_append,
        ← List.cons_append, List.eraseDups_append]
      exact List.prefix_append _ _
    · rw [if_neg registers, if_neg registers]
      exact ih

/-- In a map that is being updated, a name that is there keeps what it has, and another gets the
header of the first record that registers it. -/
theorem get?_foldl_register_updating (m : ClassMap) (records : List ClassRecord) (name : Text) :
    (records.foldl (register true) m).get? name =
      (m.get? name).or
        ((records.find? fun r => Registers r name).map fun r => HeaderPaths.one r.header) := by
  induction records generalizing m with
  | nil => rw [List.foldl_nil, List.find?_nil, Option.map_none, Option.or_none]
  | cons r records ih =>
    rw [List.foldl_cons, ih, get?_register, List.find?_cons]
    cases m.get? name with
    | some paths => simp
    | none =>
      by_cases registers : Registers r name
      · simp [registers]
      · simp [registers]

/-! ## 5. The class map behind a run -/

variable {s : Survey} {limit : Nat}

theorem Knowledge.map_foldl_mergeClass (k : Knowledge) (classes : List ClassOutline) :
    (classes.foldl mergeClass k).map =
      (classes.map ClassOutline.record).foldl (register k.updating) k.map := by
  induction classes generalizing k with
  | nil => rfl
  | cons c classes ih => exact ih (k.mergeClass c)

theorem map_after (reached : s.Reached) (calls : List Call) :
    (s.after calls).knowledge.map =
      (mergedRecords s.knowledge.settings.maxConstruct calls).foldl (register s.knowledge.updating)
        s.knowledge.map := by
  rw [knowledge_after reached.inOrder.graph, Knowledge.foldl_mergeHeader_eq]
  exact Knowledge.map_foldl_mergeClass _ _

/-- The records of scanned headers have trimmed names. -/
theorem trim_of_mem_mergedRecords {calls : List Call} (scans : ∀ headers, .merge headers ∉ calls) :
    ∀ r ∈ mergedRecords limit calls, Text.trim r.name = r.name := by
  intro r mem
  obtain ⟨c, found, rfl⟩ := List.mem_map.mp mem
  obtain ⟨parsed, merged, found⟩ := List.mem_flatMap.mp found
  obtain ⟨call, made, merged⟩ := List.mem_flatMap.mp merged
  cases call with
  | merge headers => exact absurd made (scans headers)
  | ask question => cases merged
  | scan headers =>
    obtain ⟨h, -, rfl⟩ := List.mem_map.mp merged
    unfold ParsedHeader.classes Header.parse at found
    dsimp only at found
    split at found
    · next cs accepted => exact Outline.trim_of_mem_classes accepted c found
    · cases found

/-- **The class map says where each name was seen.**  After any records, a map that started empty
and was not being updated has a name exactly if one of them registers it.  Then it holds the
sightings of the name, as a path exactly if there is one only, and the first of them stays the
first.

The templates that count for sightings are the records in which one shows, as far as the names of
the records of that template are trimmed; a name that is not trimmed counts as well.  So it is with
the map behind any run, for the records that the run merges; and those of scanned headers have
trimmed names. -/
theorem classMap_sightings (records : List ClassRecord) :
    let m : ClassMap := records.foldl (register false) .empty
    (∀ name, m.contains name = true ↔ ∃ r ∈ records, Registers r name) ∧
      (∀ name paths, m.get? name = some paths →
        ((∀ r ∈ records, ClassName.primary r.name = name → Text.trim r.name = r.name) →
            paths.paths = sightings showsTemplate name records) ∧
          paths.paths =
            sightings (fun r => showsTemplate r || Text.trim r.name != r.name) name records ∧
          (∀ path, paths = .one path ↔ paths.paths = [path]) ∧
            ∀ more : List ClassRecord, ∃ paths',
              (more.foldl (register false) m).get? name = some paths' ∧
                paths'.primary = paths.primary) ∧
      ∀ settings oracle listings calls,
        ((opened settings oracle .empty false listings).after calls).knowledge.map =
            (mergedRecords settings.maxConstruct calls).foldl (register false) .empty ∧
          ((∀ headers, .merge headers ∉ calls) →
            ∀ r ∈ mergedRecords settings.maxConstruct calls, Text.trim r.name = r.name) := by
  intro m
  have closed (records : List ClassRecord) (name : Text) :
      (records.foldl (register false) (.empty : ClassMap)).get? name =
        HeaderPaths.ofPaths? (sightings isTemplate name records) :=
    get?_foldl_register (Table.get?_empty name) records
  refine ⟨fun name => ?_, fun name paths held => ?_,
    fun settings oracle listings calls => ⟨?_, trim_of_mem_mergedRecords⟩⟩
  · rw [Table.contains, closed, HeaderPaths.isSome_ofPaths?_iff, sightings_ne_nil_iff]
  · rw [closed] at held
    have listed : paths.paths = sightings isTemplate name records :=
      HeaderPaths.paths_of_ofPaths? held
    refine ⟨fun trimmed => ?_, ?_, HeaderPaths.eq_one_iff held, fun more => ?_⟩
    · rw [listed]
      refine sightings_congr fun r mem primary => ?_
      rw [isTemplate_eq, trimmed r mem primary, bne_self_eq_false, Bool.or_false]
    · rw [listed]
      exact sightings_congr fun r _ _ => isTemplate_eq r
    · rw [← List.foldl_append, closed]
      exact HeaderPaths.exists_ofPaths?_of_prefix held
        (sightings_prefix_append isTemplate name records more)
  · exact map_after (reached_opened settings oracle .empty false listings) calls

/-- A template, two of its instances, and a plain class of the same name. -/
def boxRecords : List ClassRecord :=
  [⟨"Box<int>".toList, [], [], "b.h".toList⟩, ⟨"Box".toList, [], [], "c.h".toList⟩,
    ⟨"Box".toList, [], ["T".toList], "a.h".toList⟩, ⟨"Box<char>".toList, [], [], "b.h".toList⟩]

/-- The plain class adds no header, and no header is held twice. -/
theorem classMap_sightings_boxes :
    (boxRecords.foldl (register false) (.empty : ClassMap)).get? "Box".toList =
        some (.many ["b.h".toList, "a.h".toList]) ∧
      (∀ r ∈ boxRecords, ClassName.primary r.name = "Box".toList → Text.trim r.name = r.name) ∧
      sightings showsTemplate "Box".toList boxRecords = ["b.h".toList, "a.h".toList] := by
  have held : (boxRecords.foldl (register false) (.empty : ClassMap)).get? "Box".toList =
      some (.many ["b.h".toList, "a.h".toList]) := by decide
  have trimmed : ∀ r ∈ boxRecords,
      ClassName.primary r.name = "Box".toList → Text.trim r.name = r.name := by decide
  exact ⟨held, trimmed, (((classMap_sightings boxRecords).2.1 _ _ held).1 trimmed).symm⟩

/-- Two plain classes whose names differ in a blank. -/
def spacedRecords : List ClassRecord :=
  [⟨"A".toList, [], [], "a.h".toList⟩, ⟨"A ".toList, [], [], "b.h".toList⟩]

/-- Their headers, made by hand. -/
def spacedHeaders : List ParsedHeader :=
  spacedRecords.map fun r => ⟨r.header, .ok [⟨r, false, [], []⟩]⟩

theorem mergedRecords_spacedHeaders (limit : Nat) :
    mergedRecords limit [.merge spacedHeaders] = spacedRecords := by
  have sorted : SortedByPath ParsedHeader.path spacedHeaders :=
    List.pairwise_pair.mpr (by decide)
  rw [mergedRecords, mergedHeaders, List.flatMap_singleton, Call.merged,
    sortByPath_of_sorted sorted]
  rfl

/-- **A name that is not trimmed counts as one of a template.**  No template shows in either record,
so the name without the blank would be sighted in the first header only; the class map has both. -/
theorem sightings_untrimmed :
    mergedRecords 5000 [.merge spacedHeaders] = spacedRecords ∧
      (∀ r ∈ spacedRecords, showsTemplate r = false) ∧
      sightings showsTemplate "A".toList spacedRecords = ["a.h".toList] ∧
      ((opened {} .ignorant .empty false .empty).after [.merge spacedHeaders]).knowledge.map.get?
          "A".toList = some (.many ["a.h".toList, "b.h".toList]) := by
  refine ⟨mergedRecords_spacedHeaders 5000, by decide, by decide, ?_⟩
  rw [map_after (reached_opened {} .ignorant .empty false .empty), mergedRecords_spacedHeaders]
  decide

/-! ## 6. What is known already -/

theorem register_of_known {m : ClassMap} {r : ClassRecord}
    (known : ∀ name, Registers r name → m.contains name = true) : register true m r = m := by
  have full : registerFull m r = m := by
    unfold registerFull ClassMap.insertPlain
    split
    · rfl
    · exact Table.insertNew_of_contains (known r.name (.inl rfl)) _
  unfold register
  dsimp only
  rw [full, known _ (.inr rfl)]
  rfl

theorem foldl_register_of_known {m : ClassMap} {records : List ClassRecord}
    (known : ∀ r ∈ records, ∀ name, Registers r name → m.contains name = true) :
    records.foldl (register true) m = m := by
  induction records with
  | nil => rfl
  | cons r records ih =>
    rw [List.foldl_cons, register_of_known (known r List.mem_cons_self)]
    exact ih fun later mem => known later (List.mem_cons_of_mem r mem)

namespace Knowledge

variable {k : Knowledge}

/-- Nothing of a class is new: the map has the names of its record, and a class of its name has been
read. -/
def Has (k : Knowledge) (c : ClassOutline) : Prop :=
  (∀ name, Registers c.record name → k.map.contains name = true) ∧
    k.classes.contains c.record.name = true

/-- Classes of which nothing is new change nothing. -/
theorem foldl_mergeClass_of_has (updating : k.updating = true) {classes : List ClassOutline}
    (known : ∀ c ∈ classes, k.Has c) : classes.foldl mergeClass k = k := by
  induction classes with
  | nil => rfl
  | cons c classes ih =>
    obtain ⟨named, stored⟩ := known c List.mem_cons_self
    have same : k.mergeClass c = k := by
      unfold mergeClass
      rw [updating, register_of_known named, Table.insertNew_of_contains stored, ← updating]
    rw [List.foldl_cons, same]
    exact ih fun later mem => known later (List.mem_cons_of_mem c mem)

theorem contains_classes_foldl_mergeClass (k : Knowledge) (classes : List ClassOutline)
    (name : Text) :
    (classes.foldl mergeClass k).classes.contains name = true ↔
      k.classes.contains name = true ∨ ∃ c ∈ classes, c.record.name = name := by
  induction classes generalizing k with
  | nil => simp
  | cons c classes ih =>
    have next : (k.mergeClass c).classes.contains name = true ↔
        k.classes.contains name = true ∨ c.record.name = name := by
      show ((k.classes.insertNew c.record.name c).get? name).isSome = true ↔ _
      rw [Table.get?_insertNew]
      by_cases same : name = c.record.name
      · simp [same]
      · simp [same, Ne.symm same, Table.contains]
    rw [List.foldl_cons, ih, next, List.exists_mem_cons_iff, or_assoc]

/-- Of a class that has been merged, nothing is new. -/
theorem has_foldl_mergeClass (updating : k.updating = true) (classes : List ClassOutline) :
    ∀ c ∈ classes, (classes.foldl mergeClass k).Has c := by
  intro c mem
  have listed : c.record ∈ classes.map ClassOutline.record := List.mem_map_of_mem mem
  refine ⟨fun name registers => ?_, ?_⟩
  · rw [map_foldl_mergeClass, updating, Table.contains, get?_foldl_register_updating,
      Option.isSome_or, Option.isSome_map, Bool.or_eq_true, List.find?_isSome]
    exact .inr ⟨c.record, listed, decide_eq_true registers⟩
  · rw [contains_classes_foldl_mergeClass]
    exact .inr ⟨c, mem, rfl⟩

end Knowledge

theorem classes_subset {headers again : List ParsedHeader} (inside : again ⊆ headers) :
    again.flatMap ParsedHeader.classes ⊆ headers.flatMap ParsedHeader.classes := by
  intro c found
  obtain ⟨h, merged, found⟩ := List.mem_flatMap.mp found
  exact List.mem_flatMap.mpr ⟨h, inside merged, found⟩

/-- Of the classes that a run has merged, nothing is new. -/
theorem has_after (reached : s.Reached) (updating : s.knowledge.updating = true)
    (calls : List Call) :
    ∀ c ∈ (mergedHeaders s.knowledge.settings.maxConstruct calls).flatMap ParsedHeader.classes,
      (s.after calls).knowledge.Has c := by
  rw [knowledge_after reached.inOrder.graph, Knowledge.foldl_mergeHeader_eq]
  exact Knowledge.has_foldl_mergeClass updating _

/-- No call changes the settings, or whether the map is being updated. -/
theorem mode_after (reached : s.Reached) (calls : List Call) :
    (s.after calls).knowledge.settings = s.knowledge.settings ∧
      (s.after calls).knowledge.updating = s.knowledge.updating := by
  rw [knowledge_after reached.inOrder.graph]
  exact Knowledge.foldl_mergeHeader_keeps
    (P := fun k => k.settings = s.knowledge.settings ∧ k.updating = s.knowledge.updating)
    (fun _ _ same => same) ⟨rfl, rfl⟩ _

/-- **Updating only adds.**  Behind any run of a survey that updates a class map, a name of the
given map keeps what it had, and any other name is there exactly if a merged record registers it,
with the header of the first that does.  So headers that have been merged add nothing when they come
again: neither to the survey, nor to the map that another survey updates. -/
theorem updating_onlyAdds (settings : Settings) (oracle : Reflection.Oracle) (map : ClassMap)
    (listings : Table Listing) (calls : List Call) :
    let s := (opened settings oracle map true listings).after calls
    let headers := mergedHeaders settings.maxConstruct calls
    let records := mergedRecords settings.maxConstruct calls
    (∀ name paths, map.get? name = some paths → s.knowledge.map.get? name = some paths) ∧
      (∀ name, map.contains name = false →
        (s.knowledge.map.contains name = true ↔ ∃ r ∈ records, Registers r name) ∧
          s.knowledge.map.get? name =
            (records.find? fun r => Registers r name).map fun r => .one r.header) ∧
      (∀ again, mergedHeaders settings.maxConstruct again ⊆ headers →
        (s.after again).knowledge = s.knowledge) ∧
      ∀ settings' oracle' listings' again, mergedHeaders settings'.maxConstruct again ⊆ headers →
        ((opened settings' oracle' s.knowledge.map true listings').after again).knowledge.map =
          s.knowledge.map := by
  intro s headers records
  have start := reached_opened settings oracle map true listings
  have closed (name : Text) : s.knowledge.map.get? name = (map.get? name).or
      ((records.find? fun r => Registers r name).map fun r => HeaderPaths.one r.header) := by
    rw [map_after start]
    exact get?_foldl_register_updating map records name
  have known : ∀ c ∈ headers.flatMap ParsedHeader.classes, s.knowledge.Has c :=
    has_after start rfl calls
  refine ⟨fun name paths held => ?_, fun name absent => ?_, fun again inside => ?_,
    fun settings' oracle' listings' again inside => ?_⟩
  · rw [closed, held, Option.some_or]
  · have nothing : map.get? name = none := by
      rw [← Option.isNone_iff_eq_none, ← Option.not_isSome, ← Table.contains, absent]
      rfl
    refine ⟨?_, by rw [closed, nothing, Option.none_or]⟩
    rw [Table.contains, closed, nothing, Option.none_or, Option.isSome_map, List.find?_isSome]
    simp only [decide_eq_true_eq]
  · obtain ⟨settings_eq, updating⟩ := mode_after start calls
    have drawn := (start.after calls).inOrder.graph
    have limit_eq : s.knowledge.settings.maxConstruct = settings.maxConstruct :=
      congrArg Settings.maxConstruct settings_eq
    have nothing_new :
        ∀ c ∈ (mergedHeaders settings.maxConstruct again).flatMap ParsedHeader.classes,
          s.knowledge.Has c :=
      fun c found => known c (classes_subset inside found)
    rw [knowledge_after drawn, limit_eq, Knowledge.foldl_mergeHeader_eq,
      Knowledge.foldl_mergeClass_of_has updating nothing_new, ← Knowledge.eq_redrawn drawn]
  · rw [map_after (reached_opened settings' oracle' s.knowledge.map true listings')]
    refine foldl_register_of_known fun r mem => ?_
    obtain ⟨c, found, rfl⟩ := List.mem_map.mp mem
    exact (known c (classes_subset inside found)).1

end Survey
end AccessorCatalog

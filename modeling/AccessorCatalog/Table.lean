/-
# Tables

A table is a finite map from texts, kept as its entries in increasing order of their keys.  The
order is part of the type, so a table is determined by what it answers, and listing it needs no
sorting.

* `get?_insert`, `get?_insertNew`: what an insertion changes;
* `insertNew_of_contains`: what `insertNew` does not change;
* `get?_eq_some_iff`: the answers of a table are its entries;
* `get?_ofList`: of a list of entries the last one of a key counts;
* `ofList_entries`: a table is the table of its entries.
-/
import AccessorCatalog.Text.Basic

namespace AccessorCatalog

/-- The entries have strictly increasing keys. -/
def Ascending {α : Type} (entries : List (Text × α)) : Prop :=
  entries.Pairwise fun a b => a.1 < b.1

/-- Puts an entry in its place, instead of one with the same key. -/
def insertEntry {α : Type} (key : Text) (value : α) : List (Text × α) → List (Text × α)
  | [] => [(key, value)]
  | entry :: entries =>
    if key < entry.1 then (key, value) :: entry :: entries
    else if key = entry.1 then (key, value) :: entries
    else entry :: insertEntry key value entries

/-- Of two texts that differ, one comes before the other. -/
theorem lt_of_not_lt_of_ne {s t : Text} (not_lt : ¬ s < t) (ne : t ≠ s) : t < s :=
  @Std.lt_of_le_of_ne Text List.instLE List.instLT _ _ t s (List.not_lt.1 not_lt) ne

theorem mem_insertEntry {α : Type} {key : Text} {value : α} {entries : List (Text × α)}
    {e : Text × α} (h : e ∈ insertEntry key value entries) : e = (key, value) ∨ e ∈ entries := by
  induction entries with
  | nil => simpa [insertEntry] using h
  | cons entry entries ih =>
    unfold insertEntry at h
    split at h
    · simpa using h
    · split at h
      · rcases List.mem_cons.1 h with rfl | h
        · exact .inl rfl
        · exact .inr (List.mem_cons_of_mem _ h)
      · rcases List.mem_cons.1 h with rfl | h
        · exact .inr List.mem_cons_self
        · rcases ih h with rfl | h
          · exact .inl rfl
          · exact .inr (List.mem_cons_of_mem _ h)

theorem Ascending.insertEntry {α : Type} {entries : List (Text × α)} (h : Ascending entries)
    (key : Text) (value : α) : Ascending (insertEntry key value entries) := by
  induction entries with
  | nil => simp [AccessorCatalog.insertEntry, Ascending]
  | cons entry entries ih =>
    obtain ⟨first, rest⟩ := List.pairwise_cons.1 h
    unfold AccessorCatalog.insertEntry
    split
    · next lt =>
      refine List.pairwise_cons.2 ⟨fun e he => ?_, h⟩
      rcases List.mem_cons.1 he with rfl | he
      · exact lt
      · exact List.lt_trans lt (first e he)
    · next not_lt =>
      split
      · next eq =>
        exact List.pairwise_cons.2 ⟨fun e he => eq ▸ first e he, rest⟩
      · next ne =>
        refine List.pairwise_cons.2 ⟨fun e he => ?_, ih rest⟩
        rcases mem_insertEntry he with rfl | he
        · exact lt_of_not_lt_of_ne not_lt (Ne.symm ne)
        · exact first e he

/-- A finite map from texts. -/
structure Table (α : Type) where
  entries : List (Text × α)
  ascending : Ascending entries

namespace Table

variable {α : Type}

/-- The table without entries. -/
def empty : Table α :=
  ⟨[], List.Pairwise.nil⟩

instance : Inhabited (Table α) := ⟨empty⟩

/-- The value of a key. -/
def get? (t : Table α) (key : Text) : Option α :=
  t.entries.lookup key

/-- Whether a key has a value. -/
def contains (t : Table α) (key : Text) : Bool :=
  (t.get? key).isSome

/-- The table in which a key has the given value. -/
def insert (t : Table α) (key : Text) (value : α) : Table α :=
  ⟨insertEntry key value t.entries, t.ascending.insertEntry key value⟩

/-- The table in which a key that has no value yet has the given one. -/
def insertNew (t : Table α) (key : Text) (value : α) : Table α :=
  if t.contains key then t else t.insert key value

/-- The keys in increasing order. -/
def keys (t : Table α) : List Text :=
  t.entries.map Prod.fst

/-- The values in the order of their keys. -/
def values (t : Table α) : List α :=
  t.entries.map Prod.snd

/-- The number of keys. -/
def size (t : Table α) : Nat :=
  t.entries.length

/-- The table of a list of entries, in which later ones replace earlier ones. -/
def ofList (entries : List (Text × α)) : Table α :=
  entries.foldl (fun t (key, value) => t.insert key value) empty

theorem lookup_entry_cons (other : Text) (entry : Text × α) (entries : List (Text × α)) :
    (entry :: entries).lookup other =
      if other = entry.1 then some entry.2 else entries.lookup other := by
  obtain ⟨key, value⟩ := entry
  by_cases h : other = key
  · subst h
    simp [List.lookup_cons_self]
  · have : (other == key) = false := by simpa using h
    simp [List.lookup_cons, this, h]

theorem lookup_insertEntry (key other : Text) (value : α) (entries : List (Text × α)) :
    (insertEntry key value entries).lookup other =
      if other = key then some value else entries.lookup other := by
  induction entries with
  | nil => rw [insertEntry, lookup_entry_cons]
  | cons entry entries ih =>
    unfold insertEntry
    split
    · rw [lookup_entry_cons]
    · split
      · next eq =>
        rw [lookup_entry_cons, lookup_entry_cons, ← eq]
        split <;> rfl
      · next ne =>
        rw [lookup_entry_cons, ih, lookup_entry_cons]
        by_cases h : other = entry.1
        · have : ¬ other = key := fun e => ne (e ▸ h)
          rw [if_pos h, if_neg this, if_pos h]
        · rw [if_neg h, if_neg h]

@[simp] theorem get?_empty (key : Text) : (empty : Table α).get? key = none := rfl

theorem get?_insert (t : Table α) (key other : Text) (value : α) :
    (t.insert key value).get? other = if other = key then some value else t.get? other :=
  lookup_insertEntry key other value t.entries

/-- What a list of entries says of a key is one of its entries. -/
theorem mem_of_lookup {key : Text} {value : α} : ∀ {entries : List (Text × α)},
    entries.lookup key = some value → (key, value) ∈ entries
  | [], h => by simp at h
  | entry :: entries, h => by
    rw [lookup_entry_cons] at h
    split at h
    · next eq =>
      obtain ⟨_, _⟩ := entry
      simp only [Option.some.injEq] at h
      subst h eq
      exact List.mem_cons_self
    · exact List.mem_cons_of_mem _ (mem_of_lookup h)

/-- An entry of a table is what the table says of its key. -/
theorem get?_eq_some_iff {t : Table α} {key : Text} {value : α} :
    t.get? key = some value ↔ (key, value) ∈ t.entries := by
  refine ⟨mem_of_lookup, fun mem => ?_⟩
  obtain ⟨entries, ascending⟩ := t
  show entries.lookup key = some value
  induction entries with
  | nil => cases mem
  | cons entry entries ih =>
    obtain ⟨first, rest⟩ := List.pairwise_cons.mp ascending
    rw [lookup_entry_cons]
    rcases List.mem_cons.mp mem with rfl | mem
    · exact if_pos rfl
    · have ne : key ≠ entry.1 := fun same => List.lt_irrefl _ (same ▸ first _ mem)
      rw [if_neg ne, ih rest mem]

/-- In a table of a list of entries, the last one of each key counts. -/
theorem get?_ofList (entries : List (Text × α)) (key : Text) :
    (ofList entries).get? key = entries.reverse.lookup key := by
  have from_table (t : Table α) :
      (entries.foldl (fun t (key, value) => t.insert key value) t).get? key =
      (entries.reverse.lookup key).or (t.get? key) := by
    induction entries generalizing t with
    | nil => rfl
    | cons entry entries ih =>
      rw [List.foldl_cons, ih, get?_insert, List.reverse_cons, List.lookup_append, Option.or_assoc,
        lookup_entry_cons]
      split <;> rfl
  rw [ofList, from_table, get?_empty, Option.or_none]

/-- An entry whose key comes behind all others goes to the end. -/
theorem insertEntry_behind {key : Text} {value : α} {entries : List (Text × α)}
    (behind : ∀ entry ∈ entries, entry.1 < key) :
    insertEntry key value entries = entries ++ [(key, value)] := by
  induction entries with
  | nil => rfl
  | cons entry entries ih =>
    have before : entry.1 < key := behind entry List.mem_cons_self
    have rest := ih fun other mem => behind other (List.mem_cons_of_mem entry mem)
    unfold insertEntry
    rw [if_neg (List.lt_asymm before), if_neg, rest, List.cons_append]
    rintro rfl
    exact List.lt_irrefl _ before

/-- A table is the table of its entries. -/
theorem ofList_entries (t : Table α) : ofList t.entries = t := by
  have inserted (more : List (Text × α)) (t : Table α) (ascending : Ascending (t.entries ++ more)) :
      (more.foldl (fun t (key, value) => t.insert key value) t).entries = t.entries ++ more := by
    induction more generalizing t with
    | nil => exact (List.append_nil _).symm
    | cons entry more ih =>
      have last : (t.insert entry.1 entry.2).entries = t.entries ++ [entry] :=
        insertEntry_behind fun other mem =>
          (List.pairwise_append.mp ascending).2.2 other mem entry List.mem_cons_self
      have next := ih (t.insert entry.1 entry.2)
      rw [last, List.append_assoc] at next
      exact next ascending
  have same : (ofList t.entries).entries = t.entries := inserted t.entries empty t.ascending
  generalize ofList t.entries = other at same
  cases other
  cases t
  cases same
  rfl

theorem insertNew_of_contains {t : Table α} {key : Text} (h : t.contains key = true) (value : α) :
    t.insertNew key value = t := by
  simp [insertNew, h]

theorem get?_insertNew (t : Table α) (key other : Text) (value : α) :
    (t.insertNew key value).get? other =
      if other = key then some ((t.get? key).getD value) else t.get? other := by
  unfold insertNew contains
  cases known : t.get? key with
  | none => simp [get?_insert]
  | some old =>
    by_cases same : other = key
    · simp [same, known]
    · simp [same]

end Table
end AccessorCatalog

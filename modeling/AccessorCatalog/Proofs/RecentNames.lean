/-
# What a cache remembers

A cache saves questions and changes no answer.  `answersTo_ofCapacity` says so of every row of
questions: the answers are those of the oracle, and what the cache holds behind them is determined
by the *history* alone, which is the list of the names asked about, the latest first.

`recent` are the last distinct names of a history, as many as there is room for, and `newNames`
those that were not recent when they were asked about.  A cache that has seen a history holds the
recent names in their order and has counted the new ones (`Remembers`), and one more question keeps
that up (`Remembers.ask_snd`): whether it is answered from memory or by the oracle, its name comes
to the front, and the others stay behind it as far as there is room (`recent_cons_of_mem`,
`recent_cons_of_not_mem`).
-/
import AccessorCatalog.Reflection.Cache
import Mathlib.Data.List.Nodup
import Mathlib.Data.List.Perm.Subperm

namespace AccessorCatalog

/-! ## 1. Distinct names -/

section Distinct

variable {α : Type} [BEq α] [LawfulBEq α]

theorem eraseDups_filter (p : α → Bool) (as : List α) :
    (as.filter p).eraseDups = as.eraseDups.filter p := by
  induction hn : as.length using Nat.strongRecOn generalizing as p with
  | ind n ih =>
    subst hn
    cases as with
    | nil => rfl
    | cons a as =>
      have shorter (q : α → Bool) : (as.filter q).length < (a :: as).length :=
        Nat.lt_succ_of_le (List.length_filter_le q as)
      have behind := ih _ (shorter fun b => !b == a) p _ rfl
      rw [List.eraseDups_cons, List.filter_cons, List.filter_cons]
      split
      · rw [List.eraseDups_cons, ← behind, List.filter_comm]
      · next dropped =>
        -- What is equal to `a` does not pass the filter either.
        rw [← behind, List.filter_filter]
        refine congrArg List.eraseDups (List.filter_congr fun b _ => ?_)
        by_cases same : b = a
        · simpa [same] using dropped
        · simp [same]

/-- The distinct elements of a list with one more in front. -/
theorem eraseDups_cons_filter (a : α) (as : List α) :
    (a :: as).eraseDups = a :: as.eraseDups.filter (· != a) := by
  rw [List.eraseDups_cons, eraseDups_filter]
  rfl

theorem nodup_eraseDups (as : List α) : as.eraseDups.Nodup := by
  induction as with
  | nil => exact .nil
  | cons a as ih =>
    rw [eraseDups_cons_filter]
    exact List.nodup_cons.mpr ⟨by simp, ih.filter _⟩

end Distinct

namespace Reflection

namespace Cache

variable {oracle : Oracle} {room : Nat} {history : List Text} {name : Text} {cache : Cache}

/-! ## 2. Histories -/

/-- The last distinct names of a history, as many as there is room for. -/
def recent (room : Nat) (history : List Text) : List Text :=
  history.eraseDups.take room

/-- The names of a history that were not recent when they were asked about. -/
def newNames (room : Nat) : (history : List Text) → List Text
  | [] => []
  | name :: earlier =>
    if name ∈ recent room earlier then newNames room earlier
    else name :: newNames room earlier

theorem nodup_recent : (recent room history).Nodup :=
  (nodup_eraseDups history).sublist (List.take_sublist _ _)

/-- The recent names are a first part of the distinct ones, and all of them if there is room
left. -/
theorem exists_recent (room : Nat) (history : List Text) :
    ∃ older, history.eraseDups = recent room history ++ older ∧
      (recent room history).length ≤ room ∧ ((recent room history).length < room → older = []) := by
  refine ⟨_, (List.take_append_drop room _).symm, List.length_take_le _ _, ?_⟩
  intro short
  rw [recent, List.length_take] at short
  exact List.drop_of_length_le (by omega)

/-- A name that is recent comes to the front. -/
theorem recent_cons_of_mem (known : name ∈ recent room history) :
    recent room (name :: history) = name :: (recent room history).filter (· != name) := by
  obtain ⟨older, cut, bound, none_older⟩ := exists_recent room history
  have distinct : (recent room history).Nodup := nodup_recent
  rw [recent, eraseDups_cons_filter, cut]
  generalize recent room history = names at *
  have one_less : (names.filter (· != name)).length + 1 = names.length := by
    rw [← distinct.erase_eq_filter, List.length_erase_of_mem known]
    have := List.length_pos_of_mem known
    omega
  obtain _ | room := room
  · omega
  rw [List.take_succ_cons, List.filter_append]
  refine congrArg (name :: ·) ?_
  by_cases full : names.length = room + 1
  · exact List.take_left' (by omega)
  · rw [none_older (by omega), List.filter_nil, List.append_nil]
    exact List.take_of_length_le (by omega)

/-- Any other name comes to the front too, and takes the place of the oldest one if there is no
room. -/
theorem recent_cons_of_not_mem (unknown : name ∉ recent room history) :
    recent room (name :: history) =
      (name :: (recent room history).filter (· != name)).take room := by
  obtain ⟨older, cut, bound, none_older⟩ := exists_recent room history
  rw [recent, eraseDups_cons_filter, cut]
  generalize recent room history = names at *
  obtain _ | room := room
  · rfl
  rw [List.take_succ_cons, List.take_succ_cons, List.filter_append]
  refine congrArg (name :: ·) ?_
  have kept : names.filter (· != name) = names :=
    List.filter_eq_self.mpr fun other mem => bne_iff_ne.mpr fun same => unknown (same ▸ mem)
  rw [kept]
  by_cases full : room ≤ names.length
  · exact List.take_append_of_le_length full
  · rw [none_older (by omega), List.filter_nil, List.append_nil]

/-! ## 3. One question -/

/-- Names with what the oracle says of them. -/
def withAnswers (oracle : Oracle) (names : List Text) : List (Text × Option ClassInfo) :=
  names.map fun name => (name, (oracle name).info?)

theorem lookup_withAnswers (names : List Text) (name : Text) :
    (withAnswers oracle names).lookup name =
      if name ∈ names then some (oracle name).info? else none := by
  induction names with
  | nil => rfl
  | cons other names ih =>
    rw [withAnswers, List.map_cons, Table.lookup_entry_cons, ← withAnswers, ih]
    by_cases same : name = other
    · simp [same]
    · simp [same]

theorem bring_withAnswers (names : List Text) (name : Text) :
    bring name (oracle name).info? (withAnswers oracle names) =
      withAnswers oracle (name :: names.filter (· != name)) := by
  rw [bring, withAnswers, List.filter_map]
  rfl

/-- What a cache holds and has counted that has seen a history. -/
structure Remembers (oracle : Oracle) (history : List Text) (cache : Cache) : Prop where
  answers : cache.answers = withAnswers oracle (recent cache.capacity history)
  lookups : cache.lookups = (newNames cache.capacity history).length

namespace Remembers

theorem agrees (h : Remembers oracle history cache) : cache.Agrees oracle := by
  intro entry mem
  rw [h.answers] at mem
  obtain ⟨name, -, rfl⟩ := List.mem_map.mp mem
  rfl

/-- A recent name is answered from memory, whatever an oracle would say now. -/
theorem ask_of_mem (h : Remembers oracle history cache)
    (known : name ∈ recent cache.capacity history) (other : Oracle) :
    ask other name cache = ((oracle name).info?,
      { cache with answers := bring name (oracle name).info? cache.answers }) := by
  have found : cache.answers.lookup name = some (oracle name).info? := by
    rw [h.answers, lookup_withAnswers, if_pos known]
  rw [ask, found]

theorem ask_of_not_mem (h : Remembers oracle history cache)
    (unknown : name ∉ recent cache.capacity history) :
    ask oracle name cache = ((oracle name).info?,
      { cache with
        answers := (bring name (oracle name).info? cache.answers).take cache.capacity
        lookups := cache.lookups + 1 }) := by
  have missing : cache.answers.lookup name = none := by
    rw [h.answers, lookup_withAnswers, if_neg unknown]
  rw [ask, missing]

/-- One more question is remembered like the others. -/
theorem ask_snd (h : Remembers oracle history cache) (name : Text) :
    Remembers oracle (name :: history) (ask oracle name cache).2 := by
  by_cases known : name ∈ recent cache.capacity history
  · rw [h.ask_of_mem known]
    exact
      { answers := by rw [recent_cons_of_mem known, ← bring_withAnswers, ← h.answers]
        lookups := by rw [newNames, if_pos known, ← h.lookups] }
  · rw [h.ask_of_not_mem known]
    exact
      { answers := by
          rw [recent_cons_of_not_mem known, withAnswers, List.map_take, ← withAnswers,
            ← bring_withAnswers, ← h.answers]
        lookups := by rw [newNames, if_neg known, List.length_cons, ← h.lookups] }

end Remembers

theorem capacity_ask (oracle : Oracle) (name : Text) (cache : Cache) :
    (ask oracle name cache).2.capacity = cache.capacity := by
  unfold ask
  split <;> rfl

/-! ## 4. Questions in a row -/

/-- The answers to some questions in a row. -/
def answersTo (oracle : Oracle) : (cache : Cache) → (names : List Text) → List (Option ClassInfo)
  | _, [] => []
  | cache, name :: names =>
    (ask oracle name cache).1 :: answersTo oracle (ask oracle name cache).2 names

/-- The cache behind some questions. -/
def after (oracle : Oracle) (cache : Cache) (names : List Text) : Cache :=
  names.foldl (fun cache name => (ask oracle name cache).2) cache

theorem remembers_ofCapacity (oracle : Oracle) (capacity : Nat) :
    Remembers oracle [] (ofCapacity capacity) where
  answers := by rw [recent, List.eraseDups_nil, List.take_nil]; rfl
  lookups := rfl

theorem Remembers.after (h : Remembers oracle history cache) (names : List Text) :
    Remembers oracle (names.reverse ++ history) (after oracle cache names) := by
  induction names generalizing cache history with
  | nil => exact h
  | cons name names ih =>
    rw [List.reverse_cons, List.append_assoc]
    exact ih (h.ask_snd name)

/-- Answers of its own are all that a cache needs to answer as the oracle does, whatever it
forgets. -/
theorem Agrees.answersTo_eq (h : cache.Agrees oracle) (names : List Text) :
    answersTo oracle cache names = names.map fun name => (oracle name).info? := by
  induction names generalizing cache with
  | nil => rfl
  | cons name names ih => rw [answersTo, List.map_cons, ask_fst h, ih (h.ask name)]

theorem capacity_after (oracle : Oracle) (cache : Cache) (names : List Text) :
    (after oracle cache names).capacity = cache.capacity := by
  induction names generalizing cache with
  | nil => rfl
  | cons name names ih => exact (ih _).trans (capacity_ask oracle name cache)

/-! ## 5. A history that fits -/

/-- If there is room for all names of a history, each of them is recent once it has been asked
about. -/
theorem mem_recent_of_fits (fits : history.eraseDups.length ≤ room) :
    name ∈ recent room history ↔ name ∈ history := by
  rw [recent, List.take_of_length_le fits, List.mem_eraseDups]

/-- So each is new once. -/
theorem newNames_perm_of_fits (fits : history.eraseDups.length ≤ room) :
    (newNames room history).Perm history.eraseDups := by
  induction history with
  | nil => rw [List.eraseDups_nil]; exact .nil
  | cons name earlier ih =>
    have fewer : earlier.eraseDups ⊆ (name :: earlier).eraseDups := fun other mem =>
      List.mem_eraseDups.mpr (List.mem_cons_of_mem name (List.mem_eraseDups.mp mem))
    have shorter := (List.subperm_of_subset (nodup_eraseDups earlier) fewer).length_le
    have earlier_fits := Nat.le_trans shorter fits
    have behind := ih earlier_fits
    have distinct := behind.nodup_iff.mpr (nodup_eraseDups earlier)
    have same (other : Text) : other ∈ newNames room earlier ↔ other ∈ earlier :=
      behind.mem_iff.trans List.mem_eraseDups
    rw [newNames]
    split
    · next known =>
      refine (List.perm_ext_iff_of_nodup distinct (nodup_eraseDups _)).mpr fun other => ?_
      have asked := (mem_recent_of_fits earlier_fits).mp known
      rw [same, List.mem_eraseDups, List.mem_cons]
      exact ⟨.inr, fun mem => mem.elim (fun eq => eq ▸ asked) id⟩
    · next unknown =>
      have fresh : name ∉ newNames room earlier := by
        rwa [same, ← mem_recent_of_fits earlier_fits]
      refine (List.perm_ext_iff_of_nodup (List.nodup_cons.mpr ⟨fresh, distinct⟩)
        (nodup_eraseDups _)).mpr fun other => ?_
      rw [List.mem_cons, same, List.mem_eraseDups, List.mem_cons]

/-! ## 6. Any questions -/

/-- What is kept of a history, with room for so many names. -/
structure Keeps (oracle : Oracle) (room : Nat) (history : List Text) (cache : Cache) : Prop where
  /-- The names are the last distinct ones, the latest first. -/
  names : cache.answers.map Prod.fst = recent room history
  size : cache.answers.length ≤ room
  distinct : (cache.answers.map Prod.fst).Nodup
  own : cache.Agrees oracle
  /-- A name that is kept is answered without the oracle. -/
  unasked :
    ∀ name ∈ recent room history, ∀ other : Oracle, ask other name cache = ask oracle name cache
  /-- The oracle was asked whenever the name was not recent. -/
  lookups : cache.lookups = (newNames room history).length
  /-- If there is room for all names, it was asked once about each. -/
  once : history.eraseDups.length ≤ room →
    (newNames room history).Perm history.eraseDups ∧ cache.lookups = history.eraseDups.length

theorem Remembers.keeps (h : Remembers oracle history cache) :
    Keeps oracle cache.capacity history cache := by
  have names : cache.answers.map Prod.fst = recent cache.capacity history := by
    rw [h.answers, withAnswers, List.map_map]
    exact List.map_id _
  exact
    { names
      size := by
        rw [← List.length_map Prod.fst, names]
        exact List.length_take_le _ _
      distinct := names ▸ nodup_recent
      own := h.agrees
      unasked := fun name known other => by rw [h.ask_of_mem known, h.ask_of_mem known]
      lookups := h.lookups
      once := fun fits => by
        have perm := newNames_perm_of_fits fits
        exact ⟨perm, h.lookups.trans perm.length_eq⟩ }

/-- **A cache changes no answer.**  Whatever is asked in whatever order, every answer is the
oracle's own, and the cache keeps the last distinct names, as many as its capacity allows, with the
oracle's answers; the oracle is asked about a name exactly if it is not among these.  A capacity of
zero counts as one. -/
theorem answersTo_ofCapacity (oracle : Oracle) (capacity : Nat) (names : List Text) :
    answersTo oracle (ofCapacity capacity) names = names.map (fun name => (oracle name).info?) ∧
      Keeps oracle (max capacity 1) names.reverse (after oracle (ofCapacity capacity) names) := by
  have behind := (remembers_ofCapacity oracle capacity).after names
  rw [List.append_nil] at behind
  have room : (Cache.after oracle (ofCapacity capacity) names).capacity = max capacity 1 :=
    capacity_after oracle (ofCapacity capacity) names
  exact ⟨(agrees_ofCapacity oracle capacity).answersTo_eq names, room ▸ behind.keeps⟩

/-- With room for one class, a second one makes the cache forget the first. -/
example : (after .ignorant (ofCapacity 1) (["A", "B", "A"].map String.toList)).lookups = 3 ∧
    (after .ignorant (ofCapacity 2) (["A", "B", "A"].map String.toList)).lookups = 2 := by
  decide

end Cache
end Reflection
end AccessorCatalog

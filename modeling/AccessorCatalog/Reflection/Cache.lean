/-
# Remembered answers

Asking an oracle is expensive, so its answers are remembered, up to a number of classes.  The
answers are kept with the class that was asked about last in front; when there is no room, the last
of the list is forgotten.  `lookups` counts the questions that reached the oracle.

`ask_fst`: a cache that holds only the oracle's own answers gives the oracle's own answer.
-/
import AccessorCatalog.Reflection.ClassInfo

namespace AccessorCatalog.Reflection

/-- Remembered answers, the class asked about last in front. -/
structure Cache where
  capacity : Nat
  answers : List (Text × Option ClassInfo)
  lookups : Nat
  deriving DecidableEq, Repr

namespace Cache

/-- The number of classes that are remembered if nothing else is said. -/
def defaultCapacity : Nat := 1024

/-- A cache that remembers nothing yet.  It has room for at least one class. -/
def ofCapacity (capacity : Nat) : Cache :=
  ⟨max capacity 1, [], 0⟩

/-- The answers with the given one in front and no other for its class. -/
def bring (name : Text) (answer : Option ClassInfo) (answers : List (Text × Option ClassInfo)) :
    List (Text × Option ClassInfo) :=
  (name, answer) :: answers.filter fun entry => entry.1 != name

/-- What is known of a class, and the cache after the question. -/
def ask (oracle : Oracle) (name : Text) (cache : Cache) : Option ClassInfo × Cache :=
  match cache.answers.lookup name with
  | some answer => (answer, { cache with answers := bring name answer cache.answers })
  | none =>
    let answer := (oracle name).info?
    let answers := (bring name answer cache.answers).take cache.capacity
    (answer, { cache with answers, lookups := cache.lookups + 1 })

/-- Every remembered answer is the oracle's own. -/
def Agrees (oracle : Oracle) (cache : Cache) : Prop :=
  ∀ entry ∈ cache.answers, entry.2 = (oracle entry.1).info?

theorem agrees_ofCapacity (oracle : Oracle) (capacity : Nat) :
    (ofCapacity capacity).Agrees oracle := by
  intro entry h
  simp [ofCapacity] at h

/-- A cache that agrees with the oracle answers as the oracle does. -/
theorem ask_fst {oracle : Oracle} {cache : Cache} (h : cache.Agrees oracle) (name : Text) :
    (ask oracle name cache).1 = (oracle name).info? := by
  unfold ask
  split
  · next answer found => exact h _ (Table.mem_of_lookup found)
  · rfl

/-- A question leaves a cache that agrees with the oracle in agreement. -/
theorem Agrees.ask {oracle : Oracle} {cache : Cache} (h : cache.Agrees oracle) (name : Text) :
    (Cache.ask oracle name cache).2.Agrees oracle := by
  have brought {answer : Option ClassInfo} (own : answer = (oracle name).info?) :
      ∀ entry ∈ bring name answer cache.answers, entry.2 = (oracle entry.1).info? := by
    intro entry mem
    rcases List.mem_cons.mp mem with rfl | mem
    · exact own
    · exact h entry (List.mem_filter.mp mem).1
  unfold Cache.ask
  split
  · next answer found => exact brought (h _ (Table.mem_of_lookup found))
  · exact fun entry mem => brought rfl entry (List.mem_of_mem_take mem)

end Cache
end AccessorCatalog.Reflection

/-
# Fallible steps in a row

When a sequence of fallible steps succeeds and when it fails, said without the steps: a proof about
a function in `Except` takes it apart with these and never unfolds a `bind`.
-/
import Mathlib.Data.List.Forall2

namespace AccessorCatalog

variable {ε α β : Type}

theorem map_eq_ok_iff {f : α → β} {x : Except ε α} {b : β} :
    x.map f = .ok b ↔ ∃ a, x = .ok a ∧ f a = b := by
  cases x <;> simp [Except.map]

theorem map_eq_error_iff {f : α → β} {x : Except ε α} {e : ε} :
    x.map f = .error e ↔ x = .error e := by
  cases x <;> simp [Except.map]

theorem bind_eq_ok_iff {x : Except ε α} {f : α → Except ε β} {b : β} :
    (x >>= f) = .ok b ↔ ∃ a, x = .ok a ∧ f a = .ok b := by
  cases x <;> simp [bind, Except.bind]

theorem bind_eq_error_iff {x : Except ε α} {f : α → Except ε β} {e : ε} :
    (x >>= f) = .error e ↔ x = .error e ∨ ∃ a, x = .ok a ∧ f a = .error e := by
  cases x <;> simp [bind, Except.bind]

/-- A run of a fallible function over a list succeeds when each call does. -/
theorem mapM_eq_ok_iff {f : α → Except ε β} {as : List α} {bs : List β} :
    as.mapM f = .ok bs ↔ List.Forall₂ (fun a b => f a = .ok b) as bs := by
  induction as generalizing bs with
  | nil => cases bs <;> simp [pure, Except.pure]
  | cons a as ih =>
    rw [List.mapM_cons]
    simp only [bind_eq_ok_iff]
    constructor
    · rintro ⟨b, first, rest, later, h⟩
      cases h
      exact .cons first (ih.mp later)
    · intro h
      obtain ⟨b, rest, first, later, rfl⟩ := List.forall₂_cons_left_iff.mp h
      exact ⟨b, first, rest, ih.mpr later, rfl⟩

/-- Where a run over a list fails, the first call that fails gives the error. -/
theorem mapM_eq_error_iff {f : α → Except ε β} {as : List α} {e : ε} :
    as.mapM f = .error e ↔
      ∃ front a behind, as = front ++ a :: behind ∧ (∀ b ∈ front, ∃ x, f b = .ok x) ∧
        f a = .error e := by
  induction as with
  | nil => simp [pure, Except.pure]
  | cons a as ih =>
    rw [List.mapM_cons]
    constructor
    · intro h
      rcases bind_eq_error_iff.mp h with first | ⟨x, first, h⟩
      · exact ⟨[], a, as, rfl, by simp, first⟩
      · rcases bind_eq_error_iff.mp h with later | ⟨xs, -, h⟩
        · obtain ⟨front, b, behind, rfl, succeed, fails⟩ := ih.mp later
          refine ⟨a :: front, b, behind, rfl, fun c mem => ?_, fails⟩
          rcases List.mem_cons.mp mem with rfl | mem
          · exact ⟨x, first⟩
          · exact succeed c mem
        · cases h
    · rintro ⟨front, b, behind, split, succeed, fails⟩
      cases front with
      | nil =>
        cases split
        exact bind_eq_error_iff.mpr (.inl fails)
      | cons _ front =>
        cases split
        obtain ⟨x, first⟩ := succeed a List.mem_cons_self
        have later := ih.mpr
          ⟨front, b, behind, rfl, fun c mem => succeed c (List.mem_cons_of_mem a mem), fails⟩
        exact bind_eq_error_iff.mpr (.inr ⟨x, first, bind_eq_error_iff.mpr (.inl later)⟩)

theorem mapM_congr {f g : α → Except ε β} {as : List α} (agree : ∀ a ∈ as, f a = g a) :
    as.mapM f = as.mapM g := by
  induction as with
  | nil => rfl
  | cons a as ih =>
    rw [List.mapM_cons, List.mapM_cons, agree a List.mem_cons_self,
      ih fun b mem => agree b (List.mem_cons_of_mem a mem)]

theorem exists_of_mapM_error {f : α → Except ε β} {as : List α} {e : ε}
    (h : as.mapM f = .error e) : ∃ a ∈ as, f a = .error e := by
  obtain ⟨front, a, behind, rfl, -, fails⟩ := mapM_eq_error_iff.mp h
  exact ⟨a, by simp, fails⟩

end AccessorCatalog

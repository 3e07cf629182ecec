/-
# Base classes

`baseChain` lists the base classes of a class, nearest first, up to the distance that the settings
allow, and says whether there are any beyond it.  A base is resolved in the scope of the class that
names it; one that stands for no known class keeps its name.  Distances are counted level by level:
the bases at one distance are complete before those at the next are looked for.
-/
import AccessorCatalog.Survey.Memory

namespace AccessorCatalog.Survey

/-- The bases that a class declares, by the oracle if it knows the class. -/
def declaredBases (k : Knowledge) (name : Text) : Build (List Text) := do
  match ← ask k name with
  | some info => return info.bases
  | none => return k.graph.bases name

/-- The class that a base stands for. -/
def resolveBase (k : Knowledge) (current base : Text) : Build Text := do
  return (← resolve k base current).getD base

/-- The bases among the given ones that have not been seen yet. -/
def freshBases (k : Knowledge) (current : Text) : (bases seen : List Text) → Build (List Text)
  | [], _ => return []
  | base :: bases, seen => do
    let base ← resolveBase k current base
    if seen.contains base then freshBases k current bases seen
    else return base :: (← freshBases k current bases (base :: seen))

/-- The bases of a level of classes that have not been seen yet. -/
def freshLevel (k : Knowledge) : (level seen : List Text) → Build (List Text)
  | [], _ => return []
  | current :: level, seen => do
    let fresh ← freshBases k current (← declaredBases k current) seen
    return fresh ++ (← freshLevel k level (fresh.reverse ++ seen))

/-- Whether one of the bases has not been seen yet; what comes behind such a base is not looked
at. -/
def anyFreshBase (k : Knowledge) (current : Text) (seen : List Text) : List Text → Build Bool
  | [] => return false
  | base :: bases => do
    if seen.contains (← resolveBase k current base) then anyFreshBase k current seen bases
    else return true

/-- Whether a level of classes has a base that has not been seen yet. -/
def anyFresh (k : Knowledge) (seen : List Text) : (level : List Text) → Build Bool
  | [] => return false
  | current :: level => do
    if ← anyFreshBase k current seen (← declaredBases k current) then return true
    else anyFresh k seen level

/-- The base classes of a class, and whether there are any beyond the bound. -/
structure BaseChain where
  bases : List Text
  overrun : Bool
  deriving DecidableEq, Repr

/-- The bases up to `more` levels beyond the given one. -/
def chainFrom (k : Knowledge) : (more : Nat) → (level seen : List Text) → Build BaseChain
  | 0, level, seen => do return ⟨[], ← anyFresh k seen level⟩
  | more + 1, level, seen => do
    let fresh ← freshLevel k level seen
    if fresh.isEmpty then return ⟨[], false⟩
    else
      let rest ← chainFrom k more fresh (fresh.reverse ++ seen)
      return ⟨fresh ++ rest.bases, rest.overrun⟩

/-- The base classes of a class, nearest first. -/
def baseChain (k : Knowledge) (name : Text) : Build BaseChain :=
  chainFrom k k.settings.maxBaseDepth [name] [name]

end AccessorCatalog.Survey

/-
# What a class is called

A constructor has the name of its class and a destructor the same behind `~`.  Which name that is,
is read off the full name of the class: what stands behind its last `::`, up to the first `<` in it.
Since the search for `::` comes first, it also sees the template arguments.

So the name found is the class's own name exactly if no `::` occurs in the template arguments, or if
behind the last one there the same name stands again with arguments of its own (`ownName_iff`).  For
these classes `kind_ownName` says that constructors and destructors are known as such and never
listed.  For the others they are not known, and `kind_ownName_fails` is a class of which both are
taken for plain methods and listed.
-/
import AccessorCatalog.Accessor.Selection
import AccessorCatalog.Proofs.Columns
import AccessorCatalog.Proofs.QualifiedNames

namespace AccessorCatalog

/-! ## 1. Cutting at the last separator -/

namespace Text

variable {piece front back s t : Text}

theorem afterLast_of_absent (absent : ¬ piece <:+: t) : afterLast piece t = t := by
  have nowhere : ¬ piece.reverse <:+: t.reverse := by rwa [List.reverse_infix]
  rw [afterLast, cutLast?, cutFirst?_eq_none nowhere]
  rfl

/-- What stands behind an occurrence is found if none starts later. -/
theorem afterLast_append (absent : ¬ piece <:+: piece.tail ++ back) :
    afterLast piece (front ++ piece ++ back) = back := by
  have nowhere : ¬ piece.reverse <:+: back.reverse ++ piece.reverse.dropLast := by
    rwa [List.dropLast_reverse, ← List.reverse_append, List.reverse_infix]
  have cut := cutFirst?_append nowhere front.reverse
  have turned :
      (front ++ piece ++ back).reverse = back.reverse ++ piece.reverse ++ front.reverse := by
    simp
  rw [afterLast, cutLast?, turned, cut]
  simp

/-- Among the occurrences of a separator there is a last one. -/
theorem exists_last (filled : piece ≠ []) (inside : piece <:+: t) :
    ∃ front back, t = front ++ piece ++ back ∧ ¬ piece <:+: piece.tail ++ back := by
  obtain ⟨c, rest, rfl⟩ := List.exists_cons_of_ne_nil filled
  obtain ⟨front, back, rfl⟩ := inside
  -- an occurrence that starts later leaves less behind it
  induction length : back.length using Nat.strong_induction_on generalizing front back with
  | _ n ih =>
    by_cases later : c :: rest <:+: rest ++ back
    · obtain ⟨skipped, back', cut⟩ := later
      have shorter : back'.length < n := by
        have lengths := congrArg List.length cut
        simp at lengths
        omega
      have whole : front ++ c :: rest ++ back = front ++ c :: skipped ++ c :: rest ++ back' := by
        simp only [List.append_assoc, List.cons_append] at cut ⊢
        rw [← cut]
      rw [whole]
      exact ih _ shorter _ _ rfl
    · exact ⟨front, back, rfl, later⟩

/-- A piece does not reach over a character that it does not hold. -/
theorem infix_of_infix_append_cons {c : Char} (other : c ∉ piece)
    (inside : piece <:+: s ++ c :: t) :
    piece <:+: s ∨ piece <:+: t := by
  induction s with
  | nil =>
    rcases List.infix_cons_iff.mp inside with start | inside
    · rcases List.prefix_cons_iff.mp start with rfl | ⟨_, rfl, -⟩
      · exact .inl List.nil_infix
      · exact absurd List.mem_cons_self other
    · exact .inr inside
  | cons d s ih =>
    rcases List.infix_cons_iff.mp inside with start | inside
    · have reach : d :: s ++ [c] <+: d :: s ++ c :: t := by simp
      rcases List.prefix_or_prefix_of_prefix start reach with short | long
      · rcases List.prefix_concat_iff.mp short with rfl | short
        · exact absurd (by simp) other
        · exact .inl short.isInfix
      · exact absurd (long.subset (by simp)) other
    · exact (ih inside).imp_left fun found => found.trans (List.suffix_cons d s).isInfix

end Text

/-! ## 2. The name of a class within its full name -/

namespace ClassName

/-- The parts of the full name of a class: its scope, its own name, and its template arguments. -/
structure Parts where
  scope? : Option Text
  own : Text
  arguments? : Option Text
  deriving DecidableEq, Repr

namespace Parts

/-- The scope, as it is written in front of the own name. -/
def front (c : Parts) : Text :=
  c.scope?.elim [] fun scope => scope ++ "::".toList

/-- The template arguments, as they are written behind the own name. -/
def back (c : Parts) : Text :=
  c.arguments?.elim [] fun arguments => '<' :: arguments ++ ['>']

/-- The full name. -/
def name (c : Parts) : Text :=
  c.front ++ c.own ++ c.back

/-- Behind the last `::` of the full name stands the own name: no `::` occurs in the template
arguments, or behind the last one there the same name stands with arguments of its own. -/
def EndsInOwn (c : Parts) : Prop :=
  ∀ arguments ∈ c.arguments?, "::".toList <:+: arguments →
    ∃ outer inner, arguments = outer ++ "::".toList ++ (c.own ++ '<' :: inner) ∧
      ¬ "::".toList <:+: inner

variable {c : Parts} {own t : Text}

/-- No `::` starts in front of an identifier, nor in it. -/
theorem not_infix_own (identifier : IsIdentifier own) : ¬ "::".toList <:+: ':' :: own := by
  have no_colon : ∀ d ∈ own, d ≠ ':' := fun d mem =>
    Text.ne_of_isWord (identifier.word d mem) (by decide)
  obtain ⟨d, rest, rfl⟩ := List.exists_cons_of_ne_nil identifier.filled
  intro inside
  have other : d ∉ "::".toList := by simpa using no_colon d List.mem_cons_self
  rcases Text.infix_of_infix_append_cons (s := [':']) other inside with inside | inside
  · exact absurd inside.length_le (by decide)
  · exact no_colon ':' (List.mem_cons_of_mem d (inside.subset List.mem_cons_self)) rfl

theorem not_infix_opened (identifier : IsIdentifier own) (absent : ¬ "::".toList <:+: t) :
    ¬ "::".toList <:+: ':' :: (own ++ '<' :: t) := by
  intro inside
  rcases Text.infix_of_infix_append_cons (s := ':' :: own) (by decide) inside with inside | inside
  · exact not_infix_own identifier inside
  · exact absent inside

theorem not_infix_closed (absent : ¬ "::".toList <:+: t) : ¬ "::".toList <:+: t ++ ['>'] := by
  intro inside
  rcases Text.infix_of_infix_append_cons (t := []) (by decide) inside with inside | inside
  · exact absent inside
  · exact absurd inside.length_le (by decide)

/-- If no `::` occurs in the template arguments, the last component of the name starts with the own
name. -/
theorem short_name (identifier : IsIdentifier c.own)
    (plain : ∀ arguments ∈ c.arguments?, ¬ "::".toList <:+: arguments) :
    short c.name = c.own ++ c.back := by
  have absent : ¬ "::".toList <:+: ':' :: (c.own ++ c.back) := by
    unfold back
    cases arguments : c.arguments? with
    | none =>
      rw [Option.elim_none, List.append_nil]
      exact not_infix_own identifier
    | some arguments' =>
      exact not_infix_opened identifier (not_infix_closed (plain arguments' arguments))
  unfold short name front
  cases c.scope? with
  | none =>
    refine Text.afterLast_of_absent fun inside => absent ?_
    exact List.IsInfix.trans inside (List.suffix_cons ':' _).isInfix
  | some scope =>
    rw [Option.elim_some, List.append_assoc _ c.own]
    exact Text.afterLast_append absent

/-- Else it starts inside the arguments, behind the last `::` there. -/
theorem short_name_inside {outer last : Text}
    (arguments : c.arguments? = some (outer ++ "::".toList ++ last))
    (absent : ¬ "::".toList <:+: ':' :: last) : short c.name = last ++ ['>'] := by
  have cut : c.name = c.front ++ c.own ++ '<' :: outer ++ "::".toList ++ (last ++ ['>']) := by
    simp [name, back, arguments]
  rw [short, cut]
  exact Text.afterLast_append (not_infix_closed absent)

/-- **Which classes are found by their own name.** -/
theorem ownName_iff (identifier : IsIdentifier c.own) :
    withoutArguments (short c.name) = c.own ↔ c.EndsInOwn := by
  have no_angle : '<' ∉ c.own ∧ '>' ∉ c.own :=
    ⟨fun mem => Text.ne_of_isWord (identifier.word _ mem) (by decide) rfl,
      fun mem => Text.ne_of_isWord (identifier.word _ mem) (by decide) rfl⟩
  by_cases qualified : ∃ arguments ∈ c.arguments?, "::".toList <:+: arguments
  · obtain ⟨arguments, some_arguments, inside⟩ := qualified
    constructor
    · intro same other mem _
      obtain rfl := Option.mem_unique some_arguments mem
      obtain ⟨outer, last, rfl, absent⟩ := Text.exists_last (by decide) inside
      rw [short_name_inside some_arguments absent] at same
      by_cases angle : '<' ∈ last
      · obtain ⟨found, inner, rfl, no_earlier⟩ := List.eq_append_cons_of_mem angle
        rw [List.append_assoc, List.cons_append, withoutArguments,
          Text.beforeChar_append_cons no_earlier] at same
        subst same
        exact ⟨outer, inner, rfl,
          fun later => absent (later.trans ⟨':' :: c.own ++ ['<'], [], by simp⟩)⟩
      · -- with no `<` in it, what is found holds the closing `>`
        rw [withoutArguments, Text.beforeChar_of_not_mem (by simp [angle])] at same
        have close : '>' ∈ last ++ ['>'] := by simp
        exact absurd (same ▸ close) no_angle.2
    · intro ends
      obtain ⟨outer, inner, rfl, absent⟩ := ends arguments some_arguments inside
      rw [short_name_inside some_arguments (not_infix_opened identifier absent), List.append_assoc,
        List.cons_append]
      exact Text.beforeChar_append_cons no_angle.1 _
  · have plain : ∀ arguments ∈ c.arguments?, ¬ "::".toList <:+: arguments :=
      fun arguments mem inside => qualified ⟨arguments, mem, inside⟩
    have ends : c.EndsInOwn := fun arguments mem inside => absurd inside (plain arguments mem)
    refine iff_of_true ?_ ends
    rw [short_name identifier plain, back]
    cases c.arguments? with
    | none =>
      rw [Option.elim_none, List.append_nil]
      exact Text.beforeChar_of_not_mem no_angle.1
    | some arguments => exact Text.beforeChar_append_cons no_angle.1 _

end Parts
end ClassName

/-! ## 3. Constructors and destructors -/

namespace Declaration.Signature

open ClassName (Parts IsIdentifier)

variable {c : Parts}

/-- A method with the name of its class is a constructor exactly if the class is found by that
name. -/
theorem kind_constructor_iff (identifier : IsIdentifier c.own) {s : Signature}
    (named : s.name = c.own) :
    s.kind c.name = .constructor ↔ ClassName.isOperator c.own = false ∧ c.EndsInOwn := by
  have no_tilde (short : Text) : c.own ≠ '~' :: short := by
    intro same
    have word := identifier.word '~' (by rw [same]; exact List.mem_cons_self)
    exact absurd word (by decide)
  rw [← c.ownName_iff identifier, kind, named]
  cases ClassName.isOperator c.own <;> simp [no_tilde, eq_comm]

/-- A method with that name behind `~` is a destructor exactly if it is. -/
theorem kind_destructor_iff (identifier : IsIdentifier c.own) {s : Signature}
    (named : s.name = '~' :: c.own) : s.kind c.name = .destructor ↔ c.EndsInOwn := by
  have no_operator : ClassName.isOperator ('~' :: c.own) = false := rfl
  rw [← c.ownName_iff identifier, kind, named, no_operator]
  generalize ClassName.withoutArguments (ClassName.short c.name) = short
  constructor
  · intro destructor
    by_contra other
    have apart : '~' :: c.own ≠ '~' :: short := fun same => other (List.cons.inj same).2.symm
    rw [if_neg Bool.false_ne_true, if_neg apart] at destructor
    split at destructor <;> cases destructor
  · rintro rfl
    simp

/-- **Constructors and destructors are known by their names** exactly if the class is found by its
own name, and then they are not listed.  A class whose own name is that of an operator has no known
constructor. -/
theorem kind_ownName (identifier : IsIdentifier c.own) (s : Signature) :
    (s.name = c.own →
        (s.kind c.name = .constructor ↔ ClassName.isOperator c.own = false ∧ c.EndsInOwn)) ∧
      (s.name = '~' :: c.own → (s.kind c.name = .destructor ↔ c.EndsInOwn)) ∧
      (c.EndsInOwn → s.name = c.own ∨ s.name = '~' :: c.own →
        Selection.method? s c.name = none) := by
  refine ⟨kind_constructor_iff identifier, kind_destructor_iff identifier, fun ends named => ?_⟩
  have special : s.kind c.name ≠ .plain := by
    rcases named with named | named
    · intro plain
      cases operator : ClassName.isOperator c.own with
      | true => rw [kind, named, operator] at plain; cases plain
      | false =>
        rw [(kind_constructor_iff identifier named).mpr ⟨operator, ends⟩] at plain
        cases plain
    · rw [(kind_destructor_iff identifier named).mpr ends]
      decide
  rw [Option.eq_none_iff_forall_not_mem]
  intro m selected
  exact special (Selection.method?_eq_some_iff.mp selected).1

/-- The constructor of a class, with a pointer to what it makes for its result. -/
def constructorOf (c : Parts) : Signature :=
  ⟨c.name ++ ['*'], c.own, [], []⟩

/-- The destructor of a class, with a status for its result. -/
def destructorOf (c : Parts) : Signature :=
  ⟨"int".toList, '~' :: c.own, [], []⟩

theorem isIdentifier_handle : IsIdentifier "Handle".toList :=
  ⟨by decide, by decide, by decide⟩

/-- A class template of a namespace, with an instance of itself for its argument. -/
def nestedHandle : Parts :=
  ⟨some "reco".toList, "Handle".toList, some "reco::Handle<int>".toList⟩

theorem kind_ownName_nestedHandle :
    nestedHandle.name = "reco::Handle<reco::Handle<int>>".toList ∧ IsIdentifier nestedHandle.own ∧
      nestedHandle.EndsInOwn ∧
      (constructorOf nestedHandle).kind nestedHandle.name = .constructor ∧
      (destructorOf nestedHandle).kind nestedHandle.name = .destructor ∧
      Selection.method? (constructorOf nestedHandle) nestedHandle.name = none := by
  have ends : nestedHandle.EndsInOwn := by
    rintro _ ⟨⟩ -
    exact ⟨"reco".toList, "int>".toList, rfl, by decide⟩
  have constructor :=
    kind_ownName (c := nestedHandle) isIdentifier_handle (constructorOf nestedHandle)
  have destructor :=
    kind_ownName (c := nestedHandle) isIdentifier_handle (destructorOf nestedHandle)
  exact ⟨by decide, isIdentifier_handle, ends, (constructor.1 rfl).mpr ⟨by decide, ends⟩,
    (destructor.2.1 rfl).mpr ends, constructor.2.2 ends (.inl rfl)⟩

/-- A class template of a namespace, with another class of that namespace for its argument. -/
def trackHandle : Parts :=
  ⟨some "reco".toList, "Handle".toList, some "reco::Track".toList⟩

/-- **A constructor and a destructor can be taken for plain methods** and be listed. -/
theorem kind_ownName_fails :
    trackHandle.name = "reco::Handle<reco::Track>".toList ∧ IsIdentifier trackHandle.own ∧
      (constructorOf trackHandle).kind trackHandle.name = .plain ∧
      (destructorOf trackHandle).kind trackHandle.name = .plain ∧
      (Selection.method? (constructorOf trackHandle) trackHandle.name).isSome ∧
      (Selection.method? (destructorOf trackHandle) trackHandle.name).isSome :=
  ⟨by decide, isIdentifier_handle, by decide +kernel, by decide +kernel, by decide +kernel,
    by decide +kernel⟩

end Declaration.Signature
end AccessorCatalog

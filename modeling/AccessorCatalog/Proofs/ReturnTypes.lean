/-
# Which names are taken for builtin types

The class behind a return type is chained onto a call unless its name is that of a builtin type.
Whether it is, is asked of the start of the name, with no word boundary behind it.  So `interval` is
taken for the builtin `int`, and what a method returns by that name is of no use
(`classify_interval`).

`classify_qualified_iff` says that this is the only reason: a qualified name, by itself or behind
`const` and in front of a star or a reference, is the class to chain exactly if neither `void` nor a
builtin name starts it.
-/
import AccessorCatalog.Proofs.Builtins

namespace AccessorCatalog

open Declaration

/-! ## 1. Builtin names in front of a name -/

namespace Declaration

/-- The names that a class may not start with. -/
def fundamentalNames : List Text :=
  "void".toList :: builtinSpellings

theorem isDigit_of_isDecimal {c : Char} (other : Text.isDecimal c = false) : c.isDigit = false := by
  by_cases ascii : c.toNat < 128
  · rwa [Text.isDecimal, if_pos ascii] at other
  · have large : ¬ c ≤ '9' := fun small => ascii (Nat.lt_of_le_of_lt small (by decide))
    simp only [Char.isDigit, Bool.and_eq_false_iff, decide_eq_false_iff_not]
    exact .inr large

theorem isFundamentalWord_iff {t : Text} (no_digit : ∀ c ∈ t.head?, c.isDigit = false) :
    isFundamentalWord t = true ↔ ∃ w ∈ fundamentalNames, w <+: t := by
  have head : isFundamentalWord t =
      (Text.startsWith "void".toList t || builtinSpellings.any fun w => Text.startsWith w t) := by
    cases t with
    | nil => rfl
    | cons c t => rw [isFundamentalWord, no_digit c rfl, Bool.false_or]
  rw [head]
  simp [fundamentalNames, Text.startsWith, List.isPrefixOf_iff_prefix]

/-- A text that starts with a builtin name as a word starts with it as a text. -/
theorem not_hasBuiltinHead {t : Text} (none_starts : ∀ w ∈ fundamentalNames, ¬ w <+: t) :
    hasBuiltinHead t = false := by
  rw [Bool.eq_false_iff]
  intro head
  obtain ⟨w, spelled, rest, rfl, -⟩ := hasBuiltinHead_iff.mp head
  exact none_starts w (List.mem_cons_of_mem _ spelled) (List.prefix_append w rest)

end Declaration

/-! ## 2. The class behind a type -/

namespace ReturnType

/-- What may stand behind a class in a type. -/
def endings : List Text :=
  [[], ['*'], ['&']]

variable {name front back : Text}

theorem chars_endings : ∀ back ∈ endings, ∀ c ∈ back, c = '*' ∨ c = '&' := by
  decide

/-- Inside a name nothing is taken off. -/
theorem decoration_eq_none {c : Char} (solid : ∀ d ∈ c :: name, d ≠ ' ' ∧ d ≠ '*' ∧ d ≠ '&')
    (no_ref : ¬ "Ref".toList <:+ c :: name) (back_form : back ∈ endings) (before : Option Char) :
    decoration before (c :: (name ++ back)) = none := by
  have in_back := chars_endings back back_form
  have no_const : Text.startsWith "const ".toList (c :: (name ++ back)) = false := by
    rw [Bool.eq_false_iff]
    intro start
    have blank : ' ' ∈ c :: name ++ back :=
      (List.isPrefixOf_iff_prefix.mp start).subset (by decide)
    rcases List.mem_append.mp blank with mem | mem
    · exact (solid ' ' mem).1 rfl
    · rcases in_back ' ' mem with same | same <;> cases same
  have first := solid c List.mem_cons_self
  have no_ending : c :: (name ++ back) ≠ "Ref".toList := by
    intro whole
    cases back with
    | nil => exact no_ref ⟨[], by rw [← whole, List.nil_append, List.append_nil]⟩
    | cons b back =>
      have mem : b ∈ "Ref".toList := by rw [← whole]; simp
      rcases in_back b List.mem_cons_self with rfl | rfl <;> exact absurd mem (by decide)
  unfold decoration
  rw [no_const, Bool.and_false, if_neg (by decide), if_neg (by simp [first.2]), if_neg no_ending]

/-- A star or a reference behind a name comes off, and the name stays. -/
theorem replaceMatches_decoration (solid : ∀ c ∈ name, c ≠ ' ' ∧ c ≠ '*' ∧ c ≠ '&')
    (no_ref : ¬ "Ref".toList <:+ name) (back_form : back ∈ endings) (before : Option Char) :
    Text.replaceMatchesFrom decoration (fun _ => []) before (name ++ back) = name := by
  induction name generalizing before with
  | nil =>
    have taken {c : Char} (ending : c = '*' ∨ c = '&') : decoration before [c] = some 1 := by
      rcases ending with rfl | rfl <;> simp [decoration, Text.startsWith]
    simp only [endings, List.mem_cons, List.not_mem_nil, or_false] at back_form
    rcases back_form with rfl | rfl | rfl
    · exact Text.replaceMatchesFrom_nil _ _ _
    · rw [List.nil_append, Text.replaceMatches_cons_some (taken (.inl rfl))]
      exact Text.replaceMatchesFrom_nil _ _ _
    · rw [List.nil_append, Text.replaceMatches_cons_some (taken (.inr rfl))]
      exact Text.replaceMatchesFrom_nil _ _ _
  | cons c name ih =>
    have rest := ih (fun d mem => solid d (List.mem_cons_of_mem c mem))
      fun ends => no_ref (ends.trans (List.suffix_cons c name))
    rw [List.cons_append,
      Text.replaceMatches_cons_none (decoration_eq_none solid no_ref back_form _), rest]

/-- What may stand in front of a class in a type. -/
def beginnings : List Text :=
  [[], "const ".toList]

theorem trim_qualified (qualified : ClassName.IsQualified name) (front_form : front ∈ beginnings)
    (back_form : back ∈ endings) : Text.trim (front ++ name ++ back) = front ++ name ++ back := by
  have solid := qualified.isBlank_eq_false
  have filled := qualified.ne_nil
  apply Text.trim_of_edges
  · simp only [beginnings, List.mem_cons, List.not_mem_nil, or_false] at front_form
    rcases front_form with rfl | rfl
    · obtain ⟨c, name, rfl⟩ := List.exists_cons_of_ne_nil filled
      rintro _ ⟨⟩
      exact solid c List.mem_cons_self
    · rintro _ ⟨⟩
      decide
  · intro c last
    rw [List.getLast?_append] at last
    rcases Option.or_eq_some_iff.mp (Option.mem_def.mp last) with at_end | ⟨-, at_end⟩
    · rcases chars_endings back back_form c (List.mem_of_getLast? at_end) with rfl | rfl <;> decide
    · obtain ⟨start, d, rfl, word⟩ := qualified.exists_concat
      rw [← List.append_assoc, List.getLast?_concat] at at_end
      cases at_end
      exact solid c (by simp)

/-- **The class behind a type is the name in it.** -/
theorem className_qualified (qualified : ClassName.IsQualified name)
    (no_ref : ¬ "Ref".toList <:+ name)
    (front_form : front ∈ beginnings) (back_form : back ∈ endings) :
    className (front ++ name ++ back) = name := by
  have solid : ∀ c ∈ name, c ≠ ' ' ∧ c ≠ '*' ∧ c ≠ '&' := by
    intro c mem
    refine ⟨?_, ?_, ?_⟩ <;> rintro rfl <;> exact qualified.not_mem (by decide) (by decide) mem
  have inside (before : Option Char) := replaceMatches_decoration solid no_ref back_form before
  have bare : Text.trim name = name := Source.trim_of_solid qualified.isBlank_eq_false
  rw [className, trim_qualified qualified front_form back_form, Text.replaceMatches]
  simp only [beginnings, List.mem_cons, List.not_mem_nil, or_false] at front_form
  rcases front_form with rfl | rfl
  · rw [List.nil_append, inside, bare]
  · have taken : decoration none ('c' :: ("onst ".toList ++ (name ++ back))) = some 6 := rfl
    rw [List.append_assoc]
    show Text.trim
      (Text.replaceMatchesFrom _ _ none ('c' :: ("onst ".toList ++ (name ++ back)))) = _
    rw [Text.replaceMatches_cons_some taken]
    show Text.trim ([] ++ Text.replaceMatchesFrom _ _ _ (name ++ back)) = name
    rw [inside, List.nil_append, bare]

/-! ## 3. The use of a class -/

/-- A word that starts a class with something behind it starts the class. -/
theorem prefix_of_prefix_append {w : Text} (plain : ∀ c ∈ w, c ≠ '*' ∧ c ≠ '&')
    (back_form : back ∈ endings) (start : w <+: name ++ back) : w <+: name := by
  rcases List.prefix_or_prefix_of_prefix start (List.prefix_append name back) with inside | ⟨v, rfl⟩
  · exact inside
  · have in_back : v <+: back := (List.prefix_append_right_inj name).mp start
    cases v with
    | nil => simp
    | cons c v =>
      have other := plain c (by simp)
      rcases chars_endings back back_form c (in_back.subset List.mem_cons_self) with same | same
      exacts [absurd same other.1, absurd same other.2]

theorem withoutPrefix_qualified (qualified : ClassName.IsQualified name)
    (front_form : front ∈ beginnings) (back_form : back ∈ endings) :
    Text.withoutPrefix "const ".toList (front ++ name ++ back) = name ++ back := by
  rw [List.append_assoc]
  simp only [beginnings, List.mem_cons, List.not_mem_nil, or_false] at front_form
  rcases front_form with rfl | rfl
  · have absent : Text.afterPrefix? "const ".toList (name ++ back) = none := by
      rw [Option.eq_none_iff_forall_not_mem]
      intro rest found
      have start : "const ".toList <+: name ++ back :=
        ⟨rest, (Text.afterPrefix?_eq_some.mp found).symm⟩
      exact qualified.not_mem (by decide) (by decide)
        ((prefix_of_prefix_append (by decide) back_form start).subset (by decide : ' ' ∈ _))
    rw [List.nil_append, Text.withoutPrefix, absent, Option.getD_none]
  · have there : Text.afterPrefix? "const ".toList ("const ".toList ++ (name ++ back)) = some _ :=
      Text.afterPrefix?_eq_some.mpr rfl
    rw [Text.withoutPrefix, there, Option.getD_some]

theorem stripped_qualified (qualified : ClassName.IsQualified name) : Stripped name := by
  refine ⟨qualified.ne_nil, Source.trim_of_solid qualified.isBlank_eq_false, fun c last => ?_⟩
  rintro rfl
  exact qualified.not_mem (by decide) (by decide) (List.mem_of_getLast? last)

/-- What is left of a type in which a class is named: the class, with a star behind it or not. -/
theorem bareType_qualified (qualified : ClassName.IsQualified name)
    (front_form : front ∈ beginnings) (back_form : back ∈ endings) :
    bareType (front ++ name ++ back) = if back = ['*'] then name ++ ['*'] else name := by
  have no_blank : ∀ b ∈ ([] : Text), Text.isBlank b = true := by simp
  have by_itself : [] ∈ beginnings := by decide
  rw [bareType, trim_qualified qualified front_form back_form,
    withoutPrefix_qualified qualified front_form back_form]
  split_ifs with star
  · have stripped : Stripped (name ++ ['*']) :=
      ⟨by simp, trim_qualified qualified by_itself (by decide), by simp⟩
    have no_reference : [] ∈ [[], ['&']] := by decide
    simpa [star] using stripped.withoutReference no_blank no_reference
  · have reference : back ∈ [[], ['&']] := by
      simpa [endings, star] using back_form
    simpa using (stripped_qualified qualified).withoutReference no_blank reference

/-- If no builtin name starts a class, the types in which it is named are not simple. -/
theorem isSimpleType_qualified (qualified : ClassName.IsQualified name)
    (none_starts : ∀ w ∈ fundamentalNames, ¬ w <+: name) (front_form : front ∈ beginnings)
    (back_form : back ∈ endings) : isSimpleType (front ++ name ++ back) = false := by
  rw [isSimpleType_eq, bareType_qualified qualified front_form back_form]
  split_ifs with star
  · have pointer : Text.beforeSuffix? ['*'] (name ++ ['*']) = some name :=
      Source.beforeSuffix_eq_some.mpr rfl
    have no_char : name ≠ "char".toList := by
      rintro rfl
      exact none_starts "char".toList (by decide) List.prefix_rfl
    rw [pointer, Option.elim_some, (stripped_qualified qualified).trimEnd, beq_eq_false_iff_ne]
    exact no_char
  · have value : Text.beforeSuffix? ['*'] name = none := by
      rw [Option.eq_none_iff_forall_not_mem]
      intro rest found
      refine qualified.not_mem (c := '*') (by decide) (by decide) ?_
      rw [Source.beforeSuffix_eq_some.mp found]
      simp
    rw [value, Option.elim_none]
    exact not_hasBuiltinHead none_starts

/-- Nor are they of no value. -/
theorem value_qualified (qualified : ClassName.IsQualified name)
    (no_void : ¬ "void".toList <+: name)
    (front_form : front ∈ beginnings) (back_form : back ∈ endings) :
    ((front ++ name ++ back).isEmpty || front ++ name ++ back == "void".toList ||
      Text.startsWith "void*".toList (front ++ name ++ back)) = false := by
  have no_start : ¬ "void".toList <+: front ++ name ++ back := by
    simp only [beginnings, List.mem_cons, List.not_mem_nil, or_false] at front_form
    rcases front_form with rfl | rfl
    · exact fun start => no_void (prefix_of_prefix_append (by decide) back_form start)
    · exact fun start => absurd (List.cons_prefix_cons.mp start).1 (by decide)
  rw [Bool.eq_false_iff]
  simp only [ne_eq, Bool.or_eq_true, List.isEmpty_iff, beq_iff_eq, Text.startsWith,
    List.isPrefixOf_iff_prefix]
  rintro ((empty | same) | start)
  · exact qualified.ne_nil (List.append_eq_nil_iff.mp (List.append_eq_nil_iff.mp empty).1).2
  · exact no_start (same ▸ List.prefix_rfl)
  · exact no_start ((by decide : "void".toList <+: "void*".toList).trans start)

/-- What looks like no class is no qualified name. -/
theorem decorated_qualified (qualified : ClassName.IsQualified name) :
    (name.isEmpty || Text.endsWith ['*'] name || Text.endsWith ['&'] name || name.contains '(') =
      false := by
  rw [Bool.eq_false_iff]
  simp only [ne_eq, Bool.or_eq_true, List.isEmpty_iff, Text.endsWith, List.isSuffixOf_iff_suffix,
    List.contains_iff_mem]
  rintro (((empty | star) | reference) | paren)
  · exact qualified.ne_nil empty
  · exact qualified.not_mem (by decide) (by decide) (star.subset List.mem_cons_self)
  · exact qualified.not_mem (by decide) (by decide) (reference.subset List.mem_cons_self)
  · exact qualified.not_mem (by decide) (by decide) paren

/-- **Which names are classes to chain.**  A qualified name that does not end in `Ref`, by itself or
behind `const` and in front of a star or a reference, is a class to chain exactly if neither `void`
nor a builtin name starts it. -/
theorem classify_qualified_iff (qualified : ClassName.IsQualified name)
    (no_ref : ¬ "Ref".toList <:+ name) (front_form : front ∈ beginnings)
    (back_form : back ∈ endings) :
    classify (front ++ name ++ back) = .compound name ↔ ∀ w ∈ fundamentalNames, ¬ w <+: name := by
  have word : isFundamentalWord name = true ↔ ∃ w ∈ fundamentalNames, w <+: name := by
    refine isFundamentalWord_iff ?_
    obtain ⟨c, rest, rfl, -, no_decimal⟩ := qualified.exists_cons
    rintro _ ⟨⟩
    exact isDigit_of_isDecimal no_decimal
  unfold classify
  dsimp only
  rw [trim_qualified qualified front_form back_form,
    className_qualified qualified no_ref front_form back_form, decorated_qualified qualified,
    Bool.false_or]
  constructor
  · intro compound w fundamental start
    rw [word.mpr ⟨w, fundamental, start⟩, if_pos rfl] at compound
    split_ifs at compound
  · intro none_starts
    have plain : isFundamentalWord name = false := Bool.eq_false_iff.mpr fun found => by
      obtain ⟨w, fundamental, start⟩ := word.mp found
      exact none_starts w fundamental start
    rw [value_qualified qualified (none_starts _ List.mem_cons_self) front_form back_form,
      isSimpleType_qualified qualified none_starts front_form back_form, plain]
    rfl

theorem isQualified_pair {s t : Text} (h : ClassName.IsIdentifier s)
    (h' : ClassName.IsIdentifier t) :
    ClassName.IsQualified (s ++ "::".toList ++ t) :=
  ⟨[s, t], by simp, by simp [h, h'], by simp [Text.join, List.intercalate]⟩

theorem isQualified_vertex : ClassName.IsQualified "reco::Vertex".toList :=
  isQualified_pair (s := "reco".toList) (t := "Vertex".toList)
    ⟨by decide, by decide, by decide⟩ ⟨by decide, by decide, by decide⟩

theorem classify_qualified_iff_vertex :
    ClassName.IsQualified "reco::Vertex".toList ∧ ¬ "Ref".toList <:+ "reco::Vertex".toList ∧
      "const ".toList ∈ beginnings ∧ ['&'] ∈ endings ∧
      (classify ("const ".toList ++ "reco::Vertex".toList ++ ['&']) =
          .compound "reco::Vertex".toList ↔
        ∀ w ∈ fundamentalNames, ¬ w <+: "reco::Vertex".toList) :=
  have front : "const ".toList ∈ beginnings := by decide
  have back : ['&'] ∈ endings := by decide
  ⟨isQualified_vertex, by decide, front, back,
    classify_qualified_iff isQualified_vertex (by decide) front back⟩

/-- **A class can be taken for a builtin type.**  The name of the one class starts with `int` and
that of the other with `string`, and neither is the name of a builtin type. -/
theorem classify_interval :
    (ClassName.IsQualified "interval::Step".toList ∧ "interval::Step".toList ∉ fundamentalNames ∧
        ¬ "Ref".toList <:+ "interval::Step".toList ∧
        classify "const interval::Step&".toList = .unusable) ∧
      ClassName.IsQualified "string::Pool".toList ∧ "string::Pool".toList ∉ fundamentalNames ∧
        ¬ "Ref".toList <:+ "string::Pool".toList ∧ classify "string::Pool".toList = .simple :=
  ⟨⟨isQualified_pair (s := "interval".toList) (t := "Step".toList)
      ⟨by decide, by decide, by decide⟩ ⟨by decide, by decide, by decide⟩,
      by decide +kernel, by decide, by decide +kernel⟩,
    isQualified_pair (s := "string".toList) (t := "Pool".toList)
      ⟨by decide, by decide, by decide⟩ ⟨by decide, by decide, by decide⟩,
      by decide +kernel, by decide, by decide +kernel⟩

end ReturnType
end AccessorCatalog

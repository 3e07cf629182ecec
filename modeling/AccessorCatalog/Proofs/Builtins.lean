/-
# Builtin types by their names

An argument is simple if its type starts with the name of a builtin type, and the name ends at a
word boundary. `const` in front and a reference behind do not count (`InUse`), and of pointers only
C strings are simple.  What may go on behind the name is not looked at, so a simple type is a
builtin argument or one that goes on (`isSimpleType_iff`): `int* const` and `double[3]` are simple.

What is left of a type (`bareType`) is found by taking off one end after the other, with the blanks
between them.  That this gives back the type in use is said for types that nothing can be taken off
(`Stripped`).
-/
import AccessorCatalog.Accessor.Selection
import AccessorCatalog.Proofs.Columns
import AccessorCatalog.Proofs.QualifiedNames

namespace AccessorCatalog

open Text (isBlank isWord)

namespace Declaration

/-! ## 1. Builtin names at the start of a text -/

theorem isWordAt_last_builtin : ∀ w ∈ builtinSpellings, Text.isWordAt w.getLast? = true := by
  decide +kernel

/-- A builtin head is a builtin name with no word character behind it. -/
theorem hasBuiltinHead_iff {t : Text} : hasBuiltinHead t = true ↔
    ∃ w ∈ builtinSpellings, ∃ rest, t = w ++ rest ∧ Text.isWordAt rest.head? = false := by
  unfold hasBuiltinHead Text.keyword?
  rw [List.findSome?_isSome_iff]
  refine exists_congr fun w => and_congr_right fun spelled => ?_
  have ends (rest : Text) :
      Text.atBoundary w.getLast? rest = true ↔ Text.isWordAt rest.head? = false := by
    unfold Text.atBoundary
    rw [isWordAt_last_builtin w spelled]
    cases Text.isWordAt rest.head? <;> decide
  constructor
  · intro found
    split at found
    · next rest here =>
      refine ⟨rest, Text.afterPrefix?_eq_some.mp here, ?_⟩
      split at found
      · next boundary => exact (ends rest).mp boundary
      · cases found
    · cases found
  · rintro ⟨rest, cut, boundary⟩
    rw [Text.afterPrefix?_eq_some.mpr cut]
    dsimp only
    rw [if_pos ((ends rest).mpr boundary)]
    rfl

/-! ## 2. What is left of a type -/

/-- A type is another one in use: `const` stands in front of it and a reference behind it, or not,
and blanks stand around them. -/
def InUse (bare type : Text) : Prop :=
  ∃ lead front gap gap' back tail : Text,
    (∀ b ∈ lead ++ gap ++ gap' ++ tail, isBlank b = true) ∧ front ∈ [[], "const ".toList] ∧
      back ∈ [[], ['&']] ∧ type = lead ++ front ++ gap ++ bare ++ gap' ++ back ++ tail

/-- What is left of a type without `const` in front and a reference behind it. -/
def bareType (type : Text) : Text :=
  Text.trimEnd (Text.withoutSuffix ['&']
    (Text.trim (Text.withoutPrefix "const ".toList (Text.trim type))))

theorem isSimpleType_eq (type : Text) : isSimpleType type =
    (Text.beforeSuffix? ['*'] (bareType type)).elim (hasBuiltinHead (bareType type))
      fun pointee => Text.trimEnd pointee == "char".toList := by
  unfold isSimpleType
  dsimp only
  rw [← bareType]
  cases Text.beforeSuffix? ['*'] (bareType type) <;> rfl

theorem exists_trimEnd (t : Text) :
    ∃ tail, (∀ b ∈ tail, isBlank b = true) ∧ t = Text.trimEnd t ++ tail :=
  ⟨(t.reverse.takeWhile isBlank).reverse,
    fun _ mem => List.mem_takeWhile_imp (List.mem_reverse.mp mem), (Source.dropEnd_append _ t).symm⟩

theorem exists_trim (t : Text) : ∃ lead tail, (∀ b ∈ lead ++ tail, isBlank b = true) ∧
    t = lead ++ Text.trim t ++ tail := by
  obtain ⟨tail, blank, cut⟩ := exists_trimEnd (Text.trimStart t)
  refine ⟨t.takeWhile isBlank, tail, fun b mem => ?_, ?_⟩
  · rcases List.mem_append.mp mem with mem | mem
    · exact List.mem_takeWhile_imp mem
    · exact blank b mem
  · rw [List.append_assoc, Text.trim, ← cut]
    exact (List.takeWhile_append_dropWhile).symm

theorem exists_withoutPrefix (head t : Text) :
    ∃ front ∈ [[], head], t = front ++ Text.withoutPrefix head t := by
  unfold Text.withoutPrefix
  cases found : Text.afterPrefix? head t with
  | none => exact ⟨[], by simp, rfl⟩
  | some rest => exact ⟨head, by simp, Text.afterPrefix?_eq_some.mp found⟩

theorem exists_withoutSuffix (tail t : Text) :
    ∃ back ∈ [[], tail], t = Text.withoutSuffix tail t ++ back := by
  unfold Text.withoutSuffix
  cases found : Text.beforeSuffix? tail t with
  | none => exact ⟨[], by simp, (List.append_nil t).symm⟩
  | some rest => exact ⟨tail, by simp, Source.beforeSuffix_eq_some.mp found⟩

/-- A type is what is left of it, in use. -/
theorem inUse_bareType (type : Text) : InUse (bareType type) type := by
  obtain ⟨lead, tail, ends, cut⟩ := exists_trim type
  obtain ⟨front, front_form, behind_front⟩ :=
    exists_withoutPrefix "const ".toList (Text.trim type)
  obtain ⟨gap, tail', inner, core_cut⟩ :=
    exists_trim (Text.withoutPrefix "const ".toList (Text.trim type))
  obtain ⟨back, back_form, before_back⟩ := exists_withoutSuffix ['&']
    (Text.trim (Text.withoutPrefix "const ".toList (Text.trim type)))
  obtain ⟨gap', gap_blank, bare_cut⟩ := exists_trimEnd (Text.withoutSuffix ['&']
    (Text.trim (Text.withoutPrefix "const ".toList (Text.trim type))))
  refine ⟨lead, front, gap, gap', back, tail' ++ tail, ?_, front_form, back_form, ?_⟩
  · simp only [List.mem_append] at ends inner ⊢
    rintro b (((mem | mem) | mem) | mem | mem)
    exacts [ends b (.inl mem), inner b (.inl mem), gap_blank b mem, inner b (.inr mem),
      ends b (.inr mem)]
  · calc
      type = lead ++ Text.trim type ++ tail := cut
      _ = lead ++ (front ++ (gap ++ (bareType type ++ gap' ++ back) ++ tail')) ++ tail := by
        rw [bareType, ← bare_cut, ← before_back, ← core_cut, ← behind_front]
      _ = _ := by simp only [List.append_assoc]

theorem trimEnd_append_blanks {t tail : Text} (blank : ∀ b ∈ tail, isBlank b = true) :
    Text.trimEnd (t ++ tail) = Text.trimEnd t := by
  unfold Text.trimEnd Text.dropEnd
  rw [List.reverse_append,
    List.dropWhile_append_of_pos fun b mem => blank b (List.mem_reverse.mp mem)]

/-- A type that nothing can be taken off: neither blanks nor a reference. -/
structure Stripped (t : Text) : Prop where
  filled : t ≠ []
  trimmed : Text.trim t = t
  value : ∀ c ∈ t.getLast?, c ≠ '&'

instance (t : Text) : Decidable (Stripped t) :=
  decidable_of_iff (t ≠ [] ∧ Text.trim t = t ∧ ∀ c ∈ t.getLast?, c ≠ '&')
    ⟨fun ⟨a, b, c⟩ => ⟨a, b, c⟩, fun ⟨a, b, c⟩ => ⟨a, b, c⟩⟩

variable {bare gap gap' back tail : Text}

theorem Stripped.trimEnd (h : Stripped bare) : Text.trimEnd bare = bare := by
  have solid := (Text.trim_edges bare).2
  rw [h.trimmed] at solid
  obtain ⟨front, c, rfl⟩ := List.eq_nil_or_concat bare |>.resolve_left h.filled
  rw [List.concat_eq_append] at solid ⊢
  simp [Text.trimEnd, Text.dropEnd, solid c (by simp)]

/-- A stripped type with a reference behind it or not, up to the blanks at its end. -/
theorem Stripped.exists_end (h : Stripped bare) (gap_blank : ∀ b ∈ gap, isBlank b = true)
    (back_form : back ∈ [[], ['&']]) (tail_blank : ∀ b ∈ tail, isBlank b = true) :
    ∃ gap' tail', (∀ b ∈ gap' ++ tail', isBlank b = true) ∧
      bare ++ gap ++ back ++ tail = bare ++ gap' ++ back ++ tail' ∧
        Text.trim (bare ++ gap' ++ back) = bare ++ gap' ++ back := by
  have blank : ∀ b ∈ gap ++ tail, isBlank b = true := fun b mem =>
    (List.mem_append.mp mem).elim (gap_blank b) (tail_blank b)
  simp only [List.mem_cons, List.not_mem_nil, or_false] at back_form
  rcases back_form with rfl | rfl
  · exact ⟨[], gap ++ tail, blank, by simp, by simpa using h.trimmed⟩
  · exact ⟨gap, tail, blank, rfl, Text.trim_between gap h.trimmed rfl h.filled (by simp)⟩

/-- A reference and the blanks in front of it come off. -/
theorem Stripped.withoutReference (h : Stripped bare) (gap_blank : ∀ b ∈ gap, isBlank b = true)
    (back_form : back ∈ [[], ['&']]) :
    Text.trimEnd (Text.withoutSuffix ['&'] (Text.trim (bare ++ gap ++ back))) = bare := by
  simp only [List.mem_cons, List.not_mem_nil, or_false] at back_form
  rcases back_form with rfl | rfl
  · have none_there : Text.beforeSuffix? ['&'] bare = none := by
      rw [Option.eq_none_iff_forall_not_mem]
      intro rest found
      have cut := Source.beforeSuffix_eq_some.mp found
      exact h.value '&' (by rw [cut]; simp) rfl
    rw [List.append_nil, Text.trim_append_blanks gap_blank, h.trimmed, Text.withoutSuffix,
      none_there]
    exact h.trimEnd
  · have there : Text.beforeSuffix? ['&'] (bare ++ gap ++ ['&']) = some (bare ++ gap) :=
      Source.beforeSuffix_eq_some.mpr rfl
    rw [Text.trim_between gap h.trimmed rfl h.filled (by simp), Text.withoutSuffix, there,
      Option.getD_some, trimEnd_append_blanks gap_blank]
    exact h.trimEnd

theorem bareType_congr {s t : Text} (same : Text.trim s = Text.trim t) :
    bareType s = bareType t := by
  rw [bareType, same, bareType]

/-- A `const` in front comes off. -/
theorem Stripped.withoutConst (h : Stripped bare) (gap_blank : ∀ b ∈ gap, isBlank b = true)
    (gap_blank' : ∀ b ∈ gap', isBlank b = true) (back_form : back ∈ [[], ['&']])
    (trimmed : Text.trim (bare ++ gap' ++ back) = bare ++ gap' ++ back) :
    bareType ("const ".toList ++ gap ++ (bare ++ gap' ++ back)) = bare := by
  have whole : Text.trim ("const ".toList ++ gap ++ (bare ++ gap' ++ back)) =
      "const ".toList ++ (gap ++ (bare ++ gap' ++ back)) := by
    have word : Text.trim "const".toList = "const".toList := by decide
    simpa using Text.trim_between (' ' :: gap) word trimmed (by decide) (by simp [h.filled])
  have there : Text.afterPrefix? "const ".toList
      ("const ".toList ++ (gap ++ (bare ++ gap' ++ back))) = some _ :=
    Text.afterPrefix?_eq_some.mpr rfl
  rw [bareType, whole, Text.withoutPrefix, there, Option.getD_some,
    Text.trim_blanks_append gap_blank]
  exact h.withoutReference gap_blank' back_form

/-- With nothing in front, a `const` that comes off is the type's own. -/
theorem Stripped.withoutOwnConst (h : Stripped bare)
    (plain : Stripped (Text.withoutPrefix "const ".toList bare))
    (no_part : ¬ bare <+: "const ".toList)
    (gap_blank : ∀ b ∈ gap, isBlank b = true) (gap_blank' : ∀ b ∈ gap', isBlank b = true)
    (back_form : back ∈ [[], ['&']])
    (trimmed : Text.trim (bare ++ gap' ++ back) = bare ++ gap' ++ back) :
    bareType (gap ++ (bare ++ gap' ++ back)) = bare ∨
      bareType (gap ++ (bare ++ gap' ++ back)) = Text.withoutPrefix "const ".toList bare := by
  rw [bareType, Text.trim_blanks_append gap_blank, trimmed]
  unfold Text.withoutPrefix
  cases found : Text.afterPrefix? "const ".toList (bare ++ gap' ++ back) with
  | none => exact .inl (h.withoutReference gap_blank' back_form)
  | some rest =>
    rw [Text.afterPrefix?_eq_some] at found
    have start : "const ".toList <+: bare :=
      (List.prefix_or_prefix_of_prefix ⟨rest, found.symm⟩
        ⟨gap' ++ back, (List.append_assoc _ _ _).symm⟩).resolve_right no_part
    obtain ⟨own, rfl⟩ := start
    have cut : Text.afterPrefix? "const ".toList ("const ".toList ++ own) = some own :=
      Text.afterPrefix?_eq_some.mpr rfl
    rw [Text.withoutPrefix, cut] at plain
    rw [cut]
    have behind : rest = own ++ gap' ++ back := by
      simpa only [List.append_assoc, List.append_cancel_left_eq] using found.symm
    rw [behind]
    exact .inr (plain.withoutReference gap_blank' back_form)

/-- **What is left of a type in use.**  If the type starts with `const` itself, that counts as the
`const` in front. -/
theorem bareType_of_inUse {type : Text} (stripped : Stripped bare)
    (plain : Stripped (Text.withoutPrefix "const ".toList bare))
    (no_part : ¬ bare <+: "const ".toList) (used : InUse bare type) :
    bareType type = bare ∨ bareType type = Text.withoutPrefix "const ".toList bare := by
  obtain ⟨lead, front, gap, gap₀, back, tail₀, blank, front_form, back_form, rfl⟩ := used
  simp only [List.mem_append] at blank
  have gap_blank : ∀ b ∈ gap, isBlank b = true := fun b mem => blank b (by simp [mem])
  have gap_blank₀ : ∀ b ∈ gap₀, isBlank b = true := fun b mem => blank b (by simp [mem])
  have tail_blank₀ : ∀ b ∈ tail₀, isBlank b = true := fun b mem => blank b (by simp [mem])
  obtain ⟨gap', tail, end_blank, same, trimmed⟩ :=
    stripped.exists_end gap_blank₀ back_form tail_blank₀
  simp only [List.mem_append] at end_blank
  have gap_blank' : ∀ b ∈ gap', isBlank b = true := fun b mem => end_blank b (.inl mem)
  have inner : Text.trim (lead ++ front ++ gap ++ bare ++ gap₀ ++ back ++ tail₀) =
      Text.trim (front ++ gap ++ (bare ++ gap' ++ back)) := by
    calc
      _ = Text.trim (lead ++ (front ++ gap ++ (bare ++ gap₀ ++ back ++ tail₀))) := by
        simp only [List.append_assoc]
      _ = Text.trim (front ++ gap ++ (bare ++ gap' ++ back) ++ tail) := by
        rw [Text.trim_blanks_append fun b mem => blank b (by simp [mem]), same]
        simp only [List.append_assoc]
      _ = _ := Text.trim_append_blanks fun b mem => end_blank b (.inr mem)
  rw [bareType_congr inner]
  simp only [List.mem_cons, List.not_mem_nil, or_false] at front_form
  rcases front_form with rfl | rfl
  · exact stripped.withoutOwnConst plain no_part gap_blank gap_blank' back_form trimmed
  · exact .inl (stripped.withoutConst gap_blank gap_blank' back_form trimmed)

/-! ## 3. Types of arguments -/

/-- A builtin type in use, or a C string in use. -/
inductive BuiltinArgument (type : Text) : Prop
  | builtin {bare : Text} (spelled : bare ∈ builtinSpellings) (used : InUse bare type)
  | cString {gap : Text} (blank : ∀ b ∈ gap, isBlank b = true)
      (used : InUse ("char".toList ++ gap ++ ['*']) type)

/-- A type that starts with a builtin name as a word, goes on behind it, and does not end in a
star. -/
structure GoesOn (type : Text) : Prop where
  unspelled : bareType type ∉ builtinSpellings
  head : ∃ w ∈ builtinSpellings, ∃ rest, bareType type = w ++ rest ∧
    Text.isWordAt rest.head? = false
  value : (bareType type).getLast? ≠ some '*'

theorem stripped_builtin : ∀ w ∈ builtinSpellings, Stripped w ∧
    Text.withoutPrefix "const ".toList w ∈ builtinSpellings ∧ ¬ w <+: "const ".toList := by
  decide +kernel

theorem not_mem_builtin : ∀ w ∈ builtinSpellings, '*' ∉ w := by
  decide +kernel

/-- Builtin arguments are told by what is left of them. -/
theorem builtinArgument_iff {type : Text} : BuiltinArgument type ↔
    bareType type ∈ builtinSpellings ∨
      ∃ gap, (∀ b ∈ gap, isBlank b = true) ∧ bareType type = "char".toList ++ gap ++ ['*'] := by
  constructor
  · rintro (⟨spelled, used⟩ | ⟨blank, used⟩)
    · obtain ⟨stripped, plain, no_part⟩ := stripped_builtin _ spelled
      rcases bareType_of_inUse stripped (stripped_builtin _ plain).1 no_part used with same | same
      · exact .inl (same ▸ spelled)
      · exact .inl (same ▸ plain)
    · rename_i gap
      have trimmed : Text.trim ("char".toList ++ gap ++ ['*']) = "char".toList ++ gap ++ ['*'] :=
        Text.trim_between gap (by decide) rfl (by decide) (by simp)
      have stripped : Stripped ("char".toList ++ gap ++ ['*']) :=
        ⟨by simp, trimmed, fun c last => by
          rw [List.getLast?_concat] at last
          cases last
          decide⟩
      have plain : Text.withoutPrefix "const ".toList ("char".toList ++ gap ++ ['*']) =
          "char".toList ++ gap ++ ['*'] := rfl
      refine .inr ⟨gap, blank, ?_⟩
      rcases bareType_of_inUse stripped (plain ▸ stripped) (by simp) used with same | same
      · exact same
      · exact same.trans plain
  · rintro (spelled | ⟨gap, blank, same⟩)
    · exact .builtin spelled (inUse_bareType type)
    · exact .cString blank (same ▸ inUse_bareType type)

/-- **Which types an argument may have.**  Besides the builtin arguments these are the types that go
on behind a builtin name. -/
theorem isSimpleType_iff {type : Text} :
    isSimpleType type = true ↔ BuiltinArgument type ∨ GoesOn type := by
  rw [builtinArgument_iff, isSimpleType_eq]
  cases star : Text.beforeSuffix? ['*'] (bareType type) with
  | some pointee =>
    have pointer := Source.beforeSuffix_eq_some.mp star
    rw [Option.elim_some, beq_iff_eq]
    constructor
    · intro char
      obtain ⟨gap, blank, cut⟩ := exists_trimEnd pointee
      exact .inl (.inr ⟨gap, blank, by rw [pointer, cut, char]⟩)
    · rintro ((spelled | ⟨gap, blank, same⟩) | goesOn)
      · exact absurd (by rw [pointer]; simp) (not_mem_builtin _ spelled)
      · obtain rfl := List.append_cancel_right (pointer.symm.trans same)
        rw [trimEnd_append_blanks blank]
        decide
      · exact absurd (by rw [pointer]; simp) goesOn.value
  | none =>
    have value : (bareType type).getLast? ≠ some '*' := by
      intro last
      obtain ⟨pointee, cut⟩ := List.getLast?_eq_some_iff.mp last
      rw [Source.beforeSuffix_eq_some.mpr cut] at star
      cases star
    rw [Option.elim_none, hasBuiltinHead_iff]
    constructor
    · intro head
      by_cases spelled : bareType type ∈ builtinSpellings
      · exact .inl (.inl spelled)
      · exact .inr ⟨spelled, head, value⟩
    · rintro ((spelled | ⟨gap, blank, same⟩) | goesOn)
      · exact ⟨_, spelled, [], (List.append_nil _).symm, rfl⟩
      · exact absurd (by rw [same, List.getLast?_concat]) value
      · exact goesOn.head

end Declaration

namespace Selection

open Declaration

/-- **The arguments of a selected method.**  Each is a builtin argument, or its type goes on behind
a builtin name. -/
theorem selected_arguments {s : Signature} {className : Text} {m : MethodAccessor}
    (selected : method? s className = some m) :
    ∀ arg ∈ s.args, BuiltinArgument arg.type ∨ GoesOn arg.type := by
  intro arg mem
  rw [← isSimpleType_iff]
  unfold method? at selected
  dsimp only at selected
  split_ifs at selected with plain name use simple line
  simp only [Bool.not_eq_true, Bool.not_eq_false', List.all_eq_true] at simple
  exact simple arg mem

/-- A method with arguments of several types. -/
def residual : Signature :=
  ⟨"double".toList, "residual".toList,
    [⟨"unsigned int".toList, "layer".toList, none⟩, ⟨"const std::string &".toList, [], none⟩,
      ⟨"const char*".toList, "label".toList, some "0".toList⟩], "const".toList⟩

theorem selected_arguments_residual :
    method? residual "reco::Track".toList = some ⟨"reco::Track".toList, "double".toList,
        "residual".toList,
        "residual(unsigned int layer, const std::string & x1, const char* label=0)".toList,
        "residual(layer, x1, label)".toList, 2, 1⟩ ∧
      ∀ arg ∈ residual.args, BuiltinArgument arg.type ∨ GoesOn arg.type :=
  have selected : method? residual "reco::Track".toList = some ⟨"reco::Track".toList,
      "double".toList, "residual".toList,
      "residual(unsigned int layer, const std::string & x1, const char* label=0)".toList,
      "residual(layer, x1, label)".toList, 2, 1⟩ := by decide +kernel
  ⟨selected, selected_arguments selected⟩

/-- A method that takes one argument of a type. -/
def taking (type : Text) : Signature :=
  ⟨"int".toList, "f".toList, [⟨type, "x".toList, none⟩], []⟩

/-- Types that go on behind a builtin name: a constant pointer, an array, a callback, and a nested
type of the string class. -/
def goingOn : List Text :=
  ["int* const".toList, "double[3]".toList, "int (*)(int)".toList, "std::string::size_type".toList]

/-- **Types that go on are taken**, and they are no builtin arguments. -/
theorem selected_goesOn :
    (∀ type ∈ goingOn, (method? (taking type) "C".toList).isSome = true) ∧
      ∀ type ∈ goingOn, ¬ BuiltinArgument type := by
  have taken : ∀ type ∈ goingOn, (method? (taking type) "C".toList).isSome = true := by
    decide +kernel
  have other : ∀ type ∈ goingOn,
      bareType type ∉ builtinSpellings ∧ (bareType type).getLast? ≠ some '*' := by
    decide +kernel
  refine ⟨taken, ?_⟩
  intro type mem builtin
  rcases builtinArgument_iff.mp builtin with spelled | ⟨gap, -, cString⟩
  · exact (other type mem).1 spelled
  · exact (other type mem).2 (by rw [cString, List.getLast?_concat])

end Selection
end AccessorCatalog

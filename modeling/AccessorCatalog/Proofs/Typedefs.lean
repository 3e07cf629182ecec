/-
# What the conversion of type definitions keeps

A type definition becomes an empty class with the name that it defines.  The segmentation needs
three things of that, none of which depends on which definitions are left alone:

* `not_mem_convertTypedefs`: no backslash comes in;
* `count_convertTypedefs_le`: the converted text has no more opening braces than the text has
  characters;
* `depthAfter_convertTypedefs`: in a text that is laid out by lines, the braces of the converted
  text lead to the same depth.  The case to look at is a `typedef` directly before `};`, where the
  name that is defined is the brace.
-/
import AccessorCatalog.Proofs.Layout

namespace AccessorCatalog

/-! ## 1. Replacing -/

namespace Text

variable {pattern : Pattern} {image : Text → Text} {before : Option Char} {t : Text}

/-- A character behind a replacement was there before or comes from an image. -/
theorem mem_replaceMatchesFrom {d : Char} (h : d ∈ replaceMatchesFrom pattern image before t) :
    d ∈ t ∨ ∃ taken, taken ⊆ t ∧ d ∈ image taken := by
  fun_induction replaceMatchesFrom pattern image before t with
  | case1 => exact .inl h
  | case2 before c t n found taken ih =>
    have part : taken ⊆ c :: t := List.cons_subset_cons c (List.take_subset _ t)
    rcases List.mem_append.mp h with h | h
    · exact .inr ⟨taken, part, h⟩
    · have behind : t.drop (n - 1) ⊆ c :: t := fun x hx =>
        List.mem_cons_of_mem c (List.mem_of_mem_drop hx)
      rcases ih h with h | ⟨inner, inside, h⟩
      · exact .inl (behind h)
      · exact .inr ⟨inner, List.Subset.trans inside behind, h⟩
  | case3 before c t found ih =>
    rcases List.mem_cons.mp h with rfl | h
    · exact .inl List.mem_cons_self
    · rcases ih h with h | ⟨inner, inside, h⟩
      · exact .inl (List.mem_cons_of_mem c h)
      · exact .inr ⟨inner, List.Subset.trans inside (List.subset_cons_self c t), h⟩

/-- If no image has more of a character than there was text, the whole has not either. -/
theorem count_replaceMatchesFrom_le {d : Char}
    (few : ∀ before c t n, pattern before (c :: t) = some n →
      (image (c :: t.take (n - 1))).count d ≤ (c :: t.take (n - 1)).length) :
    (replaceMatchesFrom pattern image before t).count d ≤ t.length := by
  fun_induction replaceMatchesFrom pattern image before t with
  | case1 => exact Nat.le_refl 0
  | case2 before c t n found taken ih =>
    have here : (image taken).count d ≤ taken.length := few before c t n found
    have cut : taken.length + (t.drop (n - 1)).length = (c :: t).length := by
      simp only [taken, List.length_cons, List.length_take, List.length_drop]
      omega
    rw [List.count_append]
    omega
  | case3 before c t found ih =>
    rw [List.count_cons, List.length_cons]
    split <;> omega

end Text

/-! ## 2. The class of a type definition -/

namespace Source

open Text (isBlank countWhile)

/-- The name that is defined is a stretch of the definition. -/
theorem definedName_isInfix (line : Text) : definedName line <:+: line := by
  have word : (Text.words (Text.dropEnd (· == ';') line)).getLastD [] <:+: line := by
    rw [List.getLastD_eq_getLast?]
    cases last : (Text.words (Text.dropEnd (· == ';') line)).getLast? with
    | none => exact List.nil_infix
    | some w =>
      have mem := (List.mem_filter.mp (List.mem_of_getLast? last)).1
      exact (infix_of_mem_splitWhere mem).trans (dropEnd_isPrefix _ line).isInfix
  exact (List.dropWhile_suffix _).isInfix.trans word

/-- The definition stays, or becomes a class with the name that it defines. -/
theorem typedefClass_cases (line : Text) :
    typedefClass line = line ∨
      typedefClass line = "class ".toList ++ definedName line ++ " \x7b\n\x7d;".toList := by
  unfold typedefClass
  dsimp only
  split
  · exact .inl rfl
  · exact .inr rfl

/-- **No backslash comes in.** -/
theorem not_mem_convertTypedefs {t : Text} (plain : '\\' ∉ t) : '\\' ∉ convertTypedefs t := by
  intro mem
  rcases Text.mem_replaceMatchesFrom mem with mem | ⟨taken, part, mem⟩
  · exact plain mem
  · rcases typedefClass_cases taken with same | named
    · exact plain (part (same ▸ mem))
    · rw [named] at mem
      rcases List.mem_append.mp mem with mem | mem
      · rcases List.mem_append.mp mem with mem | mem
        · exact absurd mem (by decide)
        · exact plain (part ((definedName_isInfix taken).subset mem))
      · exact absurd mem (by decide)

/-- What is taken as a type definition: its keyword, blanks, a body on one line, and a semicolon. -/
theorem typedefLine_eq_some {before : Option Char} {t : Text} {n : Nat}
    (h : typedefLine before t = some n) :
    ∃ gap body rest, t = "typedef".toList ++ gap ++ body ++ ';' :: rest ∧
      n = 7 + gap.length + body.length + 1 ∧ gap ≠ [] ∧ (∀ c ∈ gap, isBlank c = true) ∧
        ∀ c ∈ body, c ≠ ';' ∧ c ≠ '\n' := by
  unfold typedefLine at h
  split at h
  · obtain ⟨rest, found, h⟩ := Option.bind_eq_some_iff.mp h
    obtain ⟨m, body, h⟩ := Option.map_eq_some_iff.mp h
    cases h
    obtain ⟨some_gap, rfl, stop⟩ := Outline.blanksAndBody_eq_some body
    obtain ⟨behind, at_stop⟩ := List.head?_eq_some_iff.mp stop
    have split : rest = rest.takeWhile isBlank ++
        (rest.drop (countWhile isBlank rest)).takeWhile (fun c => c != ';' && c != '\n') ++
        ';' :: behind := by
      rw [← at_stop, ← Outline.take_countWhile, ← Outline.take_countWhile, List.append_assoc,
        ← List.drop_drop, List.take_append_drop, List.take_append_drop]
    refine ⟨_, _, behind, ?_, by rw [← Nat.add_assoc]; rfl, List.ne_nil_of_length_pos some_gap,
      fun c hc => List.mem_takeWhile_imp hc, fun c hc => ?_⟩
    · rw [Text.afterPrefix?_eq_some.mp found, List.append_assoc, List.append_assoc,
        ← List.append_assoc _ _ (';' :: behind), ← split]
    · simpa using List.mem_takeWhile_imp hc
  · cases h

/-- A type definition is taken with its semicolon. -/
theorem take_typedefLine {c : Char} {t gap body rest : Text}
    (text : c :: t = "typedef".toList ++ gap ++ body ++ ';' :: rest) :
    c :: t.take (7 + gap.length + body.length + 1 - 1) =
      "typedef".toList ++ gap ++ body ++ [';'] := by
  have whole : c :: t = ("typedef".toList ++ gap ++ body ++ [';']) ++ rest := by
    rw [text, List.append_assoc _ [';'], List.singleton_append]
  rw [Nat.add_sub_cancel, ← List.take_succ_cons, whole]
  exact List.take_left' (by simp; omega)

/-- **The converted text has few opening braces.**  Only one comes in for each type definition, and
the keyword of the definition goes. -/
theorem count_convertTypedefs_le (t : Text) : (convertTypedefs t).count '\x7b' ≤ t.length := by
  refine Text.count_replaceMatchesFrom_le fun before c t n found => ?_
  obtain ⟨gap, body, rest, text, -⟩ := typedefLine_eq_some found
  obtain rfl : c = 't' := by
    have := congrArg List.head? text
    simpa using this
  rcases typedefClass_cases ('t' :: t.take (n - 1)) with same | named
  · rw [same]
    exact List.count_le_length
  · have inside := (definedName_isInfix ('t' :: t.take (n - 1))).sublist.count_le '\x7b'
    have all := List.count_le_length (a := '\x7b') (l := t.take (n - 1))
    rw [named, List.count_append, List.count_append, List.length_cons]
    rw [List.count_cons_of_ne (by decide)] at inside
    have one : " \x7b\n\x7d;".toList.count '\x7b' = 1 := rfl
    have none_in_word : "class ".toList.count '\x7b' = 0 := rfl
    omega

/-! ## 3. Braces of a text that is laid out -/

/-- In a text that is laid out, the body of a type definition has no brace, or is a closing brace on
a line of its own. -/
theorem body_of_laid {gap body rest : Text} (laid : Laid (gap ++ body ++ ';' :: rest))
    (line : ∀ c ∈ body, c ≠ ';' ∧ c ≠ '\n') :
    Outline.braces body = [] ∨ body = ['\x7d'] := by
  by_cases close : '\x7d' ∈ body
  · -- what stands next to the brace would have to be a line break or a semicolon
    obtain ⟨u, v, rfl⟩ := List.append_of_mem close
    have behind : v = [] := by
      cases v with
      | nil => rfl
      | cons d v =>
        have next : Fits '\x7d' d := Laid.fits (s := gap ++ u) (by simpa using laid)
        have d_line := line d (by simp)
        rcases next.afterClose rfl with h | h
        · exact absurd h d_line.2
        · exact absurd h d_line.1
    have before : u = [] := by
      cases u using List.reverseRecOn with
      | nil => rfl
      | append_singleton u a =>
        have next : Fits a '\x7d' := Laid.fits (s := gap ++ u) (by simpa using laid)
        exact absurd (next.beforeClose rfl) (line a (by simp)).2
    rw [behind, before]
    exact .inr rfl
  · refine .inl (Outline.braces_eq_nil (fun opens => ?_) close)
    obtain ⟨u, v, rfl⟩ := List.append_of_mem opens
    cases v with
    | nil =>
      have next : Fits '\x7b' ';' := Laid.fits (s := gap ++ u) (by simpa using laid)
      exact absurd (next.afterOpen rfl) (by decide)
    | cons d v =>
      have next : Fits '\x7b' d := Laid.fits (s := gap ++ u) (by simpa using laid)
      exact absurd (next.afterOpen rfl) (line d (by simp)).2

/-- The name that is defined is the last word in front of the semicolon. -/
theorem definedName_close {gap : Text} (some_gap : gap ≠ []) (blank : ∀ c ∈ gap, isBlank c = true) :
    definedName ("typedef".toList ++ gap ++ ['\x7d', ';']) = ['\x7d'] := by
  obtain ⟨front, b, rfl⟩ : ∃ front b, gap = front ++ [b] := by
    cases gap using List.reverseRecOn with
    | nil => exact absurd rfl some_gap
    | append_singleton front b => exact ⟨front, b, rfl⟩
  have b_blank : isBlank b = true := blank b (by simp)
  have close_solid : ∀ c ∈ ['\x7d'], isBlank c = false := by
    intro c mem
    rw [List.mem_singleton.mp mem]
    decide
  have cut : Text.dropEnd (· == ';') ("typedef".toList ++ (front ++ [b]) ++ ['\x7d', ';']) =
      ("typedef".toList ++ front) ++ b :: ['\x7d'] := by
    simp [Text.dropEnd]
  unfold definedName
  rw [cut, Text.words, splitWhere_append b_blank,
    splitWhere_of_forall close_solid]
  simp

/-- The body of the class adds a pair of braces, which changes no depth. -/
theorem depthAfter_class (d : Nat) (name : Text) :
    Outline.depthAfter? d ("class ".toList ++ name ++ " \x7b\n\x7d;".toList) =
      Outline.depthAfter? d name := by
  rw [List.append_assoc, Outline.depthAfter_append_plain rfl, Outline.depthAfter_append]
  cases Outline.depthAfter? d name <;> rfl

/-- A type definition and what stands for it lead to the same depth. -/
theorem depthAfter_typedefClass {gap body rest : Text}
    (laid : Laid ("typedef".toList ++ gap ++ body ++ ';' :: rest)) (some_gap : gap ≠ [])
    (blank : ∀ c ∈ gap, isBlank c = true) (line : ∀ c ∈ body, c ≠ ';' ∧ c ≠ '\n') (d : Nat) :
    Outline.depthAfter? d (typedefClass ("typedef".toList ++ gap ++ body ++ [';'])) =
      Outline.depthAfter? d ("typedef".toList ++ gap ++ body ++ [';']) := by
  rcases typedefClass_cases ("typedef".toList ++ gap ++ body ++ [';']) with same | named
  · rw [same]
  · rw [named, depthAfter_class]
    have gap_plain : Outline.braces gap = [] := by
      rw [Outline.braces, List.filter_eq_nil_iff]
      intro c hc
      simp [Outline.isBrace_of_isBlank (blank c hc)]
    rcases body_of_laid laid line with plain | rfl
    · have all_plain : Outline.braces ("typedef".toList ++ gap ++ body ++ [';']) = [] := by
        rw [Outline.braces_append, Outline.braces_append, Outline.braces_append, gap_plain, plain]
        rfl
      have name_plain := Outline.braces_eq_nil_of_infix (definedName_isInfix _) all_plain
      rw [Outline.depthAfter_of_braces_nil all_plain, Outline.depthAfter_of_braces_nil name_plain]
    · -- the name that is defined is the brace, so `}` has become `}{}`
      rw [List.append_assoc, List.singleton_append, definedName_close some_gap blank,
        List.append_assoc, Outline.depthAfter_append_plain rfl,
        Outline.depthAfter_append_plain gap_plain]
      cases d <;> rfl

end Source

namespace Outline

/-- Replacing stretches of a text by images that lead to the same depth. -/
theorem depthAfter_replaceMatchesFrom {pattern : Text.Pattern} {image : Text → Text}
    {before : Option Char} {full t : Text} (here : t <:+ full)
    (same : ∀ before c s n, c :: s <:+ full → pattern before (c :: s) = some n → ∀ d,
      depthAfter? d (image (c :: s.take (n - 1))) = depthAfter? d (c :: s.take (n - 1)))
    (d : Nat) :
    depthAfter? d (Text.replaceMatchesFrom pattern image before t) = depthAfter? d t := by
  fun_induction Text.replaceMatchesFrom pattern image before t generalizing d with
  | case1 => rfl
  | case2 before c t n found taken ih =>
    have cut : c :: t = taken ++ t.drop (n - 1) := by
      rw [List.cons_append, List.take_append_drop]
    have behind : t.drop (n - 1) <:+ full := 
      (List.drop_suffix _ t).trans ((List.suffix_cons c t).trans here)
    rw [cut, depthAfter_append, depthAfter_append, same before c t n here found d]
    congr 1
    funext e
    exact ih behind e
  | case3 before c t found ih =>
    have rest := ih ((List.suffix_cons c t).trans here)
    have one (s : Text) :
        depthAfter? d (c :: s) = (depthAfter? d [c]).bind fun e => depthAfter? e s :=
      depthAfter_append d [c] s
    rw [one, one t]
    congr 1
    funext e
    exact rest e

/-- **The braces of a text that is laid out balance as those of its converted text do.** -/
theorem depthAfter_convertTypedefs {t : Text} (laid : Source.Laid t) (d : Nat) :
    depthAfter? d (Source.convertTypedefs t) = depthAfter? d t := by
  refine depthAfter_replaceMatchesFrom List.suffix_rfl (fun before c s n here found d => ?_) d
  have laid_here : Source.Laid (c :: s) := laid.suffix here
  obtain ⟨gap, body, rest, text, rfl, some_gap, blank, line⟩ := Source.typedefLine_eq_some found
  rw [Source.take_typedefLine text]
  exact Source.depthAfter_typedefClass (text ▸ laid_here) some_gap blank line d

theorem balanced_convertTypedefs_iff {t : Text} (laid : Source.Laid t) :
    Balanced (Source.convertTypedefs t) ↔ Balanced t := by
  rw [balanced_iff_depthAfter, balanced_iff_depthAfter, depthAfter_convertTypedefs laid]

end Outline

end AccessorCatalog

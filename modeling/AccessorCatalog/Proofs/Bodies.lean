/-
# What a class body lists

A class body is read line by line, with a count of the open braces that is compared with zero only.
This file says what that reading lists, without a state: `publicDeclarations` asks of every line
what the lines in front of it say, that is whether as many braces close there as open, and which
access label stood last among the lines of which the same is true.

`foldl_feed` says that the reading agrees, on lines in which an opening brace comes last and no
brace closes that was never opened.  Then the count is the number of open braces behind every line
(`openBraces`), and taking closing braces off it never goes below zero (`closes_le`).
-/
import Mathlib.Data.List.Induction
import AccessorCatalog.Outline.ClassBody
import AccessorCatalog.Proofs.Braces
import AccessorCatalog.Proofs.Lines

namespace AccessorCatalog.Outline

/-! ## 1. Lines of a body -/

/-- The lines of a body, each behind those in front of it. -/
def withBefore : List Text → List (List Text × Text)
  | [] => []
  | line :: rest => ([], line) :: (withBefore rest).map fun (before, l) => (line :: before, l)

/-- The number of braces that open in some lines, less the number of those that close. -/
def openBraces (lines : List Text) : Int :=
  (lines.flatten.count '\x7b' : Int) - lines.flatten.count '\x7d'

/-- The lines at body level, in front of which as many braces open as close. -/
def bodyLevel (lines : List Text) : List (List Text × Text) :=
  (withBefore lines).filter fun (before, _) => openBraces before == 0

/-- Whether the section behind some lines is public: the last access label at body level says so,
and without one it is the default. -/
def publicBehind (isStruct : Bool) (lines : List Text) : Bool :=
  match ((bodyLevel lines).filterMap fun (_, line) => accessLine? line).getLast? with
  | some word => word == "public".toList
  | none => isStruct

/-- The declarations of a line at body level: none of an access label, what stands in front of an
opening brace, and otherwise what the semicolons separate. -/
def declarationsOf (line : Text) : List Text :=
  if (accessLine? line).isSome then []
  else
    match Text.beforeSuffix? ['\x7b'] line with
    | some declaration => [declaration]
    | none => Text.splitOn ';' line

/-- The declarations of the lines at body level whose section is public. -/
def publicDeclarations (isStruct : Bool) (lines : List Text) : List Text :=
  (bodyLevel lines).flatMap fun (before, line) =>
    if publicBehind isStruct before then declarationsOf line else []

/-- The members that some declarations declare. -/
def membersOf (declarations : List Text) : Members :=
  declarations.foldl Members.push ⟨[], []⟩

theorem withBefore_concat (lines : List Text) (line : Text) :
    withBefore (lines ++ [line]) = withBefore lines ++ [(lines, line)] := by
  induction lines with
  | nil => rfl
  | cons first lines ih => simp [withBefore, ih]

theorem bodyLevel_concat (lines : List Text) (line : Text) :
    bodyLevel (lines ++ [line]) =
      bodyLevel lines ++ if openBraces lines = 0 then [(lines, line)] else [] := by
  rw [bodyLevel, withBefore_concat, List.filter_append]
  by_cases level : openBraces lines = 0 <;> simp [bodyLevel, level]

theorem publicBehind_concat (isStruct : Bool) (lines : List Text) (line : Text) :
    publicBehind isStruct (lines ++ [line]) =
      if openBraces lines = 0 then
        match accessLine? line with
        | some word => word == "public".toList
        | none => publicBehind isStruct lines
      else publicBehind isStruct lines := by
  unfold publicBehind
  rw [bodyLevel_concat]
  by_cases level : openBraces lines = 0
  · cases label : accessLine? line <;> simp [level, label]
  · simp [level]

theorem publicDeclarations_concat (isStruct : Bool) (lines : List Text) (line : Text) :
    publicDeclarations isStruct (lines ++ [line]) =
      publicDeclarations isStruct lines ++
        if openBraces lines = 0 ∧ publicBehind isStruct lines then declarationsOf line else [] := by
  unfold publicDeclarations
  rw [bodyLevel_concat, List.flatMap_append]
  by_cases level : openBraces lines = 0 <;> simp [level]

/-! ## 2. Depth and counts -/

/-- What opens is closed or still open. -/
theorem depthAfter_count {d e : Nat} {t : Text} (h : depthAfter? d t = some e) :
    e + t.count '\x7d' = d + t.count '\x7b' := by
  induction t generalizing d with
  | nil =>
    cases h
    rfl
  | cons c t ih =>
    rcases brace_cases c with rfl | rfl | ⟨left, right⟩
    · have rest := ih h
      simp only [List.count_cons_self, List.count_cons_of_ne (show '\x7b' ≠ '\x7d' by decide)]
      omega
    · cases d with
      | zero => cases h
      | succ d =>
        have rest := ih h
        simp only [List.count_cons_self, List.count_cons_of_ne (show '\x7d' ≠ '\x7b' by decide)]
        omega
    · rw [depthAfter_other left right] at h
      have rest := ih h
      simpa [List.count_cons_of_ne left, List.count_cons_of_ne right] using rest

theorem openBraces_of_depthAfter {lines : List Text} {d : Nat}
    (h : depthAfter? 0 lines.flatten = some d) : openBraces lines = d := by
  have counts := depthAfter_count h
  unfold openBraces
  omega

/-- In a line an opening brace comes last. -/
def OpensLast (line : Text) : Prop :=
  ∀ front behind, line = front ++ '\x7b' :: behind → behind = []

/-- Such a line has no opening brace, or ends in its only one. -/
theorem OpensLast.cases {line : Text} (h : OpensLast line) :
    '\x7b' ∉ line ∨ ∃ front, line = front ++ ['\x7b'] ∧ '\x7b' ∉ front := by
  by_cases opens : '\x7b' ∈ line
  · obtain ⟨front, behind, rfl, first⟩ := List.eq_append_cons_of_mem opens
    obtain rfl := h front behind rfl
    exact .inr ⟨front, rfl, first⟩
  · exact .inl opens

/-! ## 3. One line -/

/-- An access label holds no braces. -/
theorem braces_of_accessLine {line word : Text} (h : accessLine? line = some word) :
    braces line = [] := by
  have label := List.find?_some h
  have word_plain : ∀ word ∈ Source.accessWords, braces word = [] := by decide
  split at label
  · next rest found =>
    have colon : Text.trimStart rest = [':'] := by simpa using label
    rw [Text.afterPrefix?_eq_some.mp found, braces_append,
      word_plain word (List.mem_of_find?_eq_some h), ← braces_solid rest, ← Source.solid_trimStart,
      colon]
    rfl
  · cases label

/-- A line in which an opening brace comes last, read at depth zero: it has no braces, or the
opening one alone. -/
theorem OpensLast.depth_zero {line : Text} {e : Nat} (opens : OpensLast line)
    (depth : depthAfter? 0 line = some e) :
    (braces line = [] ∧ e = 0) ∨
      (∃ front, line = front ++ ['\x7b'] ∧ braces front = [] ∧ e = 1) := by
  rcases opens.cases with none_opens | ⟨front, rfl, none_opens⟩
  · have counts := depthAfter_count depth
    rw [List.count_eq_zero.mpr none_opens] at counts
    have none_closes : '\x7d' ∉ line := List.count_eq_zero.mp (by omega)
    exact .inl ⟨braces_eq_nil none_opens none_closes, by omega⟩
  · rw [depthAfter_append, Option.bind_eq_some_iff] at depth
    obtain ⟨d, before, behind⟩ := depth
    have counts := depthAfter_count before
    rw [List.count_eq_zero.mpr none_opens] at counts
    have none_closes : '\x7d' ∉ front := List.count_eq_zero.mp (by omega)
    obtain rfl : d + 1 = e := Option.some.inj behind
    exact .inr ⟨front, rfl, braces_eq_nil none_opens none_closes, by omega⟩

namespace ClassBody

/-- Declarations that follow each other are taken if the section is public. -/
theorem foldl_declare (body : ClassBody) (declarations : List Text) :
    declarations.foldl declare body =
      { body with
        members :=
          (if body.isPublic then declarations else []).foldl Members.push body.members } := by
  induction declarations generalizing body with
  | nil => simp
  | cons d declarations ih =>
    rw [List.foldl_cons, ih]
    cases isPublic : body.isPublic <;> simp [declare, isPublic]

/-- Inside braces a line only changes the depth. -/
theorem feed_inside {body : ClassBody} {line : Text} {e : Nat} (inside : body.depth ≠ 0)
    (depth : depthAfter? body.depth line = some e) : body.feed line = { body with depth := e } := by
  have counts := depthAfter_count depth
  have next : body.depth + line.count '\x7b' - line.count '\x7d' = e := by omega
  rw [feed, if_pos (Nat.pos_of_ne_zero inside), next]

/-- At body level an access label only changes the section. -/
theorem feed_label {body : ClassBody} {line word : Text} (level : body.depth = 0)
    (label : accessLine? line = some word) :
    body.feed line = { body with isPublic := word == "public".toList } := by
  simp [feed, level, label]

/-- At body level a line that ends in an opening brace declares what stands in front of it. -/
theorem feed_opening {body : ClassBody} {line front : Text} (level : body.depth = 0)
    (label : accessLine? line = none) (suffix : Text.beforeSuffix? ['\x7b'] line = some front) :
    body.feed line =
      { isPublic := body.isPublic
        depth := 1
        members := (if body.isPublic then declarationsOf line else []).foldl Members.push
          body.members } := by
  cases isPublic : body.isPublic <;>
    simp [feed, level, label, suffix, declare, declarationsOf, isPublic]

/-- At body level a line without braces declares what its semicolons separate. -/
theorem feed_plain {body : ClassBody} {line : Text} (level : body.depth = 0)
    (label : accessLine? line = none) (plain : braces line = []) :
    body.feed line =
      { body with
        members := (if body.isPublic then declarationsOf line else []).foldl Members.push
          body.members } := by
  have no_suffix : Text.beforeSuffix? ['\x7b'] line = none := by
    rw [Option.eq_none_iff_forall_not_mem]
    intro front found
    rw [Source.beforeSuffix_eq_some.mp found] at plain
    simp at plain
  have no_close : Text.startsWith ['\x7d'] line = false := by
    rw [Text.startsWith, Bool.eq_false_iff]
    intro starts
    obtain ⟨rest, rfl⟩ := List.isPrefixOf_iff_prefix.mp starts
    simp at plain
  simp [feed, level, label, no_suffix, no_close, foldl_declare, declarationsOf]

/-- What one line does to a body, if an opening brace comes last in it and it leads to a depth. -/
theorem feed_eq {body : ClassBody} {line : Text} {e : Nat} (opens : OpensLast line)
    (depth : depthAfter? body.depth line = some e) :
    body.feed line =
      { isPublic :=
          if body.depth = 0 then
            match accessLine? line with
            | some word => word == "public".toList
            | none => body.isPublic
          else body.isPublic
        depth := e
        members :=
          (if body.depth = 0 ∧ body.isPublic then declarationsOf line else []).foldl Members.push
            body.members } := by
  by_cases level : body.depth = 0
  · rw [level] at depth
    cases label : accessLine? line with
    | some word =>
      rw [depthAfter_of_braces_nil (braces_of_accessLine label)] at depth
      obtain rfl : 0 = e := Option.some.inj depth
      rw [feed_label level label]
      simp [level, declarationsOf, label]
    | none =>
      rcases opens.depth_zero depth with ⟨plain, rfl⟩ | ⟨front, rfl, -, rfl⟩
      · rw [feed_plain level label plain]
        simp [level]
      · rw [feed_opening level label (Source.beforeSuffix_eq_some.mpr rfl)]
        simp [level]
  · rw [feed_inside level depth]
    simp [level]

/-- **The reading of a body without a state.** -/
theorem foldl_feed {lines : List Text} (isStruct : Bool) (opens : ∀ line ∈ lines, OpensLast line)
    {d : Nat} (depth : depthAfter? 0 lines.flatten = some d) :
    lines.foldl feed (start isStruct) =
      ⟨publicBehind isStruct lines, d, membersOf (publicDeclarations isStruct lines)⟩ := by
  induction lines using List.reverseRecOn generalizing d with
  | nil =>
    cases depth
    rfl
  | append_singleton lines line ih =>
    rw [List.flatten_append, depthAfter_append, Option.bind_eq_some_iff] at depth
    obtain ⟨b, before, behind⟩ := depth
    have read := ih (fun l mem => opens l (List.mem_append_left _ mem)) before
    have level : openBraces lines = 0 ↔ b = 0 := by
      rw [openBraces_of_depthAfter before]
      omega
    rw [List.flatten_singleton] at behind
    rw [List.foldl_append, read, List.foldl_cons, List.foldl_nil,
      feed_eq (opens line (by simp)) behind, publicBehind_concat, publicDeclarations_concat]
    simp only [level, membersOf, List.foldl_append]

/-- In front of a line that closes no brace of the outside, enough braces are open. -/
theorem closes_le {body : ClassBody} {line : Text} {e : Nat}
    (depth : depthAfter? body.depth line = some e) :
    line.count '\x7d' ≤ body.depth + line.count '\x7b' := by
  have counts := depthAfter_count depth
  omega

end ClassBody

end AccessorCatalog.Outline

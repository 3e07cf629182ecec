/-
# Lines and blanks

Everything behind the layout of a header reads it by trimmed lines, and none of that reading touches
more than blanks.  A line break cuts the trimmed lines of a text in two (`trimmedLines_append`), and
the lines together hold the characters of the text that are no blanks
(`solid_flatten_trimmedLines`).
-/
import AccessorCatalog.Source.Layout

namespace AccessorCatalog.Source

open Text (isBlank)

/-! ## 1. The solid part of a text -/

@[simp] theorem solid_nil : solid [] = [] := rfl

@[simp] theorem solid_append (s t : Text) : solid (s ++ t) = solid s ++ solid t :=
  List.filter_append s t

theorem solid_cons (c : Char) (t : Text) :
    solid (c :: t) = if isBlank c then solid t else c :: solid t := by
  cases h : isBlank c <;> simp [solid, h]

theorem solid_reverse (t : Text) : solid t.reverse = (solid t).reverse :=
  List.filter_reverse

/-- Leading blanks are no part of it. -/
theorem solid_trimStart (t : Text) : solid (Text.trimStart t) = solid t := by
  induction t with
  | nil => rfl
  | cons c t ih =>
    cases h : isBlank c with
    | true =>
      rw [solid_cons, if_pos h, ← ih]
      simp [Text.trimStart, Text.dropStart, h]
    | false => simp [Text.trimStart, Text.dropStart, h]

theorem solid_trimEnd (t : Text) : solid (Text.trimEnd t) = solid t := by
  have := solid_trimStart t.reverse
  rw [solid_reverse] at this
  rw [Text.trimEnd, Text.dropEnd, solid_reverse, ← List.reverse_reverse (solid t)]
  exact congrArg List.reverse this

theorem solid_trim (t : Text) : solid (Text.trim t) = solid t := by
  rw [Text.trim, solid_trimEnd, solid_trimStart]

/-! ## 2. Pieces between line breaks -/

theorem takeWhile_append_stop {p : Char → Bool} {c : Char} (stop : p c = false) (s t : Text) :
    (s ++ c :: t).takeWhile p = s.takeWhile p := by
  induction s with
  | nil => simp [stop]
  | cons d s ih => cases h : p d <;> simp [h, ih]

theorem dropWhile_append_stop {p : Char → Bool} {c : Char} (stop : p c = false) (s t : Text) :
    (s ++ c :: t).dropWhile p = s.dropWhile p ++ c :: t := by
  induction s with
  | nil => simp [stop]
  | cons d s ih => cases h : p d <;> simp [h, ih]

theorem splitWhere_append {p : Char → Bool} {c : Char} (h : p c = true) (s t : Text) :
    Text.splitWhere p (s ++ c :: t) = Text.splitWhere p s ++ Text.splitWhere p t := by
  induction s with
  | nil => simp [Text.splitWhere, h]
  | cons d s ih =>
    cases hd : p d with
    | true => simp [Text.splitWhere, hd, ih]
    | false =>
      obtain ⟨piece, pieces, split⟩ := List.exists_cons_of_ne_nil (Text.splitWhere_ne_nil p s)
      simp [Text.splitWhere, hd, ih, split, Text.consFirst]

theorem splitWhere_of_forall {p : Char → Bool} {t : Text} (h : ∀ c ∈ t, p c = false) :
    Text.splitWhere p t = [t] := by
  induction t with
  | nil => rfl
  | cons d t ih =>
    have rest := ih fun c hc => h c (List.mem_cons_of_mem _ hc)
    simp [Text.splitWhere, h d List.mem_cons_self, rest, Text.consFirst]

/-- Joining puts the separator behind every piece but the last. -/
theorem join_cons_cons (sep piece next : Text) (pieces : List Text) :
    Text.join sep (piece :: next :: pieces) = piece ++ sep ++ Text.join sep (next :: pieces) := by
  simp [Text.join, List.intercalate]

theorem join_ne_nil {piece : Text} (filled : piece ≠ []) (sep : Text) (pieces : List Text) :
    Text.join sep (piece :: pieces) ≠ [] := by
  cases pieces with
  | nil => simpa [Text.join] using filled
  | cons next pieces =>
    rw [join_cons_cons]
    simp [filled]

theorem splitOn_append (c : Char) (s t : Text) :
    Text.splitOn c (s ++ c :: t) = Text.splitOn c s ++ Text.splitOn c t :=
  splitWhere_append (by simp) s t

theorem splitOn_of_not_mem {c : Char} {t : Text} (h : c ∉ t) : Text.splitOn c t = [t] :=
  splitWhere_of_forall fun d hd => by
    have : d ≠ c := fun e => h (e ▸ hd)
    simp [this]

/-- The first piece starts the text, and the others are stretches of it. -/
theorem exists_splitWhere (p : Char → Bool) (t : Text) :
    ∃ first pieces, Text.splitWhere p t = first :: pieces ∧ first <+: t ∧
      ∀ piece ∈ pieces, piece <:+: t := by
  induction t with
  | nil => exact ⟨[], [], rfl, List.prefix_rfl, by simp⟩
  | cons d t ih =>
    obtain ⟨first, pieces, split, start, inside⟩ := ih
    have behind : ∀ piece ∈ pieces, piece <:+: d :: t := fun piece mem =>
      (inside piece mem).trans (List.suffix_cons d t).isInfix
    cases hd : p d with
    | true =>
      refine ⟨[], first :: pieces, by simp [Text.splitWhere, hd, split], List.nil_prefix, ?_⟩
      intro piece mem
      rcases List.mem_cons.mp mem with rfl | mem
      · exact start.isInfix.trans (List.suffix_cons d t).isInfix
      · exact behind piece mem
    | false =>
      exact ⟨d :: first, pieces, by simp [Text.splitWhere, hd, split, Text.consFirst],
        List.cons_prefix_cons.mpr ⟨rfl, start⟩, behind⟩

theorem infix_of_mem_splitWhere {p : Char → Bool} {t piece : Text}
    (h : piece ∈ Text.splitWhere p t) : piece <:+: t := by
  obtain ⟨first, pieces, split, start, inside⟩ := exists_splitWhere p t
  rw [split] at h
  rcases List.mem_cons.mp h with rfl | h
  · exact start.isInfix
  · exact inside piece h

/-- What holds of a text without separators, and of one in front of a text that has it, holds of
every text. -/
theorem splitOn_induction {c : Char} {motive : Text → Prop} (last : ∀ t, c ∉ t → motive t)
    (more : ∀ s t, c ∉ s → motive t → motive (s ++ c :: t)) (t : Text) : motive t := by
  induction hn : t.length using Nat.strongRecOn generalizing t with
  | ind n ih =>
    subst hn
    by_cases h : c ∈ t
    · obtain ⟨s, rest, rfl, first⟩ := List.eq_append_cons_of_mem h
      exact more s rest first (ih rest.length (by simp; omega) rest rfl)
    · exact last t h

/-- No piece holds the separator. -/
theorem not_mem_of_mem_splitOn {c : Char} {t : Text} : ∀ piece ∈ Text.splitOn c t, c ∉ piece := by
  induction t using splitOn_induction (c := c) with
  | last t h =>
    intro piece mem
    rw [splitOn_of_not_mem h, List.mem_singleton] at mem
    rwa [mem]
  | more s t h ih =>
    intro piece mem
    rw [splitOn_append, splitOn_of_not_mem h] at mem
    rcases List.mem_cons.mp mem with rfl | mem
    · exact h
    · exact ih piece mem

/-! ## 3. Trimmed lines -/

theorem beforeSuffix_eq_some {tail t rest : Text} :
    Text.beforeSuffix? tail t = some rest ↔ t = rest ++ tail := by
  rw [Text.beforeSuffix?, Option.map_eq_some_iff]
  constructor
  · rintro ⟨r, h, rfl⟩
    rw [Text.afterPrefix?_eq_some] at h
    rw [← List.reverse_reverse t, h, List.reverse_append, List.reverse_reverse]
  · rintro rfl
    exact ⟨rest.reverse, by rw [Text.afterPrefix?_eq_some, List.reverse_append],
      List.reverse_reverse rest⟩

/-- A blank at the end is trimmed away. -/
theorem trim_concat_blank {b : Char} (h : isBlank b = true) (t : Text) :
    Text.trim (t ++ [b]) = Text.trim t := by
  have drop_end (w : Text) : Text.trimEnd (w ++ [b]) = Text.trimEnd w := by
    simp [Text.trimEnd, Text.dropEnd, h]
  unfold Text.trim Text.trimStart Text.dropStart
  rw [List.dropWhile_append]
  split
  · next blank =>
    rw [List.isEmpty_iff] at blank
    simp [blank, h]
  · exact drop_end _

/-- A text without blanks has nothing to trim. -/
theorem trim_of_solid {t : Text} (h : ∀ c ∈ t, isBlank c = false) : Text.trim t = t := by
  have keep {s : Text} (h : ∀ c ∈ s, isBlank c = false) : s.dropWhile isBlank = s := by
    cases s with
    | nil => rfl
    | cons c s => simp [h c List.mem_cons_self]
  unfold Text.trim Text.trimStart Text.dropStart Text.trimEnd Text.dropEnd
  rw [keep h, keep fun c hc => h c (List.mem_reverse.mp hc), List.reverse_reverse]

/-- What is dropped at the end stands behind what is kept. -/
theorem dropEnd_append (p : Char → Bool) (t : Text) :
    Text.dropEnd p t ++ (t.reverse.takeWhile p).reverse = t := by
  rw [Text.dropEnd, ← List.reverse_append, List.takeWhile_append_dropWhile, List.reverse_reverse]

theorem dropEnd_isPrefix (p : Char → Bool) (t : Text) : Text.dropEnd p t <+: t :=
  ⟨_, dropEnd_append p t⟩

theorem trim_isInfix (t : Text) : Text.trim t <:+: t :=
  (dropEnd_isPrefix isBlank _).isInfix.trans (List.dropWhile_suffix isBlank).isInfix

/-- A carriage return at the end of a line is a blank like any other. -/
theorem trim_withoutSuffix_return (line : Text) :
    Text.trim (Text.withoutSuffix ['\r'] line) = Text.trim line := by
  unfold Text.withoutSuffix
  cases h : Text.beforeSuffix? ['\r'] line with
  | none => rfl
  | some rest =>
    rw [beforeSuffix_eq_some.mp h, Option.getD_some, trim_concat_blank (by decide)]

/-- The trimmed lines of a text are its trimmed pieces that are not empty. -/
theorem trimmedLines_eq (t : Text) :
    trimmedLines t = ((Text.splitOn '\n' t).map Text.trim).filter fun line => !line.isEmpty := by
  obtain ⟨front, last, pieces⟩ := (List.eq_nil_or_concat (Text.splitOn '\n' t)).resolve_left
    (Text.splitWhere_ne_nil _ t)
  rw [List.concat_eq_append] at pieces
  have front_lines : front.map (Text.trim ∘ Text.withoutSuffix ['\r']) = front.map Text.trim :=
    List.map_congr_left fun line _ => trim_withoutSuffix_return line
  rw [trimmedLines, Text.lines_of_splitOn pieces, pieces, List.map_append, List.map_append,
    List.map_map, front_lines, List.filter_append, List.filter_append]
  -- an empty last piece does not pass the filter either
  cases last with
  | nil => rfl
  | cons c last => rfl

theorem trimmedLines_append (s t : Text) :
    trimmedLines (s ++ '\n' :: t) = trimmedLines s ++ trimmedLines t := by
  simp only [trimmedLines_eq, splitOn_append, List.map_append, List.filter_append]

@[simp] theorem trimmedLines_nil : trimmedLines [] = [] := rfl

/-- A text without line breaks is one line, or none if it is blank. -/
theorem trimmedLines_of_not_mem {t : Text} (h : '\n' ∉ t) :
    trimmedLines t = if (Text.trim t).isEmpty then [] else [Text.trim t] := by
  rw [trimmedLines_eq, splitOn_of_not_mem h]
  cases blank : (Text.trim t).isEmpty <;> simp [blank]

/-- **The lines of a text hold all of it but blanks.** -/
theorem solid_flatten_trimmedLines (t : Text) : solid (trimmedLines t).flatten = solid t := by
  have line {s : Text} (h : '\n' ∉ s) : solid (trimmedLines s).flatten = solid s := by
    rw [trimmedLines_of_not_mem h, ← solid_trim s]
    split
    · next blank => rw [List.isEmpty_iff.mp blank]; rfl
    · simp
  induction t using splitOn_induction (c := '\n') with
  | last t h => exact line h
  | more s t h ih =>
    rw [trimmedLines_append, List.flatten_append, solid_append, line h, ih, solid_append,
      solid_cons, if_pos (by decide)]

/-- A line is a stretch of the text. -/
theorem infix_of_mem_trimmedLines {t line : Text} (h : line ∈ trimmedLines t) : line <:+: t := by
  rw [trimmedLines_eq] at h
  obtain ⟨piece, mem, rfl⟩ := List.mem_map.mp (List.mem_filter.mp h).1
  exact (trim_isInfix piece).trans (infix_of_mem_splitWhere mem)

/-- And holds no line break. -/
theorem not_mem_of_mem_trimmedLines {t line : Text} (h : line ∈ trimmedLines t) : '\n' ∉ line := by
  rw [trimmedLines_eq] at h
  obtain ⟨piece, mem, rfl⟩ := List.mem_map.mp (List.mem_filter.mp h).1
  exact fun mem_trim => not_mem_of_mem_splitOn piece mem ((trim_isInfix piece).subset mem_trim)

end AccessorCatalog.Source

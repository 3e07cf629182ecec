/-
# Lines with labels and columns

A catalog is written in lines that have a label in front or two columns, and it is read by trimmed
lines. This file says what a reader finds on such a line again, whatever its padding: the label and
what stands behind it (`splitLabel_trim`), and the two columns (`splitColumns?_row`).  The line of
an accessor is taken for no label, since its first word is that of its type (`splitLabel_row`).
-/
import Mathlib.Data.List.TakeWhile
import AccessorCatalog.Accessor.Basic
import AccessorCatalog.Catalog.Listing
import AccessorCatalog.Proofs.Lines

namespace AccessorCatalog

/-! ## 1. Trimming -/

namespace Text

variable {t lead tail : Text}

@[simp] theorem trim_nil : trim [] = [] := rfl

theorem trim_blanks_append (blank : ∀ b ∈ lead, isBlank b = true) :
    trim (lead ++ t) = trim t := by
  unfold trim trimStart dropStart
  rw [List.dropWhile_append_of_pos blank]

theorem trim_append_blanks (blank : ∀ b ∈ tail, isBlank b = true) :
    trim (t ++ tail) = trim t := by
  induction tail generalizing t with
  | nil => rw [List.append_nil]
  | cons b tail ih =>
    rw [List.append_cons, ih fun c mem => blank c (List.mem_cons_of_mem b mem),
      Source.trim_concat_blank (blank b List.mem_cons_self)]

/-- A trimmed text starts and ends with no blank. -/
theorem trim_edges (t : Text) :
    (∀ c ∈ (trim t).head?, isBlank c = false) ∧ ∀ c ∈ (trim t).getLast?, isBlank c = false := by
  have first (s : Text) : ∀ c ∈ (s.dropWhile isBlank).head?, isBlank c = false := by
    intro c mem
    have not_blank := List.head?_dropWhile_not isBlank s
    rw [Option.mem_def.mp mem] at not_blank
    simpa using not_blank
  constructor
  · intro c mem
    obtain ⟨rest, start⟩ := Source.dropEnd_isPrefix isBlank (trimStart t)
    refine first t c ?_
    change c ∈ (trimStart t).head?
    rw [← start, List.head?_append]
    exact Option.mem_def.mpr (Option.or_eq_some_iff.mpr (.inl mem))
  · intro c mem
    rw [trim, trimEnd, dropEnd, List.getLast?_reverse] at mem
    exact first _ c mem

/-- A text that does has nothing to trim. -/
theorem trim_of_edges (first : ∀ c ∈ t.head?, isBlank c = false)
    (last : ∀ c ∈ t.getLast?, isBlank c = false) : trim t = t := by
  have keep {s : Text} (h : ∀ c ∈ s.head?, isBlank c = false) : s.dropWhile isBlank = s := by
    cases s with
    | nil => rfl
    | cons c s => simp [h c rfl]
  unfold trim trimStart dropStart trimEnd dropEnd
  rw [keep first, keep (by simpa using last), List.reverse_reverse]

/-- Between two trimmed texts nothing is trimmed. -/
theorem trim_between {left right : Text} (middle : Text) (trim_left : trim left = left)
    (trim_right : trim right = right) (some_left : left ≠ []) (some_right : right ≠ []) :
    trim (left ++ middle ++ right) = left ++ middle ++ right := by
  apply trim_of_edges
  · have edge := (trim_edges left).1
    rw [trim_left] at edge
    obtain ⟨c, left, rfl⟩ := List.exists_cons_of_ne_nil some_left
    exact edge
  · have edge := (trim_edges right).2
    rw [trim_right] at edge
    have last := List.getLast?_eq_some_getLast some_right
    rwa [List.getLast?_append, last, Option.some_or, ← last]

/-- Text behind a word is trimmed at its end only. -/
theorem trim_word_append {word : Text} (filled : word ≠ [])
    (solid : ∀ c ∈ word, isBlank c = false) (t : Text) :
    trim (word ++ t) = word ++ trimEnd t := by
  have start : trimStart (word ++ t) = word ++ t := by
    obtain ⟨c, word, rfl⟩ := List.exists_cons_of_ne_nil filled
    simp [trimStart, dropStart, solid c List.mem_cons_self]
  have keep : word.reverse.dropWhile isBlank = word.reverse := by
    rw [List.dropWhile_eq_self_iff]
    intro some_word
    simpa using solid _ (List.mem_reverse.mp (List.getElem_mem some_word))
  rw [trim, start, trimEnd, trimEnd, dropEnd, dropEnd, List.reverse_append, List.dropWhile_append]
  split
  · next blank =>
    rw [keep, List.isEmpty_iff.mp blank, List.reverse_reverse, List.reverse_nil, List.append_nil]
  · rw [List.reverse_append, List.reverse_reverse]

theorem trim_trimEnd (t : Text) : trim (trimEnd t) = trim t := by
  have blank : ∀ b ∈ (t.reverse.takeWhile isBlank).reverse, isBlank b = true := fun b mem =>
    List.mem_takeWhile_imp (List.mem_reverse.mp mem)
  rw [← trim_append_blanks blank, trimEnd, Source.dropEnd_append]

/-! ## 2. Lines -/

/-- Lines that end in line feeds are read one by one. -/
theorem trim_lines_flatMap {ls : List Text} (single : ∀ line ∈ ls, '\n' ∉ line) :
    (lines (ls.flatMap fun line => line ++ ['\n'])).map trim = ls.map trim := by
  have pieces : splitOn '\n' (ls.flatMap fun line => line ++ ['\n']) = ls ++ [[]] := by
    induction ls with
    | nil => rfl
    | cons line ls ih =>
      rw [List.flatMap_cons, List.append_assoc, List.singleton_append, Source.splitOn_append,
        Source.splitOn_of_not_mem (single line List.mem_cons_self),
        ih fun l mem => single l (List.mem_cons_of_mem line mem)]
      rfl
  rw [lines_of_splitOn pieces, List.isEmpty_nil, if_pos rfl, List.append_nil, List.map_map]
  exact List.map_congr_left fun line _ => Source.trim_withoutSuffix_return line

/-! ## 3. Cutting at the first separator -/

section Parts

variable {piece left right : Text}

/-- Nothing is lost where a text is cut. -/
theorem eq_of_cutFirst? (found : cutFirst? piece t = some (left, right)) :
    t = left ++ piece ++ right := by
  induction t generalizing left with
  | nil =>
    rw [cutFirst?, Option.map_eq_some_iff] at found
    obtain ⟨rest, start, ends⟩ := found
    cases ends
    exact afterPrefix?_eq_some.mp start
  | cons c t ih =>
    rw [cutFirst?] at found
    split at found
    · next rest start =>
      cases found
      exact afterPrefix?_eq_some.mp start
    · obtain ⟨⟨left, right⟩, cut, ends⟩ := Option.map_eq_some_iff.mp found
      cases ends
      rw [ih cut]
      rfl

theorem eq_of_cutLast? (found : cutLast? piece t = some (left, right)) :
    t = left ++ piece ++ right := by
  obtain ⟨⟨behind, front⟩, cut, ends⟩ := Option.map_eq_some_iff.mp found
  cases ends
  rw [← List.reverse_reverse t, eq_of_cutFirst? cut]
  simp

end Parts

/-- A text is cut behind a left part if the separator does not start to occur earlier. -/
theorem cutFirst?_append {piece left : Text} (absent : ¬ piece <:+: left ++ piece.dropLast)
    (right : Text) : cutFirst? piece (left ++ piece ++ right) = some (left, right) := by
  induction left with
  | nil =>
    have here : afterPrefix? piece (piece ++ right) = some right := afterPrefix?_eq_some.mpr rfl
    rw [List.nil_append]
    cases whole : piece ++ right with
    | nil => rw [cutFirst?, ← whole, here]; rfl
    | cons c t => rw [cutFirst?, ← whole, here]
  | cons c left ih =>
    have behind := ih fun found => absent (found.trans (List.suffix_cons c _).isInfix)
    have not_here : afterPrefix? piece (c :: (left ++ piece ++ right)) = none := by
      rw [Option.eq_none_iff_forall_not_mem]
      intro rest found
      -- an occurrence here would lie in front of the last character of the separator
      have start :
          piece <+: c :: left ++ piece.dropLast ++ (piece.drop (piece.length - 1) ++ right) := by
        refine ⟨rest, ?_⟩
        rw [← afterPrefix?_eq_some.mp found, List.append_assoc (c :: left),
          ← List.append_assoc _ _ right, List.dropLast_eq_take, List.take_append_drop]
        simp
      have shorter : piece.length ≤ (c :: left ++ piece.dropLast).length := by
        simp
        omega
      exact absent (List.prefix_of_prefix_length_le start (List.prefix_append _ _) shorter).isInfix
    rw [List.cons_append, List.cons_append, cutFirst?, not_here, behind]
    rfl

/-- A text in which the separator does not occur is not cut. -/
theorem cutFirst?_eq_none {piece t : Text} (absent : ¬ piece <:+: t) :
    cutFirst? piece t = none := by
  have not_here {s : Text} (suffix : s <:+ t) : afterPrefix? piece s = none := by
    rw [Option.eq_none_iff_forall_not_mem]
    intro rest found
    have start : piece <+: s := ⟨rest, (afterPrefix?_eq_some.mp found).symm⟩
    exact absent (start.isInfix.trans suffix.isInfix)
  induction t with
  | nil => rw [cutFirst?, not_here List.suffix_rfl, Option.map_none]
  | cons c t ih =>
    have behind := ih (fun found => absent (found.trans (List.suffix_cons c t).isInfix))
      fun suffix => not_here (suffix.trans (List.suffix_cons c t))
    rw [cutFirst?, not_here List.suffix_rfl, behind, Option.map_none]

theorem cutFirst?_of_not_mem {c : Char} {t : Text} (absent : c ∉ t) : cutFirst? [c] t = none :=
  cutFirst?_eq_none fun found => absent (found.subset List.mem_cons_self)

theorem beforeChar_of_not_mem {c : Char} {t : Text} (absent : c ∉ t) : beforeChar c t = t := by
  rw [beforeChar, List.takeWhile_eq_self_iff]
  intro d mem
  simpa using ne_of_mem_of_not_mem mem absent

theorem beforeChar_append_cons {c : Char} {left : Text} (absent : c ∉ left) (right : Text) :
    beforeChar c (left ++ c :: right) = left := by
  rw [beforeChar, Source.takeWhile_append_stop (by simp)]
  exact beforeChar_of_not_mem absent

theorem cutFirst?_char {c : Char} {t : Text} (h : c ∈ t) :
    cutFirst? [c] t = some (beforeChar c t, t.drop ((beforeChar c t).length + 1)) := by
  obtain ⟨left, right, rfl, absent⟩ := List.eq_append_cons_of_mem h
  have nowhere : ¬ [c] <:+: left ++ [c].dropLast := fun found =>
    absent (by simpa using found.subset List.mem_cons_self)
  have cut := cutFirst?_append nowhere right
  rw [List.append_assoc, List.singleton_append] at cut
  rw [beforeChar_append_cons absent, cut, List.drop_length_add_append]
  rfl

end Text

/-! ## 4. Labels -/

namespace Listing

/-- The first word of a text, where a blank or nothing stands behind it. -/
theorem splitLabel_word_append {word rest : Text} (solid : ∀ c ∈ word, Text.isBlank c = false)
    (ends : ∀ b ∈ rest.head?, Text.isBlank b = true) :
    splitLabel (word ++ rest) = (word, Text.trim rest) := by
  have stop : rest.takeWhile (fun c => !Text.isBlank c) = [] := by
    cases rest with
    | nil => rfl
    | cons b rest => simp [ends b rfl]
  have first : (word ++ rest).takeWhile (fun c => !Text.isBlank c) = word := by
    rw [List.takeWhile_append_of_pos (by simpa using solid), stop, List.append_nil]
  unfold splitLabel
  dsimp only
  rw [first, List.drop_left]

/-- A label and the text behind it, from a trimmed line. -/
theorem splitLabel_trim {word gap : Text} (filled : word ≠ [])
    (solid : ∀ c ∈ word, Text.isBlank c = false) (some_gap : gap ≠ [])
    (blank : ∀ b ∈ gap, Text.isBlank b = true) (value : Text) :
    splitLabel (Text.trim (word ++ gap ++ value)) = (word, Text.trim value) := by
  have ends : ∀ b ∈ (Text.trimEnd (gap ++ value)).head?, Text.isBlank b = true := by
    intro b mem
    obtain ⟨tail, whole⟩ := Source.dropEnd_isPrefix Text.isBlank (gap ++ value)
    obtain ⟨d, gap, rfl⟩ := List.exists_cons_of_ne_nil some_gap
    obtain ⟨rest, start⟩ := List.head?_eq_some_iff.mp mem
    change Text.trimEnd (d :: gap ++ value) ++ tail = d :: gap ++ value at whole
    rw [start] at whole
    rw [(List.cons.inj whole).1]
    exact blank d List.mem_cons_self
  rw [List.append_assoc, Text.trim_word_append filled solid, splitLabel_word_append solid ends,
    Text.trim_trimEnd, Text.trim_blanks_append blank]

/-! ## 5. Columns -/

/-- A trimmed line with two columns. -/
def row (type subject : Text) : Text :=
  type ++ [' ', ' '] ++ subject

variable {type subject : Text}

theorem trim_listingLine (trim_type : Text.trim type = type)
    (trim_subject : Text.trim subject = subject) (some_type : type ≠ [])
    (some_subject : subject ≠ []) :
    Text.trim (listingLine type subject) = row type subject := by
  have padding :
      ∀ b ∈ List.replicate (listingTypeWidth - type.length) ' ', Text.isBlank b = true := by
    intro b mem
    rw [List.eq_of_mem_replicate mem]
    decide
  unfold listingLine Text.padLeft
  rw [List.append_assoc, List.append_assoc, Text.trim_blanks_append padding, ← List.append_assoc,
    Text.trim_between [' ', ' '] trim_type trim_subject some_type some_subject]
  rfl

/-- **The columns are found again**, if the type holds no two blanks next to each other. -/
theorem splitColumns?_row (trim_type : Text.trim type = type)
    (trim_subject : Text.trim subject = subject) (single : ¬ [' ', ' '] <:+: type) :
      splitColumns? (row type subject) = some (type, subject) := by
  have absent : ¬ [' ', ' '] <:+: type ++ [' ', ' '].dropLast := by
    rintro ⟨front, behind, cut⟩
    obtain rfl | ⟨behind, c, rfl⟩ := List.eq_nil_or_concat behind
    · -- two blanks at the end: the first of them would end the type
      have last : front ++ [' '] = type := by
        have cut' : (front ++ [' ']) ++ [' '] = type ++ [' '] := by simpa using cut
        exact (List.append_inj' cut' rfl).1
      have edge := (Text.trim_edges type).2
      rw [trim_type, ← last, List.getLast?_concat] at edge
      exact absurd (edge ' ' rfl) (by decide)
    · have cut' : (front ++ [' ', ' '] ++ behind) ++ [c] = type ++ [' '] := by simpa using cut
      exact single ⟨front, behind, (List.append_inj' cut' rfl).1⟩
  unfold splitColumns? row
  rw [Text.cutFirst?_append absent, Option.map_some]
  dsimp only
  rw [trim_type, trim_subject]

/-- The first word of a line is that of its type. -/
theorem splitLabel_row : (splitLabel (row type subject)).1 = (splitLabel type).1 := by
  unfold splitLabel row
  dsimp only
  rw [List.append_assoc]
  exact Source.takeWhile_append_stop (by decide) type _

end Listing
end AccessorCatalog

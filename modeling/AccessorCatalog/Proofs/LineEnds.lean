/-
# Opening braces end their lines

In a normalized header a line break follows every opening brace (`Source.Laid`).  The conversion of
type definitions and the two passes of the segmentation write new text into it, and keep that much
of the layout: the class of a type definition is broken behind its brace, and a mark never stands on
the line of a brace.  So in every line among the tokens of a segmented header an opening brace comes
last (`opensLast_of_mem_tokens`).
-/
import AccessorCatalog.Proofs.Bodies
import AccessorCatalog.Proofs.Segmentation

namespace AccessorCatalog

/-! ## 1. Brace and line break -/

namespace Source

/-- Opening braces end their lines. -/
def OpensEndLines (t : Text) : Prop :=
  t.IsChain (BreakBehind '\x7b')

/-- Texts one behind the other, if the first ends with no opening brace. -/
theorem OpensEndLines.append {s t : Text} (first : OpensEndLines s) (second : OpensEndLines t)
    (ended : s.getLast? ≠ some '\x7b') : OpensEndLines (s ++ t) := by
  refine List.isChain_append.mpr ⟨first, second, ?_⟩
  rintro a last b - rfl
  exact absurd last ended

/-- In front of a character that is no opening brace, and of one that is but has its line break. -/
theorem OpensEndLines.cons {c : Char} {t : Text} (rest : OpensEndLines t)
    (next : c = '\x7b' → ∀ b ∈ t.head?, b = '\n') : OpensEndLines (c :: t) :=
  List.isChain_cons.mpr ⟨fun b mem opens => next opens b mem, rest⟩

theorem OpensEndLines.head {t : Text} (h : OpensEndLines ('\x7b' :: t)) : ∀ b ∈ t.head?, b = '\n' :=
  fun b mem => (List.isChain_cons.mp h).1 b mem rfl

/-! ## 2. Type definitions -/

/-- The class of a type definition has its brace at the end of a line, and ends with a semicolon
like the definition. -/
theorem opensEndLines_typedefClass {line : Text} (none_opens : '\x7b' ∉ line)
    (ended : line.getLast? = some ';') :
    OpensEndLines (typedefClass line) ∧ (typedefClass line).getLast? = some ';' := by
  rcases typedefClass_cases line with same | named
  · rw [same]
    exact ⟨isChain_breakBehind_of_not_mem none_opens, ended⟩
  · have name : '\x7b' ∉ definedName line := fun mem =>
      none_opens ((definedName_isInfix line).subset mem)
    have front : '\x7b' ∉ "class ".toList ++ definedName line := by
      rw [List.mem_append]
      rintro (mem | mem)
      · exact absurd mem (by decide)
      · exact name mem
    have braces : OpensEndLines " \x7b\n\x7d;".toList := by
      simp [OpensEndLines, BreakBehind]
    rw [named]
    refine ⟨OpensEndLines.append (isChain_breakBehind_of_not_mem front) braces fun last => ?_, ?_⟩
    · exact front (List.mem_of_getLast? last)
    · rw [List.getLast?_append]
      rfl

/-- In a text that is laid out, no brace opens in a type definition. -/
theorem not_mem_typedef {gap body rest : Text}
    (laid : Laid ("typedef".toList ++ gap ++ body ++ ';' :: rest))
    (blank : ∀ c ∈ gap, Text.isBlank c = true) (line : ∀ c ∈ body, c ≠ ';' ∧ c ≠ '\n') :
    '\x7b' ∉ "typedef".toList ++ gap ++ body ++ [';'] := by
  have gap_plain : '\x7b' ∉ gap := fun mem => absurd (blank _ mem) (by decide)
  have body_plain : '\x7b' ∉ body := by
    rcases body_of_laid laid line with plain | rfl
    · intro mem
      have brace : '\x7b' ∈ Outline.braces body := List.mem_filter.mpr ⟨mem, rfl⟩
      rw [plain] at brace
      cases brace
    · decide
  simp [gap_plain, body_plain]

/-- **Converted type definitions keep opening braces at the ends of lines.** -/
theorem opensEndLines_convertTypedefs {t : Text} (laid : Laid t) :
    OpensEndLines (convertTypedefs t) := by
  have scan (before : Option Char) (t : Text) (laid : Laid t) :
      OpensEndLines (Text.replaceMatchesFrom typedefLine typedefClass before t) ∧
        (Laid ('\x7b' :: t) →
          ∀ b ∈ (Text.replaceMatchesFrom typedefLine typedefClass before t).head?, b = '\n') := by
    fun_induction Text.replaceMatchesFrom typedefLine typedefClass before t with
    | case1 => exact ⟨.nil, fun _ b mem => by cases mem⟩
    | case2 before c t n found taken ih =>
      obtain ⟨gap, body, rest, text, rfl, some_gap, blank, line⟩ := typedefLine_eq_some found
      have line_eq : taken = "typedef".toList ++ gap ++ body ++ [';'] := take_typedefLine text
      obtain ⟨image, ended⟩ := opensEndLines_typedefClass
        (not_mem_typedef (text ▸ laid) blank line) List.getLast?_concat
      rw [← line_eq] at image ended
      have rest := (ih (laid.suffix ((List.drop_suffix _ t).trans (List.suffix_cons c t)))).1
      refine ⟨image.append rest (by rw [ended]; decide), fun behind_open => ?_⟩
      -- a definition starts with its keyword, so it does not follow a brace
      have next : Fits '\x7b' c := Laid.fits (s := []) behind_open
      obtain ⟨rfl, -⟩ := List.cons.inj text
      exact absurd (next.afterOpen rfl) (by decide)
    | case3 before c t found ih =>
      obtain ⟨rest, next⟩ := ih laid.tail
      refine ⟨rest.cons ?_, fun behind_open b mem => ?_⟩
      · rintro rfl
        exact next laid
      · cases mem
        exact (Laid.fits (s := []) behind_open).afterOpen rfl
  exact (scan none t laid).1

end Source

namespace Outline

open Source (OpensEndLines)

/-! ## 3. Marks -/

theorem Mark.getLast?_shown (m : Mark) : m.shown.getLast? = some '\n' := by
  unfold Mark.shown
  split <;> exact List.getLast?_concat

/-- A mark keeps to its own lines. -/
theorem Mark.opensEndLines_shown_append (m : Mark) {t : Text} (rest : OpensEndLines t) :
    OpensEndLines (m.shown ++ t) := by
  have none_opens : '\x7b' ∉ m.shown :=
    List.count_eq_zero.mp (count_open_of_braces_nil m.braces_shown)
  exact OpensEndLines.append (Source.isChain_breakBehind_of_not_mem none_opens) rest
    (by rw [m.getLast?_shown]; decide)

namespace Marking

variable {pass : Pass} {next : Nat} {before : Option Char} {opened : List (Option Mark)}
  {ps qs : List Piece}

/-- **A pass keeps opening braces at the ends of lines**: a mark that opens starts a line, and one
that closes breaks the line in front of it. -/
theorem opensEndLines (h : Marking pass next before opened ps qs)
    (ends : OpensEndLines (marked ps))
    (joint : before = some '\x7b' → ∀ b ∈ (marked ps).head?, b = '\n') :
    OpensEndLines (marked qs) ∧ (before = some '\x7b' → ∀ b ∈ (marked qs).head?, b = '\n') := by
  induction h with
  | done _ => exact ⟨.nil, fun _ b mem => by cases mem⟩
  | @earlier _ _ _ m _ _ _ _ _ ih =>
    obtain ⟨rest, -⟩ := ih ends.right_of_append fun h => absurd h (by decide)
    refine ⟨m.opensEndLines_shown_append rest, fun h b mem => joint h b ?_⟩
    obtain ⟨d, shown, eq⟩ := List.exists_cons_of_ne_nil (l := m.shown) fun h => by
      have last := m.getLast?_shown
      rw [h] at last
      cases last
    rw [marked_mark, eq] at mem ⊢
    exact mem
  | opening _ start _ _ ih =>
    rw [marked_append, marked_chars, List.append_assoc] at ends
    have behind : OpensEndLines ('\x7b' :: marked _) := ends.right_of_append
    obtain ⟨rest, -⟩ := ih behind.tail fun _ => behind.head
    refine ⟨Mark.opensEndLines_shown_append _ rest, ?_⟩
    rintro rfl
    exact absurd start (by decide)
  | closing last _ ih =>
    rw [marked_append] at ends
    obtain ⟨rest, -⟩ := ih ends.right_of_append fun h => by
      rcases last with rfl | ⟨-, rfl⟩ <;> exact absurd h (by decide)
    refine ⟨Mark.opensEndLines_shown_append _ rest, fun _ b mem => ?_⟩
    rw [marked_mark, Mark.shown_closing (Mark.isOpening_partner _)] at mem
    exact (Option.some.inj mem).symm
  | openBrace _ ih =>
    obtain ⟨rest, next⟩ := ih ends.tail fun _ => ends.head
    exact ⟨rest.cons fun _ => next rfl, joint⟩
  | closeBrace _ _ ih =>
    obtain ⟨rest, -⟩ := ih ends.tail fun h => absurd h (by decide)
    exact ⟨rest.cons fun h => absurd h (by decide), joint⟩
  | other left _ _ ih =>
    obtain ⟨rest, -⟩ := ih ends.tail fun h => absurd (Option.some.inj h) left
    exact ⟨rest.cons fun h => absurd h left, joint⟩

end Marking

/-! ## 4. Lines of a segmented header -/

theorem Passes.opensEndLines {t : Text} {ps qs : List Piece} (h : Passes t ps qs)
    (ends : OpensEndLines t) : OpensEndLines (marked qs) := by
  have first := (h.namespaces.opensEndLines (by rwa [marked_chars]) fun h => by cases h).1
  exact (h.classes.opensEndLines first fun h => by cases h).1

theorem mem_trimmedLines_of_mem_tokens {t line : Text} (mem : .line line ∈ tokens t) :
    line ∈ Source.trimmedLines t := by
  obtain ⟨l, l_mem, token⟩ := List.mem_map.mp mem
  unfold Token.ofLine at token
  split at token
  · cases token
  · cases token
    exact l_mem

/-- **In every line of a segmented header an opening brace comes last.** -/
theorem opensLast_of_mem_tokens {t line : Text} (ends : OpensEndLines t)
    (mem : .line line ∈ tokens t) : OpensLast line := by
  have of_text := mem_trimmedLines_of_mem_tokens mem
  rintro front behind rfl
  cases behind with
  | nil => rfl
  | cons b behind =>
    have line_ends : OpensEndLines (front ++ '\x7b' :: b :: behind) :=
      ends.infix (Source.infix_of_mem_trimmedLines of_text)
    have same_line : b ≠ '\n' := by
      rintro rfl
      exact Source.not_mem_of_mem_trimmedLines of_text (by simp)
    have behind_brace : OpensEndLines ('\x7b' :: b :: behind) := line_ends.right_of_append
    exact absurd (behind_brace.head b rfl) same_line

end Outline
end AccessorCatalog

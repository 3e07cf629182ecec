/-
# Qualified names

A qualified name is written as identifiers with `::` between them.  What the readers of types and
declarations rest on is how such a name looks from outside: it starts with a word character that is
no digit, it ends with a word character, and between them stand word characters and colons only.
-/
import AccessorCatalog.ClassName
import AccessorCatalog.Proofs.Lexemes

namespace AccessorCatalog.ClassName

/-! ## 1. Identifiers and qualified names -/

/-- An identifier: word characters, the first of which is no digit. -/
structure IsIdentifier (t : Text) : Prop where
  filled : t ≠ []
  word : ∀ c ∈ t, Text.isWord c = true
  start : ∀ c ∈ t.head?, Text.isDecimal c = false

instance (t : Text) : Decidable (IsIdentifier t) :=
  decidable_of_iff (t ≠ [] ∧ (∀ c ∈ t, Text.isWord c = true) ∧
    ∀ c ∈ t.head?, Text.isDecimal c = false)
    ⟨fun ⟨filled, word, start⟩ => ⟨filled, word, start⟩, fun h => ⟨h.filled, h.word, h.start⟩⟩

/-- A qualified name: identifiers joined by `::`. -/
def IsQualified (name : Text) : Prop :=
  ∃ parts, parts ≠ [] ∧ (∀ part ∈ parts, IsIdentifier part) ∧ name = Text.join "::".toList parts

theorem IsIdentifier.isQualified {t : Text} (h : IsIdentifier t) : IsQualified t :=
  ⟨[t], List.cons_ne_nil _ _, by simpa using h, by simp [Text.join]⟩

/-! ## 2. How they look from outside -/

theorem IsIdentifier.exists_cons {t : Text} (h : IsIdentifier t) :
    ∃ c rest, t = c :: rest ∧ Text.isWord c = true ∧ Text.isDecimal c = false := by
  obtain ⟨c, rest, rfl⟩ := List.exists_cons_of_ne_nil h.filled
  exact ⟨c, rest, rfl, h.word c List.mem_cons_self, h.start c rfl⟩

theorem IsIdentifier.exists_concat {t : Text} (h : IsIdentifier t) :
    ∃ front c, t = front ++ [c] ∧ Text.isWord c = true := by
  obtain ⟨front, c, rfl⟩ := List.eq_nil_or_concat t |>.resolve_left h.filled
  exact ⟨front, c, List.concat_eq_append, h.word c (by simp)⟩

variable {name : Text}

namespace IsQualified

/-- A qualified name is its first identifier, or goes on behind it with a colon. -/
theorem exists_first (h : IsQualified name) :
    ∃ first rest, name = first ++ rest ∧ IsIdentifier first ∧ ∀ c ∈ rest.head?, c = ':' := by
  obtain ⟨parts, some_parts, identifiers, rfl⟩ := h
  obtain ⟨first, parts, rfl⟩ := List.exists_cons_of_ne_nil some_parts
  have identifier := identifiers first List.mem_cons_self
  cases parts with
  | nil => exact ⟨first, [], by simp [Text.join], identifier, by simp⟩
  | cons next parts =>
    refine ⟨first, "::".toList ++ Text.join "::".toList (next :: parts), ?_, identifier, ?_⟩
    · rw [Source.join_cons_cons, List.append_assoc]
    · rintro _ ⟨⟩
      rfl

/-- A qualified name starts with a word character that is no digit. -/
theorem exists_cons (h : IsQualified name) :
    ∃ c rest, name = c :: rest ∧ Text.isWord c = true ∧ Text.isDecimal c = false := by
  obtain ⟨first, rest, rfl, identifier, -⟩ := h.exists_first
  obtain ⟨c, more, rfl, word, start⟩ := identifier.exists_cons
  exact ⟨c, more ++ rest, rfl, word, start⟩

/-- And it ends with a word character. -/
theorem exists_concat (h : IsQualified name) :
    ∃ front c, name = front ++ [c] ∧ Text.isWord c = true := by
  obtain ⟨parts, some_parts, identifiers, rfl⟩ := h
  induction parts with
  | nil => exact absurd rfl some_parts
  | cons part parts ih =>
    cases parts with
    | nil =>
      obtain ⟨front, c, cut, word⟩ := (identifiers part List.mem_cons_self).exists_concat
      exact ⟨front, c, by simpa [Text.join] using cut, word⟩
    | cons next parts =>
      obtain ⟨front, c, cut, word⟩ :=
        ih (List.cons_ne_nil _ _) fun p mem => identifiers p (List.mem_cons_of_mem _ mem)
      refine ⟨part ++ "::".toList ++ front, c, ?_, word⟩
      rw [Source.join_cons_cons, cut, List.append_assoc (part ++ _)]

theorem ne_nil (h : IsQualified name) : name ≠ [] := by
  obtain ⟨c, rest, rfl, -⟩ := h.exists_cons
  exact List.cons_ne_nil c rest

/-- All of it is word characters and colons. -/
theorem chars (h : IsQualified name) : ∀ c ∈ name, Text.isWord c = true ∨ c = ':' := by
  obtain ⟨parts, -, identifiers, rfl⟩ := h
  induction parts with
  | nil => simp [Text.join]
  | cons part parts ih =>
    have here : ∀ c ∈ part, Text.isWord c = true ∨ c = ':' := fun c mem =>
      .inl ((identifiers part List.mem_cons_self).word c mem)
    cases parts with
    | nil => simpa [Text.join] using here
    | cons next parts =>
      have behind := ih fun p mem => identifiers p (List.mem_cons_of_mem _ mem)
      intro c mem
      rw [Source.join_cons_cons, List.mem_append, List.mem_append] at mem
      rcases mem with (mem | mem) | mem
      · exact here c mem
      · exact .inr (by simpa using mem)
      · exact behind c mem

/-- A character that is neither does not occur. -/
theorem not_mem (h : IsQualified name) {c : Char} (no_word : Text.isWord c = false)
    (no_colon : c ≠ ':') : c ∉ name := by
  intro mem
  rcases h.chars c mem with word | colon
  · rw [no_word] at word
    cases word
  · exact no_colon colon

theorem isBlank_eq_false (h : IsQualified name) : ∀ c ∈ name, Text.isBlank c = false := by
  intro c mem
  rcases h.chars c mem with word | rfl
  · exact Text.isBlank_of_isWord word
  · decide

end IsQualified
end AccessorCatalog.ClassName

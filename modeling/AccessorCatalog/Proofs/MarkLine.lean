/-
# Marks as lines

A mark is written as a line and recognised again when the tokens of a text are read.  Reading gives
a mark back exactly if its number fits a machine word (`Mark.parse_render`), and no line without a
backslash is ever taken for one (`Mark.parse_of_not_mem`).  `tokens_append` and `tokens_render`
carry both over to the tokens of a text.
-/
import AccessorCatalog.Proofs.Braces
import AccessorCatalog.Proofs.Lines

namespace AccessorCatalog.Outline

open Text (isBlank)

/-! ## 1. Digits -/

/-- The digits of a mark: those of its number, with zeros in front up to three. -/
def Mark.digits (m : Mark) : Text :=
  List.replicate (3 - (Text.ofNat m.index).length) '0' ++ Text.ofNat m.index

theorem Mark.render_eq (m : Mark) : m.render = '\\' :: (m.kind.tag ++ m.digits) := by
  simp [Mark.render, Mark.digits]

theorem Mark.isDigit_of_mem_digits {m : Mark} {c : Char} (h : c ∈ m.digits) :
    c.isDigit = true := by
  rcases List.mem_append.mp h with h | h
  · rw [List.eq_of_mem_replicate h]
    decide
  · exact Nat.isDigit_of_mem_toDigits (by decide) (by decide) h

theorem Mark.three_le_length_digits (m : Mark) : 3 ≤ m.digits.length := by
  rw [Mark.digits, List.length_append, List.length_replicate]
  omega

/-- Zeros in front do not change the number that digits denote. -/
theorem Mark.toCount_digits (m : Mark) :
    Text.toCount? m.digits = if m.index < UInt64.size then some m.index else none := by
  have value : m.digits.foldl (fun n c => 10 * n + (c.toNat - '0'.toNat)) 0 = m.index := by
    rw [← Nat.ofDigitChars_eq_foldl, Mark.digits, Nat.ofDigitChars_append,
      Nat.ofDigitChars_replicate_zero, Nat.mul_zero]
    exact Nat.ofDigitChars_ten_toDigits
  have filled : m.digits.isEmpty = false := by
    have := m.three_le_length_digits
    cases h : m.digits with
    | nil => rw [h] at this; simp at this
    | cons _ _ => rfl
  have digits : m.digits.all Char.isDigit = true :=
    List.all_eq_true.mpr fun _ => Mark.isDigit_of_mem_digits
  simp only [Text.toCount?, filled, digits, value]
  rfl

/-! ## 2. Reading a mark back -/

/-- The first answer of a list in which only one member can answer is the answer of that member. -/
theorem findSome_eq_of_others {α β : Type} [DecidableEq α] {f : α → Option β} {a : α} {l : List α}
    (mem : a ∈ l) (others : ∀ b ∈ l, b ≠ a → f b = none) : l.findSome? f = f a := by
  induction l with
  | nil => cases mem
  | cons b l ih =>
    have rest (h : a ∈ l) : l.findSome? f = f a :=
      ih h fun c hc => others c (List.mem_cons_of_mem _ hc)
    rw [List.findSome?_cons]
    by_cases e : b = a
    · subst e
      cases value : f b with
      | some x => rfl
      | none =>
        rw [List.findSome?_eq_none_iff]
        intro c hc
        by_cases e : c = b
        · rw [e, value]
        · exact others c (List.mem_cons_of_mem _ hc) e
    · rw [others b List.mem_cons_self e]
      exact rest ((List.mem_cons.mp mem).resolve_left (Ne.symm e))

/-- The word of a kind starts with the word of no other kind. -/
theorem MarkKind.afterPrefix_tag {kind other : MarkKind} (h : other ≠ kind) (t : Text) :
    Text.afterPrefix? other.tag (kind.tag ++ t) = none := by
  obtain ⟨scope, side⟩ := kind
  obtain ⟨scope', side'⟩ := other
  cases scope <;> cases side <;> cases scope' <;> cases side' <;>
    first
    | rfl
    | exact absurd rfl h

theorem MarkKind.mem_all (kind : MarkKind) : kind ∈ MarkKind.all := by
  obtain ⟨scope, side⟩ := kind
  cases scope <;> cases side <;> decide

/-- **A written mark is read back**, as long as its number fits a machine word. -/
theorem Mark.parse_render (m : Mark) :
    Mark.parse? m.render = if m.index < UInt64.size then some m else none := by
  have own : Text.afterPrefix? m.kind.tag (m.kind.tag ++ m.digits) = some m.digits :=
    Text.afterPrefix?_eq_some.mpr rfl
  have enough : ¬ m.digits.length < 3 := Nat.not_lt.mpr m.three_le_length_digits
  rw [Mark.render_eq]
  simp only [Mark.parse?]
  rw [findSome_eq_of_others m.kind.mem_all, own, Option.bind_some, if_neg enough,
    Mark.toCount_digits]
  · split <;> rfl
  · intro other _ ne
    rw [MarkKind.afterPrefix_tag ne, Option.bind_none]

/-- A line without a backslash is no mark. -/
theorem Mark.parse_of_not_mem {line : Text} (h : '\\' ∉ line) : Mark.parse? line = none := by
  unfold Mark.parse?
  split
  · exact absurd List.mem_cons_self h
  · rfl

/-! ## 3. The characters of a mark -/

/-- A character that marks are made of behind their backslash. -/
theorem MarkKind.isAlpha_of_mem_tag {kind : MarkKind} {c : Char} (h : c ∈ kind.tag) :
    c.isAlpha = true := by
  have all : kind.tag.all Char.isAlpha = true := by
    obtain ⟨scope, side⟩ := kind
    cases scope <;> cases side <;> decide
  exact List.all_eq_true.mp all c h

theorem Mark.isAlphanum_of_mem_render {m : Mark} {c : Char} (h : c ∈ m.render) :
    c = '\\' ∨ c.isAlphanum = true := by
  rw [Mark.render_eq] at h
  rcases List.mem_cons.mp h with rfl | h
  · exact .inl rfl
  · rcases List.mem_append.mp h with h | h
    · exact .inr (by simp [Char.isAlphanum, MarkKind.isAlpha_of_mem_tag h])
    · exact .inr (by simp [Char.isAlphanum, Mark.isDigit_of_mem_digits h])

/-- Whatever is neither a backslash nor a letter or digit is not in the line of a mark. -/
theorem Mark.not_mem_render {m : Mark} {c : Char} (h : c ≠ '\\') (other : c.isAlphanum = false) :
    c ∉ m.render := by
  intro mem
  rcases Mark.isAlphanum_of_mem_render mem with rfl | alnum
  · exact h rfl
  · rw [other] at alnum
    cases alnum

theorem isBlank_of_isAlphanum {c : Char} (h : c.isAlphanum = true) : isBlank c = false := by
  have ascii : c.toNat < 128 := by
    delta Char.isAlphanum Char.isAlpha Char.isUpper Char.isLower Char.isDigit at h
    simp only [Bool.or_eq_true, Bool.and_eq_true, decide_eq_true_eq, ge_iff_le,
      UInt32.le_iff_toNat_le] at h
    simp at h
    omega
  exact Text.isWord_not_blank (by simp [Text.isWord, ascii, h]) ascii

theorem Mark.isBlank_of_mem_render {m : Mark} {c : Char} (h : c ∈ m.render) :
    isBlank c = false := by
  rcases Mark.isAlphanum_of_mem_render h with rfl | alnum
  · decide
  · exact isBlank_of_isAlphanum alnum

theorem Mark.trim_render (m : Mark) : Text.trim m.render = m.render :=
  Source.trim_of_solid fun _ => Mark.isBlank_of_mem_render

theorem Mark.braces_render (m : Mark) : braces m.render = [] :=
  braces_eq_nil (Mark.not_mem_render (by decide) (by decide))
    (Mark.not_mem_render (by decide) (by decide))

/-! ## 4. Tokens of a text -/

/-- The token that the line of a mark is read as. -/
def Mark.token (m : Mark) : Token :=
  if m.index < UInt64.size then .mark m else .line m.render

theorem tokens_append (s t : Text) : tokens (s ++ '\n' :: t) = tokens s ++ tokens t := by
  rw [tokens, Source.trimmedLines_append, List.map_append]
  rfl

@[simp] theorem tokens_nil : tokens [] = [] := rfl

/-- **The line of a mark is one token.** -/
theorem tokens_render (m : Mark) : tokens m.render = [m.token] := by
  have single : Source.trimmedLines m.render = [m.render] := by
    rw [Source.trimmedLines_of_not_mem (Mark.not_mem_render (by decide) (by decide)), m.trim_render]
    rfl
  rw [tokens, single, List.map_singleton, Token.ofLine, m.parse_render, Mark.token]
  by_cases fits : m.index < UInt64.size <;> simp [fits]

/-- Text without backslashes has no marks. -/
theorem tokens_of_not_mem {t : Text} (h : '\\' ∉ t) :
    tokens t = (Source.trimmedLines t).map Token.line := by
  refine List.map_congr_left fun line mem => ?_
  have free : '\\' ∉ line := fun c_mem => h ((Source.infix_of_mem_trimmedLines mem).subset c_mem)
  rw [Token.ofLine, Mark.parse_of_not_mem free]

end AccessorCatalog.Outline

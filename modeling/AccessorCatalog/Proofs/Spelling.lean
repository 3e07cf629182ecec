/-
# What the canonical spelling keeps

The canonical spelling of a type or a signature changes blanks and the name of the string class, and
nothing else.  So it keeps a last character that is no blank (`getLast?_canonical`), and it keeps
the number of opening parentheses (`count_canonical`).

For the signature of a listed method this means that it ends with the parenthesis of its arguments,
and that it is not the name of the method, which has one parenthesis less.
-/
import AccessorCatalog.Accessor.Selection
import AccessorCatalog.Proofs.Lexemes

namespace AccessorCatalog

open Declaration

/-! ## 1. The last character -/

section LastCharacter

variable {c : Char} {t : Text}

theorem getLast?_of_cons {d : Char} (last : (d :: t).getLast? = some c) :
    t = [] ∧ d = c ∨ t.getLast? = some c := by
  rw [List.getLast?_cons] at last
  cases behind : t.getLast? with
  | none =>
    rw [behind] at last
    exact .inl ⟨List.getLast?_eq_none_iff.mp behind, Option.some.inj last⟩
  | some e =>
    rw [behind] at last
    exact .inr last

theorem getLast?_cons_of {d : Char} (last : t.getLast? = some c) : (d :: t).getLast? = some c := by
  rw [List.getLast?_cons, last]
  rfl

theorem getLast?_closeAngles (angle : c ≠ '>') (last : t.getLast? = some c) :
    (closeAngles t).getLast? = some c := by
  fun_induction closeAngles t with
  | case1 t ih =>
    rcases getLast?_of_cons last with ⟨none_behind, -⟩ | last
    · cases none_behind
    rcases getLast?_of_cons last with ⟨-, rfl⟩ | last
    · exact absurd rfl angle
    · exact getLast?_cons_of (ih last)
  | case2 d t _ ih =>
    rcases getLast?_of_cons last with ⟨rfl, rfl⟩ | last
    · rfl
    · exact getLast?_cons_of (ih last)
  | case3 => cases last

/-- A last character that a piece does not hold is still the last one when the piece is replaced. -/
theorem getLast?_replace {old : Text} (absent : c ∉ old) (new : Text) (last : t.getLast? = some c) :
    (Text.replace old new t).getLast? = some c := by
  unfold Text.replace
  induction t using Source.splitPiece_induction old with
  | nil => cases last
  | char d t split ih =>
    rw [split, Text.join_consFirst _ _ (Source.splitPiece_ne_nil _ _)]
    rcases getLast?_of_cons last with ⟨rfl, rfl⟩ | last
    · rw [Text.splitPiece]
      rfl
    · exact getLast?_cons_of (ih last)
  | occurrence rest split ih =>
    rw [split, Text.join_nil_cons _ (Source.splitPiece_ne_nil _ _)]
    have behind : rest.getLast? = some c := by
      rw [List.getLast?_append, Option.or_eq_some_iff] at last
      rcases last with last | ⟨-, last⟩
      · exact last
      · exact absurd (List.mem_of_getLast? last) absent
    rw [List.getLast?_append, ih behind]
    rfl

/-- The last piece of a text without a separator at its end ends as the text does. -/
theorem exists_splitWhere_concat {p : Char → Bool} (solid : p c = false)
    (last : t.getLast? = some c) :
    ∃ front piece, Text.splitWhere p t = front ++ [piece] ∧ piece.getLast? = some c := by
  induction t with
  | nil => cases last
  | cons d t ih =>
    rcases getLast?_of_cons last with ⟨rfl, rfl⟩ | last
    · exact ⟨[], [d], Source.splitWhere_of_forall (by simpa using solid), rfl⟩
    obtain ⟨front, piece, split, last⟩ := ih last
    rw [Text.splitWhere, split]
    split_ifs
    · exact ⟨[] :: front, piece, rfl, last⟩
    · obtain _ | ⟨first, front⟩ := front
      · exact ⟨[], d :: piece, rfl, getLast?_cons_of last⟩
      · exact ⟨(d :: first) :: front, piece, rfl, last⟩

theorem getLast?_join {piece : Text} (last : piece.getLast? = some c) (sep : Text)
    (front : List Text) : (Text.join sep (front ++ [piece])).getLast? = some c := by
  induction front with
  | nil => simpa [Text.join] using last
  | cons first front ih =>
    obtain ⟨next, pieces, behind⟩ := List.exists_cons_of_ne_nil
      (List.append_ne_nil_of_right_ne_nil front (List.cons_ne_nil piece []))
    rw [behind] at ih
    rw [List.cons_append, behind, Source.join_cons_cons, List.getLast?_append, ih]
    rfl

/-- Single blanks between words leave the last character of a text as it is, unless it is a
blank. -/
theorem getLast?_join_words (solid : Text.isBlank c = false) (last : t.getLast? = some c) :
    (Text.join [' '] (Text.words t)).getLast? = some c := by
  obtain ⟨front, word, split, last⟩ := exists_splitWhere_concat solid last
  have filled : (!word.isEmpty) = true := by
    cases word with
    | nil => cases last
    | cons d word => rfl
  rw [Text.words, split, List.filter_append, List.filter_cons, if_pos filled]
  exact getLast?_join last _ _

theorem getLast?_canonical (last : t.getLast? = some ')') : (canonical t).getLast? = some ')' := by
  unfold canonical
  refine getLast?_replace (by decide) _ (getLast?_replace (by decide) _ ?_)
  exact getLast?_closeAngles (by decide) (getLast?_join_words (by decide) last)

end LastCharacter

/-! ## 2. The number of parentheses -/

section Counting

variable {c : Char}

/-- How often a character stands in some pieces. -/
def countPieces (c : Char) : List Text → Nat
  | [] => 0
  | piece :: pieces => piece.count c + countPieces c pieces

@[simp] theorem countPieces_nil (c : Char) : countPieces c [] = 0 := rfl

@[simp] theorem countPieces_cons (c : Char) (piece : Text) (pieces : List Text) :
    countPieces c (piece :: pieces) = piece.count c + countPieces c pieces := rfl

/-- A separator without the character does not count. -/
theorem count_join {sep : Text} (absent : c ∉ sep) (pieces : List Text) :
    (Text.join sep pieces).count c = countPieces c pieces := by
  induction pieces with
  | nil => rfl
  | cons piece pieces ih =>
    obtain _ | ⟨next, pieces⟩ := pieces
    · simp [Text.join]
    · rw [Source.join_cons_cons, List.count_append, List.count_append, ih,
        List.count_eq_zero_of_not_mem absent, Nat.add_zero, countPieces_cons c piece]

theorem countPieces_consFirst (d : Char) (pieces : List Text) :
    countPieces c (Text.consFirst d pieces) = countPieces c pieces + if d == c then 1 else 0 := by
  cases pieces with
  | nil => simp [Text.consFirst, List.count_cons]
  | cons piece pieces =>
    rw [Text.consFirst, countPieces_cons, List.count_cons, countPieces_cons]
    omega

theorem countPieces_splitWhere {p : Char → Bool} (solid : p c = false) (t : Text) :
    countPieces c (Text.splitWhere p t) = t.count c := by
  induction t with
  | nil => rfl
  | cons d t ih =>
    rw [Text.splitWhere, List.count_cons]
    split
    · next separates =>
      have other : (d == c) = false := by
        rw [beq_eq_false_iff_ne]
        rintro rfl
        exact absurd separates (by rw [solid]; decide)
      simp [ih, other]
    · rw [countPieces_consFirst, ih]

theorem countPieces_filter_not_isEmpty (pieces : List Text) :
    countPieces c (pieces.filter fun piece => !piece.isEmpty) = countPieces c pieces := by
  induction pieces with
  | nil => rfl
  | cons piece pieces ih =>
    rw [List.filter_cons]
    cases piece with
    | nil => simpa using ih
    | cons d piece => simp [ih]

theorem count_join_words (solid : Text.isBlank c = false) (t : Text) :
    (Text.join [' '] (Text.words t)).count c = t.count c := by
  have absent : c ∉ [' '] := by
    rw [List.mem_singleton]
    rintro rfl
    exact absurd solid (by decide)
  rw [count_join absent, Text.words, countPieces_filter_not_isEmpty, countPieces_splitWhere solid]

theorem countPieces_splitPiece {old : Text} (absent : c ∉ old) (t : Text) :
    countPieces c (Text.splitPiece old t) = t.count c := by
  induction t using Source.splitPiece_induction old with
  | nil => simp [Text.splitPiece]
  | char d t split ih => rw [split, countPieces_consFirst, ih, List.count_cons]
  | occurrence rest split ih =>
    rw [split, countPieces_cons, ih, List.count_append, List.count_eq_zero_of_not_mem absent]
    rfl

theorem count_replace {old new : Text} (old_without : c ∉ old) (new_without : c ∉ new) (t : Text) :
    (Text.replace old new t).count c = t.count c := by
  rw [Text.replace, count_join new_without, countPieces_splitPiece old_without]

theorem count_closeAngles (solid : c ≠ ' ') (t : Text) : (closeAngles t).count c = t.count c := by
  fun_induction closeAngles t with
  | case1 t ih => simp [List.count_cons, ih, solid.symm]
  | case2 d t _ ih => rw [List.count_cons, List.count_cons, ih]
  | case3 => rfl

theorem count_canonical (t : Text) : (canonical t).count '(' = t.count '(' := by
  unfold canonical
  rw [count_replace (by decide) (by decide), count_replace (by decide) (by decide),
    count_closeAngles (by decide), count_join_words (by decide)]

end Counting

/-! ## 3. Signatures of listed methods -/

section Signatures

variable {s : Signature} {className : Text} {m : MethodAccessor}

theorem name_and_signature (selected : Selection.method? s className = some m) :
    m.name = s.name ∧ m.signature =
      canonical (Signature.applied s.name ((Selection.namedArguments s.args).map
        Selection.declareArgument)) := by
  obtain ⟨-, -, -, -, -, rfl⟩ := Selection.method?_eq_some_iff.mp selected
  exact ⟨rfl, rfl⟩

/-- The signature of a listed method ends with the parenthesis of its arguments. -/
theorem getLast?_signature (selected : Selection.method? s className = some m) :
    m.signature.getLast? = some ')' := by
  rw [(name_and_signature selected).2]
  exact getLast?_canonical List.getLast?_concat

/-- The signature of a listed method is more than its name. -/
theorem name_ne_signature (selected : Selection.method? s className = some m) :
    m.name ≠ m.signature := by
  obtain ⟨name, signature⟩ := name_and_signature selected
  intro same
  have count := congrArg (List.count '(') same
  rw [name, signature, count_canonical, Signature.applied, List.count_append, List.count_append,
    List.count_cons_self] at count
  omega

end Signatures

end AccessorCatalog

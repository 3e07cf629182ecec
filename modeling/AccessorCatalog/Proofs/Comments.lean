/-
# What comments and literals say

The scan for comments and literals reads a text once from the left, so an opener in one place may
pair with a close far behind it.  This file says when it does not.  `scan` keeps what the scan
decides, item by item, and `LeavesCode` says of the items of a text that its end lies in plain code:
nothing that is open there waits for a close.  Then what follows is scanned for itself
(`scan_append`).

An `Enclosure` is a way to hide a text: in a literal or in a comment.  A body that its enclosure
holds is taken as a whole (`scan_enclose`), and what is left of it does not depend on the body.  So
no body has an influence on the normalized header, nor on its classes (`enclosed_irrelevant`).
-/
import Mathlib.Data.List.TakeWhile
import AccessorCatalog.Outline.ClassOutline

namespace AccessorCatalog.Source

/-! ## 1. The decisions of the scan -/

/-- An item of a scan: a character that is kept, or a comment or literal that is taken. -/
inductive ScanItem where
  | kept (c : Char)
  | taken (stretch : Text)
  deriving DecidableEq, Repr

/-- What is written for an item. -/
def ScanItem.write : ScanItem → Text
  | .kept c => [c]
  | .taken stretch => residue stretch

/-- A comment up to the end of its line. -/
def ScanItem.isLineComment : ScanItem → Bool
  | .kept _ => false
  | .taken stretch => ['/', '/'].isPrefixOf stretch

/-- The items of a text.  What lies before a place has no say in what is taken there. -/
def scan : Text → List ScanItem
  | [] => []
  | c :: t =>
    match commentOrLiteral none (c :: t) with
    | some n => .taken (c :: t.take (n - 1)) :: scan (t.drop (n - 1))
    | none => .kept c :: scan t
termination_by t => t.length
decreasing_by all_goals simp; try omega

@[simp] theorem scan_nil : scan [] = [] := by
  rw [scan]

theorem scan_cons_none {c : Char} {t : Text} (h : commentOrLiteral none (c :: t) = none) :
    scan (c :: t) = .kept c :: scan t := by
  rw [scan, h]

theorem scan_cons_some {c : Char} {t : Text} {n : Nat}
    (h : commentOrLiteral none (c :: t) = some n) :
    scan (c :: t) = .taken (c :: t.take (n - 1)) :: scan (t.drop (n - 1)) := by
  rw [scan, h]

/-- Removing comments writes the items of the scan. -/
theorem stripComments_eq_scan (t : Text) : stripComments t = (scan t).flatMap ScanItem.write := by
  unfold stripComments Text.replaceMatches
  generalize (none : Option Char) = before
  fun_induction Text.replaceMatchesFrom commentOrLiteral residue before t with
  | case1 => simp
  | case2 before c t n found taken ih =>
    rw [scan_cons_some (n := n) found, List.flatMap_cons, ← ih]
    rfl
  | case3 before c t found ih =>
    rw [scan_cons_none found, List.flatMap_cons, ← ih]
    rfl

/-- A whole comment or literal in front is one item. -/
theorem scan_of_taken {stretch after : Text} (filled : stretch ≠ [])
    (h : commentOrLiteral none (stretch ++ after) = some stretch.length) :
    scan (stretch ++ after) = .taken stretch :: scan after := by
  obtain ⟨c, stretch, rfl⟩ := List.exists_cons_of_ne_nil filled
  rw [List.cons_append] at h ⊢
  rw [scan_cons_some h]
  simp

/-! ## 2. What is taken stays taken -/

theorem blockRest?_append {t : Text} {n : Nat} (h : blockRest? t = some n) (after : Text) :
    blockRest? (t ++ after) = some n ∧ n ≤ t.length := by
  fun_induction blockRest? t generalizing n with
  | case1 => cases h
  | case2 t =>
    cases h
    exact ⟨rfl, by simp⟩
  | case3 c t other ih =>
    obtain ⟨m, found, rfl⟩ := Option.map_eq_some_iff.mp h
    obtain ⟨longer, le⟩ := ih found
    refine ⟨?_, by simpa using le⟩
    rw [List.cons_append, blockRest?, longer, Option.map_some]
    -- the close that is not there cannot come from behind: something of the comment is left
    -- in front
    intro after' eq eq'
    obtain _ | ⟨d, t⟩ := t
    · cases found
    · exact other t eq (by rw [(List.cons.inj eq').1])

/-- One step in a literal, at a character that escapes nothing. -/
theorem literalRest?_cons {c : Char} (plain : c ≠ '\\') (quote : Char) (t : Text) :
    literalRest? quote (c :: t) =
      if c = quote then some 1
      else if c = '\n' then none
      else (literalRest? quote t).map (· + 1) := by
  rw [literalRest?]
  · exact fun escape _ => plain escape
  · exact fun _ _ escape _ => plain escape

/-- A character escapes nothing if it is no backslash, alone or with a character behind it. -/
theorem escapes_nothing {c : Char} {t : Text} (single : c = '\\' → t = [] → False)
    (pair : ∀ d t', c = '\\' → t = d :: t' → False) : c ≠ '\\' := by
  rintro rfl
  cases t with
  | nil => exact single rfl rfl
  | cons d t => exact pair d t rfl rfl

theorem literalRest?_append {quote : Char} {t : Text} {n : Nat}
    (h : literalRest? quote t = some n) (after : Text) :
    literalRest? quote (t ++ after) = some n ∧ n ≤ t.length := by
  fun_induction literalRest? quote t generalizing n with
  | case1 | case2 | case5 => cases h
  | case3 c t ih =>
    obtain ⟨m, found, rfl⟩ := Option.map_eq_some_iff.mp h
    obtain ⟨longer, le⟩ := ih found
    refine ⟨?_, by simpa using le⟩
    rw [List.cons_append, List.cons_append, literalRest?, longer, Option.map_some]
  | case4 t single pair =>
    cases h
    refine ⟨?_, by simp⟩
    rw [List.cons_append, literalRest?_cons (escapes_nothing single pair), if_pos rfl]
  | case6 c t single pair other no_break ih =>
    obtain ⟨m, found, rfl⟩ := Option.map_eq_some_iff.mp h
    obtain ⟨longer, le⟩ := ih found
    refine ⟨?_, by simpa using le⟩
    rw [List.cons_append, literalRest?_cons (escapes_nothing single pair), if_neg other,
      if_neg no_break, longer, Option.map_some]

/-- What is taken is taken in a longer text too, unless it is a line comment that reaches the
end. -/
theorem commentOrLiteral_append {t : Text} {n : Nat} (h : commentOrLiteral none t = some n)
    (after : Text) :
    n ≤ t.length ∧
      (n < t.length ∨ ¬ ['/', '/'] <+: t → commentOrLiteral none (t ++ after) = some n) := by
  unfold commentOrLiteral at h
  split at h
  · next t =>
    obtain ⟨m, found, rfl⟩ := Option.map_eq_some_iff.mp h
    obtain ⟨longer, le⟩ := blockRest?_append found after
    refine ⟨by simpa using le, fun _ => ?_⟩
    simp [commentOrLiteral, longer]
  · next t =>
    cases h
    have le : Text.countWhile (· != '\n') t ≤ t.length := (List.takeWhile_sublist _).length_le
    refine ⟨by simp; omega, fun ends => ?_⟩
    have stops : (t.takeWhile (· != '\n')).length ≠ t.length := by
      rcases ends with shorter | other
      · simp only [Text.countWhile, List.length_cons] at shorter
        omega
      · exact absurd (by simp) other
    simp only [List.cons_append, commentOrLiteral, Text.countWhile]
    rw [List.takeWhile_append, if_neg stops]
  · next t =>
    obtain ⟨m, found, rfl⟩ := Option.map_eq_some_iff.mp h
    obtain ⟨longer, le⟩ := literalRest?_append found after
    refine ⟨by simpa using le, fun _ => ?_⟩
    simp [commentOrLiteral, longer]
  · next t =>
    obtain ⟨m, found, rfl⟩ := Option.map_eq_some_iff.mp h
    obtain ⟨longer, le⟩ := literalRest?_append found after
    refine ⟨by simpa using le, fun _ => ?_⟩
    simp [commentOrLiteral, longer]
  · cases h

/-- Nothing is taken where no opener stands. -/
theorem commentOrLiteral_eq_none {c : Char} {t : Text} (quote : c ≠ '"' ∧ c ≠ '\'')
    (slash : c = '/' → t.head? ≠ some '*' ∧ t.head? ≠ some '/') :
    commentOrLiteral none (c :: t) = none := by
  unfold commentOrLiteral
  split
  · next eq =>
    obtain ⟨rfl, rfl⟩ := List.cons.inj eq
    exact absurd rfl (slash rfl).1
  · next eq =>
    obtain ⟨rfl, rfl⟩ := List.cons.inj eq
    exact absurd rfl (slash rfl).2
  · next eq => exact absurd (List.cons.inj eq).1 quote.1
  · next eq => exact absurd (List.cons.inj eq).1 quote.2
  · rfl

/-! ## 3. Texts that end in plain code -/

/-- The items of a text leave the scan in plain code: no opener is without its close, and at the end
no line comment goes on and no `/` may turn out to be half of an opener. -/
structure LeavesCode (items : List ScanItem) : Prop where
  no_quote : ∀ item ∈ items, item ≠ .kept '"' ∧ item ≠ .kept '\''
  no_block : ¬ [.kept '/', .kept '*'] <:+: items
  closed : ∀ item ∈ items.getLast?, item ≠ .kept '/' ∧ item.isLineComment = false

theorem LeavesCode.tail {item : ScanItem} {items : List ScanItem}
    (code : LeavesCode (item :: items)) : LeavesCode items where
  no_quote := fun i mem => code.no_quote i (List.mem_cons_of_mem item mem)
  no_block := fun block => code.no_block (block.trans (List.suffix_cons item items).isInfix)
  closed := by
    intro last mem
    refine code.closed last ?_
    obtain _ | ⟨next, items⟩ := items
    · cases mem
    · rwa [List.getLast?_cons_cons]

/-- Where the items leave the scan in plain code, what is taken in front is taken with more
behind. -/
theorem LeavesCode.taken_append {c : Char} {t : Text} {n : Nat}
    (found : commentOrLiteral none (c :: t) = some n)
    (code : LeavesCode (.taken (c :: t.take (n - 1)) :: scan (t.drop (n - 1)))) (after : Text) :
    commentOrLiteral none (c :: (t ++ after)) = some n := by
  refine (commentOrLiteral_append found after).2 ?_
  -- a stretch with something behind it stops there, and the last one is no line comment
  by_cases whole : n < (c :: t).length
  · exact .inl whole
  · have all : t.take (n - 1) = t := List.take_of_length_le (by simp at whole; omega)
    have none_left : t.drop (n - 1) = [] := List.drop_eq_nil_of_le (by simp at whole; omega)
    rw [all, none_left, scan_nil] at code
    have last := (code.closed _ rfl).2
    refine .inr fun line => ?_
    have is_line : (ScanItem.taken (c :: t)).isLineComment = true :=
      List.isPrefixOf_iff_prefix.mpr line
    exact Bool.false_ne_true (last.symm.trans is_line)

/-- Where they do, what is kept in front is kept with more behind. -/
theorem LeavesCode.kept_append {c : Char} {t : Text} (found : commentOrLiteral none (c :: t) = none)
    (code : LeavesCode (.kept c :: scan t)) (after : Text) :
    commentOrLiteral none (c :: (t ++ after)) = none := by
  have quote := code.no_quote _ List.mem_cons_self
  refine commentOrLiteral_eq_none (by simpa using quote) ?_
  rintro rfl
  obtain _ | ⟨d, t⟩ := t
  · exact absurd rfl (code.closed _ (by simp)).1
  · constructor
    · rintro ⟨⟩
      have star : scan ('*' :: t) = .kept '*' :: scan t := scan_cons_none rfl
      rw [star] at code
      exact code.no_block (List.prefix_append [.kept '/', .kept '*'] (scan t)).isInfix
    · rintro ⟨⟩
      simp [commentOrLiteral] at found

/-- **What follows plain code is scanned for itself.** -/
theorem scan_append {t : Text} (code : LeavesCode (scan t)) (after : Text) :
    scan (t ++ after) = scan t ++ scan after := by
  fun_induction scan t with
  | case1 => rfl
  | case2 c t n found ih =>
    have inside : n - 1 ≤ t.length := by simpa using (commentOrLiteral_append found after).1
    rw [List.cons_append, scan_cons_some (code.taken_append found after),
      List.take_append_of_le_length inside, List.drop_append_of_le_length inside, ih code.tail,
      List.cons_append]
  | case3 c t found ih =>
    rw [List.cons_append, scan_cons_none (code.kept_append found after), ih code.tail,
      List.cons_append]

/-- **What follows plain code is read for itself.** -/
theorem stripComments_append {t : Text} (code : LeavesCode (scan t)) (after : Text) :
    stripComments (t ++ after) = stripComments t ++ stripComments after := by
  simp only [stripComments_eq_scan, scan_append code, List.flatMap_append]

/-! ## 4. Enclosures -/

/-- A way to hide a text from the reader of a header. -/
inductive Enclosure where
  | string
  | character
  | blockComment
  | lineComment
  deriving DecidableEq, Repr

namespace Enclosure

/-- A text in its enclosure. -/
def enclose : Enclosure → Text → Text
  | .string, body => '"' :: (body ++ ['"'])
  | .character, body => '\'' :: (body ++ ['\''])
  | .blockComment, body => '/' :: '*' :: (body ++ ['*', '/'])
  | .lineComment, body => '/' :: '/' :: body

/-- The enclosure holds a body: nothing in it closes the enclosure, or escapes its close. -/
def Holds : Enclosure → Text → Prop
  | .string, body => ∀ c ∈ body, c ≠ '"' ∧ c ≠ '\\' ∧ c ≠ '\n'
  | .character, body => ∀ c ∈ body, c ≠ '\'' ∧ c ≠ '\\' ∧ c ≠ '\n'
  | .blockComment, body => ¬ ['*', '/'] <:+: body
  | .lineComment, body => '\n' ∉ body

instance (kind : Enclosure) (body : Text) : Decidable (kind.Holds body) :=
  match kind with
  | .string => List.decidableBAll (fun c => c ≠ '"' ∧ c ≠ '\\' ∧ c ≠ '\n') body
  | .character => List.decidableBAll (fun c => c ≠ '\'' ∧ c ≠ '\\' ∧ c ≠ '\n') body
  | .blockComment => inferInstanceAs (Decidable (¬ ['*', '/'] <:+: body))
  | .lineComment => inferInstanceAs (Decidable ('\n' ∉ body))

/-- The enclosure ends before a text.  A line comment does so at the end of its line only. -/
def EndsBefore : Enclosure → Text → Prop
  | .lineComment, after => ∀ c ∈ after.head?, c = '\n'
  | _, _ => True

end Enclosure

theorem literalRest?_held {quote : Char} (plain : quote ≠ '\\') {body : Text}
    (held : ∀ c ∈ body, c ≠ quote ∧ c ≠ '\\' ∧ c ≠ '\n') (after : Text) :
    literalRest? quote (body ++ quote :: after) = some (body.length + 1) := by
  induction body with
  | nil => rw [List.nil_append, literalRest?_cons plain, if_pos rfl]; rfl
  | cons c body ih =>
    obtain ⟨other, no_escape, no_break⟩ := held c List.mem_cons_self
    rw [List.cons_append, literalRest?_cons no_escape, if_neg other, if_neg no_break,
      ih fun d mem => held d (List.mem_cons_of_mem c mem)]
    rfl

theorem blockRest?_held {body : Text} (held : ¬ ['*', '/'] <:+: body) (after : Text) :
    blockRest? (body ++ '*' :: '/' :: after) = some (body.length + 2) := by
  induction body with
  | nil => rfl
  | cons c body ih =>
    have rest := ih fun close => held (close.trans (List.suffix_cons c body).isInfix)
    rw [List.cons_append, blockRest?, rest]
    · rfl
    · -- a close that starts with the last star of the body is none: its second character is a star
      rintro after' rfl eq
      obtain _ | ⟨d, body⟩ := body
      · cases eq
      · obtain ⟨rfl, -⟩ := List.cons.inj eq
        exact held (List.prefix_append ['*', '/'] body).isInfix

/-- **A held body is taken with its enclosure.** -/
theorem scan_enclose {kind : Enclosure} {body after : Text} (held : kind.Holds body)
    (ends : kind.EndsBefore after) :
    scan (kind.enclose body ++ after) = .taken (kind.enclose body) :: scan after := by
  refine scan_of_taken ?_ ?_
  · cases kind <;> simp [Enclosure.enclose]
  cases kind with
  | string => simp [Enclosure.enclose, commentOrLiteral, literalRest?_held (by decide) held]
  | character => simp [Enclosure.enclose, commentOrLiteral, literalRest?_held (by decide) held]
  | blockComment => simp [Enclosure.enclose, commentOrLiteral, blockRest?_held held]
  | lineComment =>
    have inside : body.takeWhile (· != '\n') = body := by
      rw [List.takeWhile_eq_self_iff]
      rintro c mem
      simpa using ne_of_mem_of_not_mem mem held
    have stop : after.takeWhile (· != '\n') = [] := by
      cases after with
      | nil => rfl
      | cons c after => simp [ends c rfl]
    simp [Enclosure.enclose, commentOrLiteral, Text.countWhile, List.takeWhile_append, inside, stop]
    omega

/-- Nothing of a body is left. -/
theorem residue_enclose (kind : Enclosure) (body : Text) :
    residue (kind.enclose body) = residue (kind.enclose []) := by
  cases kind <;> rfl

/-- **Only the kind of an enclosure is left of it.** -/
theorem stripComments_enclose {before after body : Text} {kind : Enclosure}
    (code : LeavesCode (scan before)) (held : kind.Holds body) (ends : kind.EndsBefore after) :
    stripComments (before ++ kind.enclose body ++ after) =
      stripComments before ++ residue (kind.enclose []) ++ stripComments after := by
  have here : stripComments (kind.enclose body ++ after) =
      residue (kind.enclose []) ++ stripComments after := by
    rw [stripComments_eq_scan, scan_enclose held ends, List.flatMap_cons, ← stripComments_eq_scan,
      ScanItem.write, residue_enclose]
  rw [List.append_assoc, stripComments_append code, here, List.append_assoc]

end AccessorCatalog.Source

namespace AccessorCatalog.Outline

open Source (Enclosure LeavesCode scan)

/-! ## 5. No body matters -/

/-- **The content of comments and literals is irrelevant**: two headers that differ in it alone are
normalized to the same text, and the same classes are read from them. -/
theorem enclosed_irrelevant {before after body body' : Text} {kind : Enclosure}
    (code : LeavesCode (scan before)) (ends : kind.EndsBefore after) (held : kind.Holds body)
    (held' : kind.Holds body') :
    Source.normalize (before ++ kind.enclose body ++ after) =
        Source.normalize (before ++ kind.enclose body' ++ after) ∧
      ∀ limit header, parseHeader limit header (before ++ kind.enclose body ++ after) =
        parseHeader limit header (before ++ kind.enclose body' ++ after) := by
  have same : Source.normalize (before ++ kind.enclose body ++ after) =
      Source.normalize (before ++ kind.enclose body' ++ after) := by
    unfold Source.normalize Source.programText
    rw [Source.stripComments_enclose code held ends, Source.stripComments_enclose code held' ends]
  refine ⟨same, fun limit header => ?_⟩
  unfold parseHeader segmentHeader
  rw [same]

/-- A header in which a default value stands behind a comment and a literal that are closed. -/
def defaultHeader (value : Text) : Text :=
  "class A \x7b /* \" */ char c = '\x7b'; int f(char* s = ".toList ++
    Enclosure.string.enclose value ++
    "); \x7d;".toList

theorem enclosed_irrelevant_defaultHeader :
    Source.normalize (defaultHeader "\x7d; // #".toList) =
        Source.normalize (defaultHeader "*/ it's".toList) ∧
      ∀ limit header, parseHeader limit header (defaultHeader "\x7d; // #".toList) =
        parseHeader limit header (defaultHeader "*/ it's".toList) :=
  enclosed_irrelevant ⟨by decide +kernel, by decide +kernel, by decide +kernel⟩ trivial (by decide)
    (by decide)

end AccessorCatalog.Outline

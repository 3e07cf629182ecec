/-
# Texts

A text is a list of characters: every rule of this library is a scan from the left, so the list is
the form in which the rules run and the form in which they are reasoned about.

The operations here are the ones that more than one part of the library needs: trimming, affixes,
cutting at a character or at a piece of text, replacing, lines and words.  A cut keeps everything
but the separators: `join_splitOn` puts a text back together from its pieces.
-/
import AccessorCatalog.Text.CharClass

namespace AccessorCatalog

/-- A text, as the list of its characters. -/
abbrev Text := List Char

namespace Text

/-! ## 1. Trimming -/

/-- The text without the leading characters of a class. -/
def dropStart (p : Char → Bool) (t : Text) : Text :=
  t.dropWhile p

/-- The text without the trailing characters of a class. -/
def dropEnd (p : Char → Bool) (t : Text) : Text :=
  (t.reverse.dropWhile p).reverse

/-- The text without leading blanks. -/
def trimStart (t : Text) : Text :=
  dropStart isBlank t

/-- The text without trailing blanks. -/
def trimEnd (t : Text) : Text :=
  dropEnd isBlank t

/-- The text without blanks at either end. -/
def trim (t : Text) : Text :=
  trimEnd (trimStart t)

/-! ## 2. Affixes -/

/-- What follows `head` in a text that starts with it. -/
def afterPrefix? : (head t : Text) → Option Text
  | [], t => some t
  | _ :: _, [] => none
  | a :: head, b :: t => if a = b then afterPrefix? head t else none

/-- What precedes `tail` in a text that ends with it. -/
def beforeSuffix? (tail t : Text) : Option Text :=
  (afterPrefix? tail.reverse t.reverse).map List.reverse

/-- Whether the text starts with `head`. -/
def startsWith (head t : Text) : Bool :=
  head.isPrefixOf t

/-- Whether the text ends with `tail`. -/
def endsWith (tail t : Text) : Bool :=
  tail.isSuffixOf t

/-- The text without one copy of `head` in front, if it has one. -/
def withoutPrefix (head t : Text) : Text :=
  (afterPrefix? head t).getD t

/-- The text without one copy of `tail` at its end, if it has one. -/
def withoutSuffix (tail t : Text) : Text :=
  (beforeSuffix? tail t).getD t

theorem afterPrefix?_eq_some {head t rest : Text} :
    afterPrefix? head t = some rest ↔ t = head ++ rest := by
  induction head generalizing t with
  | nil => simp [afterPrefix?, eq_comm]
  | cons a head ih =>
    cases t with
    | nil => simp [afterPrefix?]
    | cons b t =>
      by_cases h : a = b
      · simp [afterPrefix?, h, ih]
      · simp [afterPrefix?, h, Ne.symm h]

/-! ## 3. Cutting -/

/-- What lies before and after the first occurrence of `piece`. -/
def cutFirst? (piece : Text) : Text → Option (Text × Text)
  | [] => (afterPrefix? piece []).map fun rest => ([], rest)
  | c :: t =>
    match afterPrefix? piece (c :: t) with
    | some rest => some ([], rest)
    | none => (cutFirst? piece t).map fun (left, right) => (c :: left, right)

/-- What lies before and after the last occurrence of `piece`. -/
def cutLast? (piece t : Text) : Option (Text × Text) :=
  (cutFirst? piece.reverse t.reverse).map fun (left, right) => (right.reverse, left.reverse)

/-- Whether `piece` occurs in the text. -/
def hasPiece (piece t : Text) : Bool :=
  (cutFirst? piece t).isSome

/-- What follows the last occurrence of `piece`, or the whole text. -/
def afterLast (piece t : Text) : Text :=
  match cutLast? piece t with
  | some (_, right) => right
  | none => t

/-- A character put in front of the first piece. -/
def consFirst (c : Char) : List Text → List Text
  | [] => [[c]]
  | piece :: pieces => (c :: piece) :: pieces

/-- The pieces between the characters that satisfy `p`: always one more than there are of those. -/
def splitWhere (p : Char → Bool) : Text → List Text
  | [] => [[]]
  | c :: t => if p c then [] :: splitWhere p t else consFirst c (splitWhere p t)

/-- The pieces between the occurrences of `c`. -/
def splitOn (c : Char) (t : Text) : List Text :=
  splitWhere (· == c) t

/-- The part before the first `c`, or the whole text. -/
def beforeChar (c : Char) (t : Text) : Text :=
  t.takeWhile (· != c)

/-- The pieces put together with `sep` between neighbours. -/
def join (sep : Text) (pieces : List Text) : Text :=
  List.intercalate sep pieces

/-- The maximal stretches of the text that hold no blank. -/
def words (t : Text) : List Text :=
  (splitWhere isBlank t).filter fun w => !w.isEmpty

/-- The lines of the text: what ends with a line feed, without that and without a carriage return in
front of it, and then what stands behind the last line feed, as it is, if there is anything. -/
def lines (t : Text) : List Text :=
  let pieces := splitOn '\n' t
  let last := pieces.getLastD []
  pieces.dropLast.map (withoutSuffix ['\r']) ++ if last.isEmpty then [] else [last]

theorem lines_of_splitOn {t last : Text} {front : List Text}
    (pieces : splitOn '\n' t = front ++ [last]) :
    lines t = front.map (withoutSuffix ['\r']) ++ if last.isEmpty then [] else [last] := by
  unfold lines
  dsimp only
  rw [pieces, List.dropLast_concat, List.getLastD_concat]

theorem consFirst_ne_nil (c : Char) (pieces : List Text) : consFirst c pieces ≠ [] := by
  cases pieces <;> simp [consFirst]

theorem splitWhere_ne_nil (p : Char → Bool) (t : Text) : splitWhere p t ≠ [] := by
  cases t with
  | nil => simp [splitWhere]
  | cons c t =>
    unfold splitWhere
    split
    · simp
    · exact consFirst_ne_nil _ _

/-- Joining the pieces with the separator gives the text back. -/
theorem join_splitOn (c : Char) (t : Text) : join [c] (splitOn c t) = t := by
  unfold splitOn
  induction t with
  | nil => rfl
  | cons d t ih =>
    obtain ⟨piece, pieces, h⟩ := List.exists_cons_of_ne_nil (splitWhere_ne_nil (· == c) t)
    rw [h] at ih
    by_cases hd : d = c
    · subst hd
      have : splitWhere (· == d) (d :: t) = [] :: piece :: pieces := by simp [splitWhere, h]
      rw [this]
      simpa [join, List.intercalate] using ih
    · have : splitWhere (· == c) (d :: t) = (d :: piece) :: pieces := by
        simp [splitWhere, consFirst, h, hd]
      rw [this]
      cases pieces with
      | nil => simpa [join, List.intercalate] using ih
      | cons next pieces => simpa [join, List.intercalate] using ih

/-! ## 4. Pieces of text as separators -/

/-- The pieces between the occurrences of `piece`, found from the left and without overlap.  An
empty `piece` separates nothing. -/
def splitPiece (piece : Text) : Text → List Text
  | [] => [[]]
  | c :: t =>
    match piece with
    | [] => [c :: t]
    | _ :: more =>
      match afterPrefix? piece (c :: t) with
      | some _ => [] :: splitPiece piece (t.drop more.length)
      | none => consFirst c (splitPiece piece t)
termination_by t => t.length
decreasing_by all_goals simp; try omega

/-- Every occurrence of `old` replaced by `new`. -/
def replace (old new t : Text) : Text :=
  join new (splitPiece old t)

/-- The text without any copies of `head` in front. -/
def withoutLeading (head t : Text) : Text :=
  match head with
  | [] => t
  | c :: more =>
    match _h : afterPrefix? (c :: more) t with
    | some rest => withoutLeading (c :: more) rest
    | none => t
termination_by t.length
decreasing_by
  rw [afterPrefix?_eq_some] at _h
  subst _h
  simp only [List.length_append, List.length_cons]
  omega

/-- The text without any copies of `tail` at its end. -/
def withoutTrailing (tail t : Text) : Text :=
  (withoutLeading tail.reverse t.reverse).reverse

/-! ## 5. Measures, order and padding -/

/-- The number of bytes of the text in UTF-8. -/
def byteLength : Text → Nat
  | [] => 0
  | c :: t => c.utf8Size + byteLength t

/-- The text set flush left in a column of `width` characters. -/
def padRight (width : Nat) (t : Text) : Text :=
  t ++ List.replicate (width - t.length) ' '

/-- The text set flush right in a column of `width` characters. -/
def padLeft (width : Nat) (t : Text) : Text :=
  List.replicate (width - t.length) ' ' ++ t

/-- Whether `s` comes strictly before `t` in the order of code points. -/
def precedes (s t : Text) : Bool :=
  decide (s < t)

/-- The texts in increasing order; equal ones keep their places. -/
def sort (ts : List Text) : List Text :=
  ts.mergeSort fun s t => !precedes t s

/-- A natural number in decimal. -/
def ofNat (n : Nat) : Text :=
  Nat.toDigits 10 n

/-- The number that a text of ASCII digits denotes, if it is one below 2^64. -/
def toCount? (t : Text) : Option Nat :=
  if !t.isEmpty && t.all Char.isDigit then
    let n := t.foldl (fun n c => 10 * n + (c.toNat - '0'.toNat)) 0
    if n < UInt64.size then some n else none
  else none

end Text
end AccessorCatalog

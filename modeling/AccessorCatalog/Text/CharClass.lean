/-
# Character classes

The classes of characters that the scanners of this library are built from: blanks (Unicode
White_Space), word characters, decimal digits, and letters or numbers.  Below code point 128 each
class is decided by a plain test; beyond it by the tables of `Text.PropertyRanges`.

A *word boundary* lies between two neighbours of which exactly one is a word character; the ends of
a text count as no word character.  `isWord_not_blank` is the fact that most layout arguments rest
on: no blank of the ASCII range is a word character.
-/
import AccessorCatalog.Text.PropertyRanges

namespace AccessorCatalog.Text

/-! ## 1. The classes -/

/-- Whether the code point of `c` lies in one of the inclusive ranges. -/
def inRanges (ranges : List (Nat × Nat)) (c : Char) : Bool :=
  ranges.any fun r => r.1 ≤ c.toNat && c.toNat ≤ r.2

/-- A blank: the Unicode property White_Space. -/
def isBlank (c : Char) : Bool :=
  c == ' ' || ('\t' ≤ c && c ≤ '\r') || c == '\u0085' || c == '\u00a0' || c == '\u1680' ||
    ('\u2000' ≤ c && c ≤ '\u200a') || c == '\u2028' || c == '\u2029' || c == '\u202f' ||
    c == '\u205f' || c == '\u3000'

/-- A decimal digit of any script. -/
def isDecimal (c : Char) : Bool :=
  if c.toNat < 128 then c.isDigit else inRanges decimalRanges c

/-- A word character: alphabetic, a combining mark, a decimal digit, connector punctuation, or one
of the two join controls. -/
def isWord (c : Char) : Bool :=
  if c.toNat < 128 then c.isAlphanum || c == '_'
  else
    c == '\u200c' || c == '\u200d' || inRanges alphabeticRanges c || inRanges markRanges c ||
      inRanges decimalRanges c || inRanges connectorRanges c

/-- A letter or a number of any script.  This class follows a later version of Unicode than the word
characters do. -/
def isAlphanumeric (c : Char) : Bool :=
  if c.toNat < 128 then c.isAlphanum
  else
    inRanges alphabeticRanges c || inRanges decimalRanges c || inRanges otherNumberRanges c ||
      inRanges addedAlphanumericRanges c

/-- An ASCII letter. -/
def isAsciiLetter (c : Char) : Bool :=
  c.isAlpha

/-! ## 2. Word boundaries -/

/-- Whether there is a character and it is a word character. -/
def isWordAt : Option Char → Bool
  | some c => isWord c
  | none => false

/-- Whether a word boundary lies between the character before and the text that follows. -/
def atBoundary (before : Option Char) (rest : List Char) : Bool :=
  isWordAt before != isWordAt rest.head?

/-- An ASCII blank is no word character. -/
theorem isWord_not_blank {c : Char} (h : isWord c = true) (ascii : c.toNat < 128) :
    isBlank c = false := by
  have all : ∀ n < 128, isWord (Char.ofNat n) = true → isBlank (Char.ofNat n) = false := by
    decide +kernel
  have := all c.toNat ascii
  rw [Char.ofNat_toNat] at this
  exact this h

end AccessorCatalog.Text

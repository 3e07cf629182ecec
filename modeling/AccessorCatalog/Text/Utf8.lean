/-
# Texts as bytes

Files hold bytes.  `encode` writes a text in UTF-8; `decode?` reads bytes that are well formed
throughout; `decodeLossy` reads any bytes and puts the replacement character U+FFFD for every
maximal stretch that starts a character and breaks off, and for every byte that starts none.
-/
import AccessorCatalog.Text.Basic

namespace AccessorCatalog.Text

/-- The bytes of a text in UTF-8. -/
def encode (t : Text) : List UInt8 :=
  t.flatMap String.utf8EncodeChar

/-- Whether a byte continues a character. -/
def isContinuation (b : UInt8) : Bool :=
  0x80 ≤ b && b ≤ 0xbf

/-- The bytes that may follow a first byte, and how many continuations come behind that second
byte. -/
def secondByte? (first : UInt8) : Option ((UInt8 × UInt8) × Nat) :=
  if 0xc2 ≤ first && first ≤ 0xdf then some ((0x80, 0xbf), 0)
  else if first == 0xe0 then some ((0xa0, 0xbf), 1)
  else if first == 0xed then some ((0x80, 0x9f), 1)
  else if 0xe1 ≤ first && first ≤ 0xef then some ((0x80, 0xbf), 1)
  else if first == 0xf0 then some ((0x90, 0xbf), 2)
  else if 0xf1 ≤ first && first ≤ 0xf3 then some ((0x80, 0xbf), 2)
  else if first == 0xf4 then some ((0x80, 0x8f), 2)
  else none

/-- The payload of a first byte that `n` continuations follow. -/
def payload (first : UInt8) (n : Nat) : Nat :=
  first.toNat % (if n = 1 then 0x20 else if n = 2 then 0x10 else 0x08)

/-- One character at the start of some bytes, or nothing for a stretch that is no character; with it
the number of bytes behind the first one that the character or the stretch takes. -/
def readChar (first : UInt8) (rest : List UInt8) : Option Char × Nat :=
  if first < 0x80 then (some (Char.ofNat first.toNat), 0)
  else
    match secondByte? first, rest with
    | some ((low, high), more), second :: rest =>
      if low ≤ second && second ≤ high then
        let tail := (rest.take more).takeWhile isContinuation
        if tail.length = more then
          let digits := (second :: tail).map fun b => b.toNat % 0x40
          let code := digits.foldl (fun n d => 0x40 * n + d) (payload first (more + 1))
          (some (Char.ofNat code), more + 1)
        else (none, tail.length + 1)
      else (none, 0)
    | _, _ => (none, 0)

/-- The characters of the bytes, nothing standing for a stretch that is no character. -/
def readChars : List UInt8 → List (Option Char)
  | [] => []
  | first :: rest =>
    let (c, more) := readChar first rest
    c :: readChars (rest.drop more)
termination_by bytes => bytes.length
decreasing_by simp only [List.length_cons, List.length_drop]; omega

/-- The text of well-formed bytes. -/
def decode? (bytes : List UInt8) : Option Text :=
  (readChars bytes).mapM id

/-- The text of any bytes, with U+FFFD for every stretch that is no character. -/
def decodeLossy (bytes : List UInt8) : Text :=
  (readChars bytes).map fun c => c.getD '\ufffd'

/-- The lines of some bytes: what lies between their line feeds, without a last empty one, and
without the carriage return in front of a line feed. -/
def byteLines : List UInt8 → List (List UInt8)
  | [] => []
  | b :: bytes =>
    if b = 0x0a then [] :: byteLines bytes
    else if b = 0x0d ∧ bytes.head? = some 0x0a then byteLines bytes
    else
      match byteLines bytes with
      | line :: lines => (b :: line) :: lines
      | [] => [[b]]

end AccessorCatalog.Text

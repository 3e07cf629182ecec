/-
# Reading texts from their bytes

`decode?_encode` says that a text can be read back from its bytes.  The reader looks at a first byte
and learns from it how many continuations follow and in which range the second byte has to lie; the
range is narrower than that of a continuation behind the first bytes of overlong forms, of
surrogates and of codes that are too large.  So the characters of each length are read for
themselves (`readChar_two`, `readChar_three`, `readChar_four`).
-/
import Mathlib.Data.List.TakeWhile
import AccessorCatalog.Text.Utf8

namespace AccessorCatalog.Text

/-! ## 1. Bytes -/

/-- The first byte of a character of two bytes, with its payload. -/
theorem first_two : ∀ q < 32, 2 ≤ q → ¬ UInt8.ofNat (q + 192) < 0x80 ∧
    secondByte? (UInt8.ofNat (q + 192)) = some ((0x80, 0xbf), 0) ∧
    payload (UInt8.ofNat (q + 192)) 1 = q := by
  decide

/-- The first byte of a character of three bytes.  Overlong forms start with the first of them, and
surrogates with the one before the last but one. -/
theorem first_three : ∀ q < 16, ¬ UInt8.ofNat (q + 224) < 0x80 ∧
    secondByte? (UInt8.ofNat (q + 224)) =
      some (if q = 0 then (0xa0, 0xbf) else if q = 13 then (0x80, 0x9f) else (0x80, 0xbf), 1) ∧
    payload (UInt8.ofNat (q + 224)) 2 = q := by
  decide

/-- The first byte of a character of four bytes. -/
theorem first_four : ∀ q < 5, ¬ UInt8.ofNat (q + 240) < 0x80 ∧
    secondByte? (UInt8.ofNat (q + 240)) =
      some (if q = 0 then (0x90, 0xbf) else if q = 4 then (0x80, 0x8f) else (0x80, 0xbf), 2) ∧
    payload (UInt8.ofNat (q + 240)) 3 = q := by
  decide

/-- A continuation, with its payload. -/
theorem continuation : ∀ d < 64, isContinuation (UInt8.ofNat (d + 128)) = true ∧
    (UInt8.ofNat (d + 128)).toNat % 0x40 = d := by
  decide

/-- Whether a continuation lies in a range. -/
theorem between_ofNat (low high : Nat) {d : Nat} (h : low ≤ d + 128 ∧ d + 128 ≤ high)
    (small : high < 256) :
    UInt8.ofNat low ≤ UInt8.ofNat (d + 128) ∧ UInt8.ofNat (d + 128) ≤ UInt8.ofNat high := by
  rw [UInt8.le_iff_toNat_le, UInt8.le_iff_toNat_le, UInt8.toNat_ofNat_of_lt' small,
    UInt8.toNat_ofNat_of_lt' (show d + 128 < 256 by omega),
    UInt8.toNat_ofNat_of_lt' (show low < 256 by omega)]
  exact h

/-! ## 2. Characters -/

/-- A character is read if its second byte lies in the range that its first byte asks for and
continuations follow. -/
theorem readChar_of_tail {first second : UInt8} {range : UInt8 × UInt8} {n : Nat}
    (long : ¬ first < 0x80) (asks : secondByte? first = some (range, n))
    (inside : range.1 ≤ second ∧ second ≤ range.2) (tail : List UInt8) (length : tail.length = n)
    (continues : ∀ b ∈ tail, isContinuation b = true) (rest : List UInt8) :
    readChar first (second :: (tail ++ rest)) =
      (some (Char.ofNat (((second :: tail).map fun b => b.toNat % 0x40).foldl
        (fun n d => 0x40 * n + d) (payload first (n + 1)))), n + 1) := by
  obtain ⟨low, high⟩ := range
  have taken : ((tail ++ rest).take n).takeWhile isContinuation = tail := by
    rw [← length, List.take_left]
    exact List.takeWhile_eq_self_iff.mpr continues
  unfold readChar
  rw [if_neg long, asks]
  dsimp only
  rw [taken, if_pos (by simpa using inside), if_pos length]

variable {c : Char} (rest : List UInt8)

theorem readChar_two (low : 127 < c.toNat) (high : c.toNat ≤ 2047) :
    readChar (UInt8.ofNat (c.toNat / 64 % 32 + 192)) (UInt8.ofNat (c.toNat % 64 + 128) :: rest) =
      (some c, 1) := by
  obtain ⟨long, asks, first⟩ := first_two (c.toNat / 64 % 32) (by omega) (by omega)
  obtain ⟨-, second⟩ := continuation (c.toNat % 64) (by omega)
  refine (readChar_of_tail long asks (between_ofNat 0x80 0xbf (by omega) (by omega)) [] rfl
    (List.forall_mem_nil _) rest).trans ?_
  simp only [List.map_cons, List.map_nil, List.foldl_cons, List.foldl_nil, first, second]
  rw [show 0x40 * (c.toNat / 64 % 32) + c.toNat % 64 = c.toNat by omega, Char.ofNat_toNat]

theorem readChar_three (low : 2047 < c.toNat) (high : c.toNat ≤ 65535) :
    readChar (UInt8.ofNat (c.toNat / 4096 % 16 + 224))
        (UInt8.ofNat (c.toNat / 64 % 64 + 128) :: UInt8.ofNat (c.toNat % 64 + 128) :: rest) =
      (some c, 2) := by
  have no_surrogate : c.toNat < 0xd800 ∨ 0xdfff < c.toNat ∧ c.toNat < 0x110000 := c.valid
  obtain ⟨long, asks, first⟩ := first_three (c.toNat / 4096 % 16) (by omega)
  obtain ⟨-, second⟩ := continuation (c.toNat / 64 % 64) (by omega)
  obtain ⟨continues, third⟩ := continuation (c.toNat % 64) (by omega)
  refine (readChar_of_tail long asks ?_ [UInt8.ofNat (c.toNat % 64 + 128)] rfl
    (List.forall_mem_singleton.mpr continues) rest).trans ?_
  · split_ifs
    · exact between_ofNat 0xa0 0xbf (by omega) (by omega)
    · exact between_ofNat 0x80 0x9f (by omega) (by omega)
    · exact between_ofNat 0x80 0xbf (by omega) (by omega)
  · simp only [List.map_cons, List.map_nil, List.foldl_cons, List.foldl_nil, first, second, third]
    rw [show 0x40 * (0x40 * (c.toNat / 4096 % 16) + c.toNat / 64 % 64) + c.toNat % 64 = c.toNat by
      omega, Char.ofNat_toNat]

theorem readChar_four (low : 65535 < c.toNat) :
    readChar (UInt8.ofNat (c.toNat / 262144 % 8 + 240))
        (UInt8.ofNat (c.toNat / 4096 % 64 + 128) :: UInt8.ofNat (c.toNat / 64 % 64 + 128) ::
          UInt8.ofNat (c.toNat % 64 + 128) :: rest) =
      (some c, 3) := by
  have small : c.toNat < 0xd800 ∨ 0xdfff < c.toNat ∧ c.toNat < 0x110000 := c.valid
  obtain ⟨long, asks, first⟩ := first_four (c.toNat / 262144 % 8) (by omega)
  obtain ⟨-, second⟩ := continuation (c.toNat / 4096 % 64) (by omega)
  obtain ⟨continues, third⟩ := continuation (c.toNat / 64 % 64) (by omega)
  obtain ⟨continues', fourth⟩ := continuation (c.toNat % 64) (by omega)
  refine (readChar_of_tail long asks ?_
    [UInt8.ofNat (c.toNat / 64 % 64 + 128), UInt8.ofNat (c.toNat % 64 + 128)] rfl
    (List.forall_mem_cons.mpr ⟨continues, List.forall_mem_singleton.mpr continues'⟩) rest).trans ?_
  · split_ifs
    · exact between_ofNat 0x90 0xbf (by omega) (by omega)
    · exact between_ofNat 0x80 0x8f (by omega) (by omega)
    · exact between_ofNat 0x80 0xbf (by omega) (by omega)
  · simp only [List.map_cons, List.map_nil, List.foldl_cons, List.foldl_nil, first, second, third,
      fourth]
    rw [show 0x40 * (0x40 * (0x40 * (c.toNat / 262144 % 8) + c.toNat / 4096 % 64) +
      c.toNat / 64 % 64) + c.toNat % 64 = c.toNat by omega, Char.ofNat_toNat]

theorem readChar_one (high : c.toNat ≤ 127) :
    readChar (UInt8.ofNat c.toNat) rest = (some c, 0) := by
  have byte : (UInt8.ofNat c.toNat).toNat = c.toNat :=
    UInt8.toNat_ofNat_of_lt' (show c.toNat < 256 by omega)
  have short : UInt8.ofNat c.toNat < 0x80 := by
    rw [UInt8.lt_iff_toNat_lt, byte]
    exact Nat.lt_succ_of_le high
  unfold readChar
  rw [if_pos short, byte, Char.ofNat_toNat]

/-! ## 3. Texts -/

/-- The bytes of a character are read as that character, whatever follows. -/
theorem readChars_encodeChar (c : Char) (rest : List UInt8) :
    readChars (String.utf8EncodeChar c ++ rest) = some c :: readChars rest := by
  unfold String.utf8EncodeChar
  rw [show c.val.toNat = c.toNat from rfl]
  dsimp only
  split_ifs with one two three
  · rw [List.singleton_append, readChars, readChar_one rest one]
    rfl
  · rw [List.cons_append, List.singleton_append, readChars, readChar_two rest (by omega) two]
    rfl
  · rw [List.cons_append, List.cons_append, List.singleton_append, readChars,
      readChar_three rest (by omega) three]
    rfl
  · rw [List.cons_append, List.cons_append, List.cons_append, List.singleton_append, readChars,
      readChar_four rest (Nat.lt_of_not_le three)]
    rfl

/-- **A text can be read back from its bytes.** -/
theorem decode?_encode (t : Text) : decode? (encode t) = some t := by
  have read : readChars (encode t) = t.map some := by
    induction t with
    | nil => rw [show encode [] = [] from rfl, readChars]; rfl
    | cons c t ih =>
      rw [encode, List.flatMap_cons, readChars_encodeChar, ← encode, ih, List.map_cons]
  unfold decode?
  rw [read, List.mapM_map]
  show t.mapM (m := Option) pure = some t
  rw [List.mapM_pure, List.map_id']
  rfl

end AccessorCatalog.Text

/-
# The layout of braces

`normalize` lays a header out so that a reader of lines needs no further scanning.  What that means
for braces is a property of neighbours, `Fits`: a line break follows an opening brace and precedes a
closing one, and a closing brace is followed by a line break or a semicolon.  `laid_normalize` says
that all neighbours in a normalized header fit, whatever the text was.

The line breaks come in at the first step (`laid_breakLines`).  The two replacements that follow
keep them, because the images start as what they replace and end in something that fits at least as
much (`Refits`), and trimming lines takes blanks away only where a line break stays.
-/
import Mathlib.Data.List.Chain
import AccessorCatalog.Proofs.Lines
import AccessorCatalog.Proofs.Preambles

namespace AccessorCatalog.Source

open Text (isBlank countWhile)
open Outline (Free isBrace free_word free_countWhile isBrace_of_isBlank)

/-! ## 1. Neighbours -/

/-- Two characters can stand next to each other in a header that is laid out. -/
structure Fits (a b : Char) : Prop where
  afterOpen : a = '\x7b' → b = '\n'
  beforeClose : b = '\x7d' → a = '\n'
  afterClose : a = '\x7d' → b = '\n' ∨ b = ';'

/-- All neighbours in the text fit. -/
def Laid (t : Text) : Prop :=
  t.IsChain Fits

/-- Whatever is no brace fits behind a line break or any other character that is none. -/
theorem fits_of_ne {a b : Char} (left : a ≠ '\x7b') (right : a ≠ '\x7d') (close : b ≠ '\x7d') :
    Fits a b :=
  ⟨fun h => absurd h left, fun h => absurd h close, fun h => absurd h right⟩

/-- Everything fits behind a line break. -/
theorem fits_break (b : Char) : Fits '\n' b :=
  ⟨fun h => absurd h (by decide), fun _ => rfl, fun h => absurd h (by decide)⟩

/-- A line break fits behind everything. -/
theorem fits_before_break (a : Char) : Fits a '\n' :=
  ⟨fun _ => rfl, fun h => absurd h (by decide), fun _ => .inl rfl⟩

theorem Laid.fits {s t : Text} {a b : Char} (h : Laid (s ++ a :: b :: t)) : Fits a b :=
  (List.isChain_append_cons_cons.mp h).2.1

/-- What can stand behind a character if `k` ends its lines. -/
def BreakBehind (k a b : Char) : Prop :=
  a = k → b = '\n'

theorem Laid.breakBehind {t : Text} (h : Laid t) : t.IsChain (BreakBehind '\x7b') :=
  h.imp fun _ _ fits => fits.afterOpen

theorem isChain_breakBehind_cons {k c : Char} {t : Text} (other : c ≠ k)
    (rest : t.IsChain (BreakBehind k)) : (c :: t).IsChain (BreakBehind k) :=
  List.isChain_cons.mpr ⟨fun _ _ same => absurd same other, rest⟩

theorem isChain_breakBehind_of_not_mem {k : Char} {t : Text} (other : k ∉ t) :
    t.IsChain (BreakBehind k) := by
  induction t with
  | nil => exact .nil
  | cons c t ih =>
    exact isChain_breakBehind_cons (List.ne_of_not_mem_cons other).symm
      (ih (List.not_mem_of_not_mem_cons other))

/-! ## 2. The line breaks -/

theorem laid_breakLines_behind {a : Char} (left : a ≠ '\x7b') (right : a ≠ '\x7d') (t : Text) :
    Laid (a :: breakLines t) := by
  induction t generalizing a with
  | nil => exact .singleton a
  | cons c t ih =>
    have behind_break : Laid ('\n' :: breakLines t) := ih (by decide) (by decide)
    unfold breakLines
    rw [List.flatMap_cons]
    split
    · exact .cons_cons (fits_of_ne left right (by decide))
        (.cons_cons (fits_before_break _) behind_break)
    · split
      · exact .cons_cons (fits_of_ne left right (by decide))
          (.cons_cons (fits_before_break _) behind_break)
      · split
        · exact .cons_cons (fits_before_break a)
            (.cons_cons (fits_break _) (.cons_cons (fits_before_break _) behind_break))
        · next open_ne _ close_ne =>
          exact .cons_cons (fits_of_ne left right close_ne) (ih open_ne close_ne)

/-- **The line breaks are where they belong.** -/
theorem laid_breakLines (t : Text) : Laid (breakLines t) :=
  (laid_breakLines_behind (by decide) (by decide) t : Laid ('\n' :: breakLines t)).tail

/-! ## 3. Replacing -/

/-- A text can stand in place of another: it starts with the same character, is laid out, and fits
in front of whatever the other one does. -/
structure Refits (taken image : Text) : Prop where
  head : image.head? = taken.head?
  laid : Laid image
  last : ∀ x ∈ image.getLast?, ∀ z ∈ taken.getLast?, ∀ y, Fits z y → Fits x y

/-- A text can stand in place of another among neighbours of any kind. -/
structure Fills (near : Char → Char → Prop) (taken image : Text) : Prop where
  head : image.head? = taken.head?
  chain : image.IsChain near
  last : ∀ x ∈ image.getLast?, ∀ z ∈ taken.getLast?, ∀ y, near z y → near x y

theorem Refits.fills {taken image : Text} (h : Refits taken image) : Fills Fits taken image :=
  ⟨h.head, h.laid, h.last⟩

/-- Replacing stretches by texts that can stand in their places. -/
theorem isChain_replaceMatchesFrom {near : Char → Char → Prop} {pattern : Text.Pattern}
    {image : Text → Text} {before : Option Char} {t : Text}
    (fills : ∀ before c t n, pattern before (c :: t) = some n →
      Fills near (c :: t.take (n - 1)) (image (c :: t.take (n - 1))))
    (chain : t.IsChain near) :
    (Text.replaceMatchesFrom pattern image before t).IsChain near ∧
      (Text.replaceMatchesFrom pattern image before t).head? = t.head? := by
  fun_induction Text.replaceMatchesFrom pattern image before t with
  | case1 => exact ⟨.nil, rfl⟩
  | case2 before c t n found taken ih =>
    have here : Fills near taken (image taken) := fills before c t n found
    have cut : c :: t = taken ++ t.drop (n - 1) := by
      rw [List.cons_append, List.take_append_drop]
    rw [cut] at chain
    obtain ⟨-, chain_rest, joint⟩ := List.isChain_append.mp chain
    obtain ⟨chain_out, head_out⟩ := ih chain_rest
    obtain ⟨tail, image_cons⟩ := List.head?_eq_some_iff.mp (here.head.trans rfl)
    refine ⟨List.isChain_append.mpr ⟨here.chain, chain_out, fun x hx y hy => ?_⟩, ?_⟩
    · rw [head_out] at hy
      have some_last : taken.getLast?.isSome := by simp [taken]
      obtain ⟨z, hz⟩ := Option.isSome_iff_exists.mp some_last
      exact here.last x hx z hz y (joint z hz y hy)
    · rw [image_cons]
      rfl
  | case3 before c t found ih =>
    obtain ⟨chain_out, head_out⟩ := ih chain.tail
    refine ⟨List.isChain_cons.mpr ⟨fun y hy => ?_, chain_out⟩, rfl⟩
    rw [head_out] at hy
    exact chain.rel_head? hy

/-- Replacing stretches by texts that fit in their places. -/
theorem laid_replaceMatchesFrom {pattern : Text.Pattern} {image : Text → Text}
    {before : Option Char} {t : Text}
    (refits : ∀ before c t n, pattern before (c :: t) = some n →
      Refits (c :: t.take (n - 1)) (image (c :: t.take (n - 1))))
    (laid : Laid t) :
    Laid (Text.replaceMatchesFrom pattern image before t) ∧
      (Text.replaceMatchesFrom pattern image before t).head? = t.head? :=
  isChain_replaceMatchesFrom (fun before c t n found => (refits before c t n found).fills) laid

/-- A closing brace and its semicolon keep their ends when the blanks between them go. -/
theorem refits_closeWithSemicolon {before : Option Char} {c : Char} {t : Text} {n : Nat}
    (h : closeWithSemicolon before (c :: t) = some n) :
    Refits (c :: t.take (n - 1)) ['\x7d', ';'] := by
  unfold closeWithSemicolon at h
  split at h
  · next rest eq =>
    cases eq
    dsimp only at h
    split at h
    · next behind semicolon =>
      cases h
      have last : (t.take (1 + countWhile isBlank t + 1 - 1)).getLast? = some ';' := by
        have at_gap : t[countWhile isBlank t]? = some ';' := by
          rw [← List.head?_drop, semicolon]
          rfl
        rw [Nat.add_sub_cancel, Nat.add_comm 1, List.take_add_one, at_gap]
        exact List.getLast?_concat
      refine ⟨rfl, .cons_cons ⟨by decide, by decide, fun _ => .inr rfl⟩ (.singleton _), ?_⟩
      intro x hx z hz y fits
      rw [List.getLast?_cons, last] at hz
      cases hx
      cases hz
      exact fits
    · cases h
  · cases h

/-- A text without braces is laid out. -/
theorem laid_of_free {t : Text} (plain : ∀ c ∈ t, isBrace c = false) : Laid t := by
  induction t with
  | nil => exact .nil
  | cons a t ih =>
    have rest := ih fun c hc => plain c (List.mem_cons_of_mem a hc)
    refine List.isChain_cons.mpr ⟨fun b hb => ?_, rest⟩
    have a_plain := plain a List.mem_cons_self
    have b_plain := plain b (List.mem_cons_of_mem a (List.mem_of_mem_head? hb))
    simp only [isBrace, Bool.or_eq_false_iff, beq_eq_false_iff_ne] at a_plain b_plain
    exact fits_of_ne a_plain.1 a_plain.2 b_plain.2

theorem accessWords_form {word : Text} (mem : word ∈ accessWords) :
    word.head? = some 'p' ∧ word.any isBrace = false := by
  have all : (accessWords.all fun word => word.head? == some 'p' && !word.any isBrace) = true := by
    decide
  have form := List.all_eq_true.mp all word mem
  rwa [Bool.and_eq_true, beq_iff_eq, Bool.not_eq_true'] at form

/-- What is taken as an access label starts with its word and has no braces. -/
theorem accessLabel_eq_some {before : Option Char} {t : Text} {n : Nat}
    (h : accessLabel before t = some n) : t.head? = some 'p' ∧ Free isBrace t n := by
  unfold accessLabel at h
  split at h
  · obtain ⟨word, mem, h⟩ := List.exists_of_findSome?_eq_some h
    obtain ⟨rest, found, h⟩ := Option.bind_eq_some_iff.mp h
    obtain ⟨starts, word_plain⟩ := accessWords_form mem
    obtain ⟨word_free, drop⟩ := free_word word_plain found
    have gap_free := free_countWhile (fun {c} => isBrace_of_isBlank (c := c)) rest
    have lead : Free isBrace t (word.length + countWhile isBlank rest) :=
      word_free.add (by rw [drop]; exact gap_free)
    have behind_gap : t.drop (word.length + countWhile isBlank rest) =
        rest.drop (countWhile isBlank rest) := by
      rw [← List.drop_drop, drop]
    have head : t.head? = some 'p' := by
      rw [Text.afterPrefix?_eq_some.mp found, List.head?_append, starts]
      rfl
    refine ⟨head, ?_⟩
    dsimp only at h
    split at h
    · next colons =>
      cases h
      exact lead.add (by rw [behind_gap, colons]; simp [Free, isBrace])
    · next colon =>
      cases h
      exact lead.add (by rw [behind_gap, colon]; simp [Free, isBrace])
    · cases h
  · cases h

/-- An access label ends its line, or stays. -/
theorem refits_accessLabel {before : Option Char} {c : Char} {t : Text} {n : Nat}
    (h : accessLabel before (c :: t) = some n) :
    Refits (c :: t.take (n - 1)) (endLabel (c :: t.take (n - 1))) := by
  obtain ⟨head, -, free⟩ := accessLabel_eq_some h
  obtain rfl : c = 'p' := by simpa using head
  have plain : ∀ d ∈ 'p' :: t.take (n - 1), isBrace d = false := by
    cases n with
    | zero => simp [isBrace]
    | succ n => exact free
  unfold endLabel
  split
  · exact ⟨rfl, laid_of_free plain, fun x hx z hz y fits => by
      rw [Option.mem_unique hx hz]
      exact fits⟩
  · have solid_plain : ∀ d ∈ solid ('p' :: t.take (n - 1)) ++ ['\n'], isBrace d = false := by
      intro d hd
      rcases List.mem_append.mp hd with hd | hd
      · exact plain d (List.mem_filter.mp hd).1
      · rw [List.mem_singleton.mp hd]
        decide
    refine ⟨rfl, laid_of_free solid_plain, fun x hx z hz y _ => ?_⟩
    rw [List.getLast?_concat] at hx
    cases hx
    exact fits_break y

/-! ## 4. Normalized headers -/

theorem laid_join {lines : List Text} (laid : ∀ line ∈ lines, Laid line) :
    Laid (Text.join ['\n'] lines) := by
  induction lines with
  | nil => exact .nil
  | cons line lines ih =>
    have rest := ih fun l hl => laid l (List.mem_cons_of_mem _ hl)
    have first := laid line List.mem_cons_self
    cases lines with
    | nil => simpa [Text.join] using first
    | cons next lines =>
      rw [join_cons_cons, List.append_assoc, List.singleton_append]
      refine List.isChain_append.mpr ⟨first, ?_, fun x _ y hy => ?_⟩
      · exact List.isChain_cons.mpr ⟨fun y _ => fits_break y, rest⟩
      · cases hy
        exact fits_before_break x

/-- **The braces of a normalized header are laid out.** -/
theorem laid_normalize (t : Text) : Laid (normalize t) := by
  let broken := breakLines (joinOperatorName (canonicalSpacing (programText t)))
  let closed := Text.replaceMatches closeWithSemicolon (fun _ => ['\x7d', ';']) broken
  have laid_closed : Laid closed :=
    (laid_replaceMatchesFrom (fun _ _ _ _ => refits_closeWithSemicolon) (laid_breakLines _)).1
  have laid_labelled : Laid (Text.replaceMatches accessLabel endLabel closed) :=
    (laid_replaceMatchesFrom (fun _ _ _ _ => refits_accessLabel) laid_closed).1
  exact laid_join fun line mem => laid_labelled.infix (infix_of_mem_trimmedLines mem)

end AccessorCatalog.Source

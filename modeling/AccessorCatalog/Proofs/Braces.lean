/-
# Balanced braces

The braces of a text are *balanced* when they form a word of the grammar `B ::= empty | { B } B`;
all other characters count for nothing.  The library never builds such a word: it scans, with a
stack of offsets (`checkBraces`) or with a count of the open braces (`closeWithin`).  This file
relates the scans to the grammar.  Both are compared with one reading, `depthAfter?`, the number of
braces that are open behind a text:

* `balanced_iff_depthAfter`: the grammar holds exactly the texts that lead from depth zero to zero;
* `checkBraces_eq_ok_iff`: the check accepts exactly the balanced texts;
* `closeWithin_eq_ok_iff`: the bounded search finds exactly the matching brace, if few enough braces
  lie before it;
* `closePlace_isSome`: where the depth comes down, the matching brace exists.
-/
import AccessorCatalog.Outline.Balance
import AccessorCatalog.Outline.Construct
import AccessorCatalog.Proofs.Fallible
import AccessorCatalog.Text.Nesting

namespace AccessorCatalog.Outline

/-! ## 1. The grammar -/

/-- Whether a character is a brace. -/
def isBrace (c : Char) : Bool :=
  c == '\x7b' || c == '\x7d'

/-- The braces of a text, in order. -/
def braces (t : Text) : Text :=
  t.filter isBrace

/-- The words of braces in which every brace has its partner. -/
inductive BraceWord : Text → Prop
  | empty : BraceWord []
  | pair {inner rest : Text} (inner_word : BraceWord inner) (rest_word : BraceWord rest) :
      BraceWord ('\x7b' :: inner ++ '\x7d' :: rest)

/-- The braces of the text pair up. -/
def Balanced (t : Text) : Prop :=
  BraceWord (braces t)

@[simp] theorem braces_nil : braces [] = [] := rfl

@[simp] theorem braces_append (s t : Text) : braces (s ++ t) = braces s ++ braces t :=
  List.filter_append s t

@[simp] theorem braces_cons_open (t : Text) : braces ('\x7b' :: t) = '\x7b' :: braces t := rfl

@[simp] theorem braces_cons_close (t : Text) : braces ('\x7d' :: t) = '\x7d' :: braces t := rfl

theorem braces_cons_other {c : Char} (left : c ≠ '\x7b') (right : c ≠ '\x7d') (t : Text) :
    braces (c :: t) = braces t := by
  simp [braces, isBrace, left, right]

theorem braces_eq_nil {t : Text} (left : '\x7b' ∉ t) (right : '\x7d' ∉ t) : braces t = [] := by
  rw [braces, List.filter_eq_nil_iff]
  intro c hc
  have h1 : c ≠ '\x7b' := fun e => left (e ▸ hc)
  have h2 : c ≠ '\x7d' := fun e => right (e ▸ hc)
  simp [isBrace, h1, h2]

theorem braces_eq_nil_of_infix {s t : Text} (part : s <:+: t) (plain : braces t = []) :
    braces s = [] := by
  have inside : braces s <:+: braces t := part.filter isBrace
  rw [plain] at inside
  exact List.infix_nil.mp inside

/-! ## 2. Depth -/

/-- The number of braces that are open behind a text, when `depth` are open before it; nothing if
one closes that was never opened. -/
def depthAfter? (depth : Nat) : Text → Option Nat
  | [] => some depth
  | c :: t =>
    if c = '\x7b' then depthAfter? (depth + 1) t
    else if c = '\x7d' then
      match depth with
      | 0 => none
      | depth + 1 => depthAfter? depth t
    else depthAfter? depth t

@[simp] theorem depthAfter_nil (d : Nat) : depthAfter? d [] = some d := rfl

@[simp] theorem depthAfter_open (d : Nat) (t : Text) :
    depthAfter? d ('\x7b' :: t) = depthAfter? (d + 1) t := rfl

@[simp] theorem depthAfter_close_zero (t : Text) : depthAfter? 0 ('\x7d' :: t) = none := rfl

@[simp] theorem depthAfter_close_succ (d : Nat) (t : Text) :
    depthAfter? (d + 1) ('\x7d' :: t) = depthAfter? d t := rfl

theorem depthAfter_other {c : Char} (left : c ≠ '\x7b') (right : c ≠ '\x7d') (d : Nat) (t : Text) :
    depthAfter? d (c :: t) = depthAfter? d t := by
  simp [depthAfter?, left, right]

/-- Each character opens a brace, closes one, or leaves the depth alone. -/
theorem brace_cases (c : Char) : c = '\x7b' ∨ c = '\x7d' ∨ (c ≠ '\x7b' ∧ c ≠ '\x7d') := by
  by_cases left : c = '\x7b'
  · exact .inl left
  · by_cases right : c = '\x7d'
    · exact .inr (.inl right)
    · exact .inr (.inr ⟨left, right⟩)

/-- Blanks are no braces. -/
theorem braces_solid (t : Text) : braces (Source.solid t) = braces t := by
  rw [braces, Source.solid, List.filter_filter]
  refine List.filter_congr fun c _ => ?_
  rcases brace_cases c with rfl | rfl | ⟨left, right⟩
  · decide
  · decide
  · simp [isBrace, left, right]

theorem depthAfter_append (d : Nat) (s t : Text) :
    depthAfter? d (s ++ t) = (depthAfter? d s).bind fun e => depthAfter? e t := by
  induction s generalizing d with
  | nil => rfl
  | cons c s ih =>
    rw [List.cons_append]
    rcases brace_cases c with rfl | rfl | ⟨left, right⟩
    · simp [ih]
    · cases d with
      | zero => simp
      | succ d => simp [ih]
    · rw [depthAfter_other left right, depthAfter_other left right, ih]

/-- Only the braces of a text move the depth. -/
theorem depthAfter_braces (d : Nat) (t : Text) : depthAfter? d (braces t) = depthAfter? d t := by
  induction t generalizing d with
  | nil => rfl
  | cons c t ih =>
    rcases brace_cases c with rfl | rfl | ⟨left, right⟩
    · simp [ih]
    · cases d with
      | zero => simp
      | succ d => simp [ih]
    · rw [braces_cons_other left right, depthAfter_other left right, ih]

theorem depthAfter_of_braces_nil {t : Text} (h : braces t = []) (d : Nat) :
    depthAfter? d t = some d := by
  rw [← depthAfter_braces, h, depthAfter_nil]

theorem depthAfter_append_plain {s : Text} (h : braces s = []) (d : Nat) (t : Text) :
    depthAfter? d (s ++ t) = depthAfter? d t := by
  rw [depthAfter_append, depthAfter_of_braces_nil h, Option.bind_some]

/-- A word of the grammar leaves every depth as it is. -/
theorem BraceWord.depthAfter {w : Text} (h : BraceWord w) (d : Nat) : depthAfter? d w = some d := by
  induction h generalizing d with
  | empty => rfl
  | pair _ _ inner_ih rest_ih =>
    rw [depthAfter_append, depthAfter_open, inner_ih]
    simp [rest_ih]

/-- More braces that are open before a text are open behind it as well. -/
theorem depthAfter_add {d e : Nat} {t : Text} (h : depthAfter? d t = some e) (k : Nat) :
    depthAfter? (d + k) t = some (e + k) := by
  induction t generalizing d with
  | nil =>
    rw [depthAfter_nil, Option.some.injEq] at h
    rw [h, depthAfter_nil]
  | cons c t ih =>
    rcases brace_cases c with rfl | rfl | ⟨left, right⟩
    · have := ih h
      rwa [Nat.add_right_comm] at this
    · cases d with
      | zero => simp at h
      | succ d =>
        rw [Nat.succ_add_eq_add_succ, Nat.add_succ, depthAfter_close_succ]
        exact ih h
    · rw [depthAfter_other left right] at h ⊢
      exact ih h

/-- Where the depth comes down to `d` from one more, the text cuts at the brace that does it. -/
theorem exists_close_of_depthAfter {d e : Nat} {t : Text} (h : depthAfter? (d + 1) t = some e)
    (low : e ≤ d) :
    ∃ inner rest, t = inner ++ '\x7d' :: rest ∧ depthAfter? 0 inner = some 0 ∧
      depthAfter? d rest = some e := by
  -- an opening brace needs the statement twice: for its own close, and for what follows that
  induction hn : t.length using Nat.strongRecOn generalizing t d with
  | ind n ih =>
    subst hn
    cases t with
    | nil =>
      simp only [depthAfter_nil, Option.some.injEq] at h
      omega
    | cons c t =>
      rcases brace_cases c with rfl | rfl | ⟨left, right⟩
      · rw [depthAfter_open] at h
        obtain ⟨first, behind, rfl, first_zero, behind_depth⟩ :=
          ih t.length (by simp) h (by omega) rfl
        obtain ⟨second, rest, rfl, second_zero, rest_depth⟩ :=
          ih behind.length (by simp; omega) behind_depth low rfl
        refine ⟨'\x7b' :: first ++ '\x7d' :: second, rest, by simp, ?_, rest_depth⟩
        rw [List.cons_append, depthAfter_open, depthAfter_append, depthAfter_add first_zero 1]
        exact second_zero
      · exact ⟨[], t, rfl, rfl, h⟩
      · rw [depthAfter_other left right] at h
        obtain ⟨inner, rest, rfl, inner_zero, rest_depth⟩ := ih t.length (by simp) h low rfl
        exact ⟨c :: inner, rest, rfl, by rwa [depthAfter_other left right], rest_depth⟩

/-- Words of the grammar are the words of braces that lead from depth zero to zero. -/
theorem braceWord_of_depthAfter {w : Text} (only : ∀ c ∈ w, isBrace c = true)
    (h : depthAfter? 0 w = some 0) : BraceWord w := by
  induction hn : w.length using Nat.strongRecOn generalizing w with
  | ind n ih =>
    subst hn
    cases w with
    | nil => exact .empty
    | cons c t =>
      rcases brace_cases c with rfl | rfl | ⟨left, right⟩
      · obtain ⟨inner, rest, rfl, inner_zero, rest_zero⟩ :=
          exists_close_of_depthAfter h (Nat.le_refl 0)
        have inner_shorter : inner.length < ('\x7b' :: (inner ++ '\x7d' :: rest)).length := by
          simp only [List.length_cons, List.length_append]
          omega
        have rest_shorter : rest.length < ('\x7b' :: (inner ++ '\x7d' :: rest)).length := by
          simp only [List.length_cons, List.length_append]
          omega
        refine .pair (ih inner.length inner_shorter ?_ inner_zero rfl)
          (ih rest.length rest_shorter ?_ rest_zero rfl)
        · exact fun c hc => only c (by simp [hc])
        · exact fun c hc => only c (by simp [hc])
      · simp at h
      · have := only c List.mem_cons_self
        simp [isBrace, left, right] at this

/-- **The grammar and the count agree.** -/
theorem balanced_iff_depthAfter {t : Text} : Balanced t ↔ depthAfter? 0 t = some 0 := by
  constructor
  · intro h
    rw [← depthAfter_braces]
    exact h.depthAfter 0
  · intro h
    refine braceWord_of_depthAfter (fun c hc => (List.mem_filter.mp hc).2) ?_
    exact (depthAfter_braces 0 t).trans h

instance (t : Text) : Decidable (Balanced t) :=
  decidable_of_iff _ balanced_iff_depthAfter.symm

/-! ## 3. The check with offsets -/

/-- The stack of offsets holds one offset for every open brace. -/
theorem braceFaultFrom_eq_none_iff {offset : Nat} {opened : List Nat} {t : Text} :
    braceFaultFrom? offset opened t = none ↔ depthAfter? opened.length t = some 0 := by
  induction t generalizing offset opened with
  | nil => cases opened <;> simp [braceFaultFrom?, List.getLast?_cons]
  | cons c t ih =>
    rcases brace_cases c with rfl | rfl | ⟨left, right⟩
    · simp [braceFaultFrom?, ih]
    · cases opened with
      | nil => simp [braceFaultFrom?]
      | cons _ opened => simp [braceFaultFrom?, ih]
    · simp [braceFaultFrom?, left, right, ih, depthAfter_other]

/-- **The check accepts exactly the balanced texts.** -/
theorem checkBraces_eq_ok_iff {header t : Text} :
    checkBraces header t = .ok () ↔ Balanced t := by
  have fault_iff : braceFaultFrom? 0 [] t = none ↔ depthAfter? 0 t = some 0 :=
    braceFaultFrom_eq_none_iff
  rw [balanced_iff_depthAfter, ← fault_iff]
  unfold checkBraces
  cases braceFaultFrom? 0 [] t <;> simp

/-- What the check reports is a malformed construct of the header. -/
theorem checkBraces_error {header t : Text} {e : ParseError} (h : checkBraces header t = .error e) :
    ∃ offset fault, e = .malformedConstruct header offset fault := by
  unfold checkBraces at h
  split at h
  · next offset fault _ =>
    exact ⟨offset, fault, (Except.error.inj h).symm⟩
  · cases h

/-! ## 4. The matching brace -/

/-- The place of the brace that closes the innermost of `depth` open ones and all inside it. -/
abbrev closePlace? (depth : Nat) (t : Text) : Option Nat :=
  Text.closeFrom? '\x7b' '\x7d' depth t

@[simp] theorem closePlace_nil (d : Nat) : closePlace? d [] = none := rfl

@[simp] theorem closePlace_open (d : Nat) (t : Text) :
    closePlace? d ('\x7b' :: t) = (closePlace? (d + 1) t).map (· + 1) := rfl

@[simp] theorem closePlace_close_one (t : Text) : closePlace? 1 ('\x7d' :: t) = some 0 := rfl

@[simp] theorem closePlace_close_succ (d : Nat) (t : Text) :
    closePlace? (d + 2) ('\x7d' :: t) = (closePlace? (d + 1) t).map (· + 1) := rfl

theorem closePlace_other {c : Char} (left : c ≠ '\x7b') (right : c ≠ '\x7d') (d : Nat) (t : Text) :
    closePlace? d (c :: t) = (closePlace? d t).map (· + 1) := by
  simp [closePlace?, Text.closeFrom?, left, right]

theorem closeWithin_open (limit d : Nat) (t : Text) :
    closeWithin (limit + 1) d ('\x7b' :: t) = (closeWithin limit (d + 1) t).map (· + 1) := rfl

theorem closeWithin_close_one (limit : Nat) (t : Text) :
    closeWithin (limit + 1) 1 ('\x7d' :: t) = .ok 0 := rfl

theorem closeWithin_close_succ (limit d : Nat) (t : Text) :
    closeWithin (limit + 1) (d + 2) ('\x7d' :: t) = (closeWithin limit (d + 1) t).map (· + 1) := rfl

theorem closeWithin_other {c : Char} (left : c ≠ '\x7b') (right : c ≠ '\x7d') (limit d : Nat)
    (t : Text) : closeWithin limit d (c :: t) = (closeWithin limit d t).map (· + 1) := by
  simp [closeWithin, left, right]

/-- Behind a character both searches go on: what they say of the rest, they say of the whole one
place on. -/
theorem map_closeWithin_eq_ok_iff {limit limit' depth n : Nat} {c : Char} {t : Text}
    (rest : ∀ m, closeWithin limit depth t = .ok m ↔
      closePlace? depth t = some m ∧ (braces (t.take (m + 1))).length ≤ limit)
    (few : ∀ m, (braces (c :: t.take (m + 1))).length ≤ limit' ↔
      (braces (t.take (m + 1))).length ≤ limit) :
    (closeWithin limit depth t).map (· + 1) = .ok n ↔
      (closePlace? depth t).map (· + 1) = some n ∧
        (braces ((c :: t).take (n + 1))).length ≤ limit' := by
  rw [map_eq_ok_iff, Option.map_eq_some_iff]
  constructor
  · rintro ⟨m, found, rfl⟩
    obtain ⟨place, read⟩ := (rest m).mp found
    exact ⟨⟨m, place, rfl⟩, (few m).mpr read⟩
  · rintro ⟨⟨m, place, rfl⟩, read⟩
    exact ⟨m, (rest m).mpr ⟨place, (few m).mp read⟩, rfl⟩

/-- The bounded search finds the matching brace, and only if at most `limit` braces are read. -/
theorem closeWithin_eq_ok_iff {limit depth n : Nat} {t : Text} (inside : 0 < depth) :
    closeWithin limit depth t = .ok n ↔
      closePlace? depth t = some n ∧ (braces (t.take (n + 1))).length ≤ limit := by
  induction t generalizing limit depth n with
  | nil => simp [closeWithin]
  | cons c t ih =>
    rcases brace_cases c with rfl | rfl | ⟨left, right⟩
    · cases limit with
      | zero => simp [closeWithin]
      | succ limit =>
        rw [closeWithin_open, closePlace_open]
        exact map_closeWithin_eq_ok_iff (fun _ => ih (Nat.succ_pos depth)) (by simp)
    · cases limit with
      | zero => simp [closeWithin]
      | succ limit =>
        obtain ⟨d, rfl⟩ : ∃ d, depth = d + 1 := ⟨depth - 1, by omega⟩
        cases d with
        | zero =>
          rw [closeWithin_close_one, closePlace_close_one]
          constructor
          · intro h
            cases h
            exact ⟨rfl, by simp⟩
          · rintro ⟨h, -⟩
            cases h
            rfl
        | succ d =>
          rw [closeWithin_close_succ, closePlace_close_succ]
          exact map_closeWithin_eq_ok_iff (fun _ => ih (Nat.succ_pos d)) (by simp)
    · rw [closeWithin_other left right, closePlace_other left right]
      exact map_closeWithin_eq_ok_iff (fun _ => ih inside) (by simp [braces_cons_other left right])

/-- Where the depth comes down by `j`, the brace that closes `j` open ones exists. -/
theorem closePlace_isSome {b j e : Nat} {t : Text} (h : depthAfter? (b + j) t = some e)
    (low : e ≤ b) (inside : 0 < j) : (closePlace? j t).isSome := by
  induction t generalizing j with
  | nil =>
    simp only [depthAfter_nil, Option.some.injEq] at h
    omega
  | cons c t ih =>
    rcases brace_cases c with rfl | rfl | ⟨left, right⟩
    · rw [closePlace_open, Option.isSome_map]
      exact ih h (by omega)
    · obtain ⟨j, rfl⟩ : ∃ i, j = i + 1 := ⟨j - 1, by omega⟩
      cases j with
      | zero => rfl
      | succ j =>
        rw [closePlace_close_succ, Option.isSome_map]
        exact ih h (by omega)
    · rw [closePlace_other left right, Option.isSome_map]
      rw [depthAfter_other left right] at h
      exact ih h inside

end AccessorCatalog.Outline

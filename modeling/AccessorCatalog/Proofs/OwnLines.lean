/-
# Own lines

The *own lines* of a scope are the lines between its two marks and outside the marks of any other
scope inside it.  `ownLines` keeps them for every scope that is open behind a stream of tokens, as
they come.

Marks and braces nest in the pieces that a segmented header is written from, and so they do in its
tokens (`nests_tokens`).  Hence no brace closes in the own lines of a scope that was not opened
there (`depths_of_nests`): at any place of the stream, each open scope has as many braces open as
its own lines leave open, and its mark below them.
-/
import AccessorCatalog.Proofs.Segmentation

namespace AccessorCatalog.Outline

/-! ## 1. The own lines of open scopes -/

/-- Reads one token, with the own lines of the open scopes, innermost first. -/
def ownLinesStep (own : List (List Text)) : Token → List (List Text)
  | .line t =>
    match own with
    | inner :: outer => (inner ++ [t]) :: outer
    | [] => []
  | .mark m => if m.isOpening then [] :: own else own.tail

/-- The own lines of the scopes that are open behind a stream, innermost first. -/
def ownLines (ts : List Token) : List (List Text) :=
  ts.foldl ownLinesStep []

theorem ownLines_concat (ts : List Token) (token : Token) :
    ownLines (ts ++ [token]) = ownLinesStep (ownLines ts) token := by
  rw [ownLines, List.foldl_append]
  rfl

/-- Own lines are lines of the stream. -/
theorem mem_of_mem_ownLines {ts : List Token} {own : List Text} (open_scope : own ∈ ownLines ts)
    {line : Text} (mem : line ∈ own) : .line line ∈ ts := by
  induction ts using List.reverseRecOn generalizing own with
  | nil => cases open_scope
  | append_singleton ts token ih =>
    rw [ownLines_concat] at open_scope
    rw [List.mem_append, List.mem_singleton]
    cases token with
    | line t =>
      cases before : ownLines ts with
      | nil => simp [ownLinesStep, before] at open_scope
      | cons inner outer =>
        simp only [ownLinesStep, before, List.mem_cons] at open_scope
        rcases open_scope with rfl | known
        · rcases List.mem_append.mp mem with mem | mem
          · exact .inl (ih (by simp [before]) mem)
          · exact .inr (by rw [List.mem_singleton.mp mem])
        · exact .inl (ih (by simp [before, known]) mem)
    | mark m =>
      cases opening : m.isOpening with
      | true =>
        simp only [ownLinesStep, opening, if_true, List.mem_cons] at open_scope
        rcases open_scope with rfl | known
        · cases mem
        · exact .inl (ih known mem)
      | false =>
        simp only [ownLinesStep, opening] at open_scope
        exact .inl (ih (List.mem_of_mem_tail (by simpa using open_scope)) mem)

/-! ## 2. Tokens nest -/

/-- The pieces of a token: the characters of its line, or its mark. -/
def Token.pieces : Token → List Piece
  | .line t => chars t
  | .mark m => [.mark m []]

/-- The pieces of a stream. -/
def piecesOf (ts : List Token) : List Piece :=
  ts.flatMap Token.pieces

@[simp] theorem piecesOf_nil : piecesOf [] = [] := rfl

@[simp] theorem piecesOf_line (t : Text) (ts : List Token) :
    piecesOf (.line t :: ts) = chars t ++ piecesOf ts := rfl

@[simp] theorem piecesOf_mark (m : Mark) (ts : List Token) :
    piecesOf (.mark m :: ts) = .mark m [] :: piecesOf ts := rfl

@[simp] theorem piecesOf_append (ts us : List Token) :
    piecesOf (ts ++ us) = piecesOf ts ++ piecesOf us :=
  List.flatMap_append

/-- Only the braces among characters matter. -/
theorem nests_chars_braces {t : Text} {opened : List (Option Mark)} {ps : List Piece} :
    Nests opened (chars (braces t) ++ ps) ↔ Nests opened (chars t ++ ps) := by
  induction t generalizing opened with
  | nil => rfl
  | cons c t ih =>
    rcases brace_cases c with rfl | rfl | ⟨left, right⟩
    · exact ih
    · exact and_congr_right fun _ => ih
    · rw [braces_cons_other left right, chars_cons, List.cons_append, nests_other left right, ih]

/-- Lines nest as the text that they are the lines of. -/
theorem nests_tokens_append {t : Text} (plain : '\\' ∉ t) {opened : List (Option Mark)}
    {ps : List Piece} :
    Nests opened (piecesOf (tokens t) ++ ps) ↔ Nests opened (chars t ++ ps) := by
  have lines (ls : List Text) : piecesOf (ls.map Token.line) = chars ls.flatten := by
    induction ls with
    | nil => rfl
    | cons l ls ih => rw [List.map_cons, piecesOf_line, ih, List.flatten_cons, chars_append]
  have same : braces (Source.trimmedLines t).flatten = braces t := by
    rw [← braces_solid, Source.solid_flatten_trimmedLines, braces_solid]
  rw [tokens_of_not_mem plain, lines, ← nests_chars_braces, same, nests_chars_braces]

/-- The stack without the marks that are not read back. -/
def readableStack (opened : List (Option Mark)) : List (Option Mark) :=
  opened.filter fun o => o.all fun m => m.index < UInt64.size

/-- Characters nest over the marks that are read back as they do over all. -/
theorem nests_readableStack_chars {t : Text} {opened : List (Option Mark)} {ps ps' : List Piece}
    (nests : Nests opened (chars t ++ ps))
    (rest : ∀ opened, Nests opened ps → Nests (readableStack opened) ps') :
    Nests (readableStack opened) (chars t ++ ps') := by
  induction t generalizing opened with
  | nil => exact rest opened nests
  | cons c t ih =>
    rcases brace_cases c with rfl | rfl | ⟨left, right⟩
    · exact nests_open.mpr (ih (nests_open.mp nests))
    · obtain ⟨no_mark, inner⟩ := nests_close.mp nests
      have closed := ih inner
      cases opened with
      | nil => exact nests_close.mpr ⟨by simp [readableStack], closed⟩
      | cons o outer =>
        cases o with
        | none => exact nests_close.mpr ⟨by simp [readableStack], closed⟩
        | some m => exact absurd rfl (no_mark m)
    · exact (nests_other left right).mpr (ih ((nests_other left right).mp nests))

/-- **Tokens nest as the pieces do.** -/
theorem nests_tokensBehind {before : Option Char} {pending : Text} {ps : List Piece}
    {opened : List (Option Mark)} (tidy : Tidy before ps) (plain : '\\' ∉ pending)
    (nests : Nests opened (chars pending ++ ps)) :
    Nests (readableStack opened) (piecesOf (tokensBehind pending ps)) := by
  induction ps generalizing before pending opened with
  | nil =>
    rw [tokensBehind, ← List.append_nil (piecesOf _), nests_tokens_append plain]
    refine nests_readableStack_chars nests fun opened none_open o mem => ?_
    exact none_open o (List.mem_filter.mp mem).1
  | cons p ps ih =>
    cases p with
    | char c =>
      refine ih tidy.2 (not_mem_concat plain tidy.1) ?_
      simpa using nests
    | mark m stretch =>
      rw [tokensBehind, piecesOf_append, nests_tokens_append plain]
      refine nests_readableStack_chars nests fun opened nests => ?_
      have rest {opened : List (Option Mark)} (nests : Nests opened ps) :
          Nests (readableStack opened) (piecesOf (tokensBehind [] ps)) :=
        ih tidy.2 List.not_mem_nil nests
      cases opening : m.isOpening with
      | true =>
        have inner := rest ((nests_opening opening).mp nests)
        by_cases fits : m.index < UInt64.size
        · rw [Mark.token, if_pos fits, piecesOf_mark, nests_opening opening]
          simpa [readableStack, fits] using inner
        · rw [Mark.token, if_neg fits, piecesOf_line, nests_chars m.braces_render]
          simpa [readableStack, fits] using inner
      | false =>
        obtain ⟨inner, outer, rfl, rfl, behind⟩ := (nests_closing opening).mp nests
        by_cases fits : inner.index < UInt64.size
        · rw [Mark.token, if_pos (by exact fits), piecesOf_mark, nests_closing opening]
          exact ⟨inner, readableStack outer, by simp [readableStack, fits], rfl, rest behind⟩
        · rw [Mark.token, if_neg (by exact fits), piecesOf_line, nests_chars (Mark.braces_render _)]
          simpa [readableStack, fits] using rest behind

/-- The tokens of a segmented header nest. -/
theorem Passes.nests_tokens {t : Text} {ps qs : List Piece} (h : Passes t ps qs) (plain : '\\' ∉ t)
    {s : Segmented} (written : Written s qs) : Nests [] (piecesOf s.tokens) := by
  rw [h.tokens_eq plain written]
  exact nests_tokensBehind (h.tidy plain) List.not_mem_nil h.nests

/-! ## 3. The depth of own lines -/

/-- The open braces and marks belong to own lines of open scopes: those of each scope leave its
braces open, and its mark lies below them.  Outside of all scopes only braces are open. -/
def Depths : List (Option Mark) → List (List Text) → Prop
  | opened, [] => ∀ o ∈ opened, o = none
  | opened, own :: outer => ∃ d m below, opened = List.replicate d none ++ some m :: below ∧
      depthAfter? 0 own.flatten = some d ∧ Depths below outer

/-- Inside a scope, characters lead from depth to depth. -/
theorem exists_depth_of_nests {t : Text} {d : Nat} {m : Mark} {below : List (Option Mark)}
    {ps : List Piece} (nests : Nests (List.replicate d none ++ some m :: below) (chars t ++ ps)) :
    ∃ e, depthAfter? d t = some e ∧ Nests (List.replicate e none ++ some m :: below) ps := by
  induction t generalizing d with
  | nil => exact ⟨d, rfl, nests⟩
  | cons c t ih =>
    rcases brace_cases c with rfl | rfl | ⟨left, right⟩
    · exact ih (d := d + 1) (nests_open.mp nests)
    · obtain ⟨no_mark, inner⟩ := nests_close.mp nests
      cases d with
      | zero => exact absurd rfl (no_mark m)
      | succ d => exact ih inner
    · rw [depthAfter_other left right]
      exact ih ((nests_other left right).mp nests)

/-- Outside of all scopes, they leave braces open. -/
theorem exists_nests_outside {t : Text} {opened : List (Option Mark)} {ps : List Piece}
    (outside : ∀ o ∈ opened, o = none) (nests : Nests opened (chars t ++ ps)) :
    ∃ opened, (∀ o ∈ opened, o = none) ∧ Nests opened ps := by
  induction t generalizing opened with
  | nil => exact ⟨opened, outside, nests⟩
  | cons c t ih =>
    rcases brace_cases c with rfl | rfl | ⟨left, right⟩
    · have one_more : ∀ o ∈ none :: opened, o = none := by simpa using outside
      exact ih one_more (nests_open.mp nests)
    · exact ih (fun o mem => outside o (List.mem_of_mem_tail mem)) (nests_close.mp nests).2
    · exact ih outside ((nests_other left right).mp nests)

/-- **One token keeps the depths.** -/
theorem Depths.step {opened : List (Option Mark)} {own : List (List Text)} {token : Token}
    {ps : List Piece} (depths : Depths opened own) (nests : Nests opened (token.pieces ++ ps)) :
    ∃ opened', Depths opened' (ownLinesStep own token) ∧ Nests opened' ps := by
  cases token with
  | line t =>
    cases own with
    | nil => exact exists_nests_outside depths nests
    | cons inner outer =>
      obtain ⟨d, m, below, rfl, depth, outside⟩ := depths
      obtain ⟨e, behind, nests⟩ := exists_depth_of_nests nests
      refine ⟨_, ⟨e, m, below, rfl, ?_, outside⟩, nests⟩
      rw [List.flatten_append, depthAfter_append, depth, Option.bind_some, List.flatten_singleton,
        behind]
  | mark m =>
    cases opening : m.isOpening with
    | true =>
      refine ⟨some m :: opened, ?_, (nests_opening opening).mp nests⟩
      rw [ownLinesStep, if_pos opening]
      exact ⟨0, m, opened, rfl, rfl, depths⟩
    | false =>
      obtain ⟨inner, outer, rfl, -, nests⟩ := (nests_closing opening).mp nests
      refine ⟨outer, ?_, nests⟩
      rw [ownLinesStep, if_neg (by simp [opening])]
      cases own with
      | nil => exact absurd (depths _ List.mem_cons_self) (by simp)
      | cons own outside =>
        obtain ⟨d, m', below, stack, -, below_depths⟩ := depths
        cases d with
        | zero =>
          obtain ⟨-, rfl⟩ := List.cons.inj stack
          exact below_depths
        | succ d => exact absurd (List.cons.inj stack).1 (by simp)

/-- **At every place of a stream that nests, the own lines of each open scope have a depth.** -/
theorem depths_of_nests {ts us : List Token} (nests : Nests [] (piecesOf (ts ++ us))) :
    ∃ opened, Depths opened (ownLines ts) ∧ Nests opened (piecesOf us) := by
  induction ts using List.reverseRecOn generalizing us with
  | nil => exact ⟨[], by simp [ownLines, Depths], nests⟩
  | append_singleton ts token ih =>
    rw [List.append_assoc] at nests
    obtain ⟨opened, depths, nests⟩ := ih nests
    rw [ownLines_concat]
    exact depths.step nests

end AccessorCatalog.Outline

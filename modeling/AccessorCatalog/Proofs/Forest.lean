/-
# Streams of marks that nest

A stream of tokens nests well when its marks are the two sides of the scopes of a forest, with the
other lines between them.  `Forest` is that structure, `Forest.tokens` writes it out, and
`unpairedMark_eq_none_iff` says that the check of the marks accepts exactly the streams that are
written so.  What is proved of forests by recursion therefore holds of every stream that passes.
-/
import AccessorCatalog.Outline.Balance

namespace AccessorCatalog.Outline

/-! ## 1. Forests -/

/-- Scopes with their numbers, side by side and inside each other, with lines between them. -/
inductive Forest where
  | empty
  | line (t : Text) (rest : Forest)
  | scope (kind : ScopeKind) (index : Nat) (inner rest : Forest)

namespace Forest

/-- The stream of a forest: every scope stands between its two marks. -/
def tokens : Forest → List Token
  | empty => []
  | line t rest => .line t :: rest.tokens
  | scope kind index inner rest =>
    .mark ⟨⟨kind, .opening⟩, index⟩ ::
      (inner.tokens ++ .mark ⟨⟨kind, .closing⟩, index⟩ :: rest.tokens)

end Forest

/-- The marks of a stream, in order. -/
def marksOf (ts : List Token) : List Mark :=
  ts.filterMap fun
    | .mark m => some m
    | .line _ => none

@[simp] theorem marksOf_nil : marksOf [] = [] := rfl

@[simp] theorem marksOf_line (t : Text) (ts : List Token) :
    marksOf (.line t :: ts) = marksOf ts := rfl

@[simp] theorem marksOf_mark (m : Mark) (ts : List Token) :
    marksOf (.mark m :: ts) = m :: marksOf ts := rfl

@[simp] theorem marksOf_append (ts us : List Token) :
    marksOf (ts ++ us) = marksOf ts ++ marksOf us :=
  List.filterMap_append

/-! ## 2. Sides of marks -/

/-- A mark that opens is the opening side of its kind. -/
theorem Mark.eq_of_isOpening {m : Mark} (h : m.isOpening = true) :
    m = ⟨⟨m.kind.scope, .opening⟩, m.index⟩ := by
  obtain ⟨⟨scope, side⟩, index⟩ := m
  cases side with
  | opening => rfl
  | closing => simp [Mark.isOpening, MarkKind.isOpening] at h

@[simp] theorem Mark.isOpening_opening (kind : ScopeKind) (index : Nat) :
    Mark.isOpening ⟨⟨kind, .opening⟩, index⟩ = true := rfl

@[simp] theorem Mark.isOpening_closing (kind : ScopeKind) (index : Nat) :
    Mark.isOpening ⟨⟨kind, .closing⟩, index⟩ = false := rfl

@[simp] theorem Mark.isOpening_partner (m : Mark) : m.partner.isOpening = false := rfl

@[simp] theorem Mark.partner_opening (kind : ScopeKind) (index : Nat) :
    Mark.partner ⟨⟨kind, .opening⟩, index⟩ = ⟨⟨kind, .closing⟩, index⟩ := rfl

@[simp] theorem Mark.scope_partner (m : Mark) : m.partner.kind.scope = m.kind.scope := rfl

@[simp] theorem Mark.index_partner (m : Mark) : m.partner.index = m.index := rfl

/-! ## 3. The check -/

theorem unpairedMark_line (opened : List Mark) (t : Text) (ts : List Token) :
    unpairedMark? opened (.line t :: ts) = unpairedMark? opened ts := rfl

theorem unpairedMark_opening {m : Mark} (h : m.isOpening = true) (opened : List Mark)
    (ts : List Token) :
    unpairedMark? opened (.mark m :: ts) = unpairedMark? (m :: opened) ts := by
  simp [unpairedMark?, h]

/-- A closing mark passes exactly as the partner of the innermost open one. -/
theorem unpairedMark_closing {m : Mark} (h : m.isOpening = false) {opened : List Mark}
    {ts : List Token} :
    unpairedMark? opened (.mark m :: ts) = none ↔
      ∃ inner outer, opened = inner :: outer ∧ inner.partner = m ∧
        unpairedMark? outer ts = none := by
  cases opened with
  | nil => simp [unpairedMark?, h]
  | cons inner outer =>
    have step : unpairedMark? (inner :: outer) (.mark m :: ts) =
        if inner.partner = m then unpairedMark? outer ts else some m := by
      simp [unpairedMark?, h]
    rw [step]
    constructor
    · intro pairs
      by_cases fits : inner.partner = m
      · exact ⟨inner, outer, rfl, fits, by rwa [if_pos fits] at pairs⟩
      · simp [fits] at pairs
    · rintro ⟨_, _, h, fits, pairs⟩
      cases h
      rw [if_pos fits, pairs]

theorem unpairedMark_partner (m : Mark) (opened : List Mark) (ts : List Token) :
    unpairedMark? (m :: opened) (.mark m.partner :: ts) = unpairedMark? opened ts := by
  simp [unpairedMark?]

/-- Reading a whole forest leaves the open marks as they are. -/
theorem unpairedMark_forest (f : Forest) (opened : List Mark) (ts : List Token) :
    unpairedMark? opened (f.tokens ++ ts) = unpairedMark? opened ts := by
  induction f generalizing opened ts with
  | empty => rfl
  | line t rest ih => exact ih opened ts
  | scope kind index inner rest inner_ih rest_ih =>
    rw [Forest.tokens, List.cons_append, List.append_assoc, unpairedMark_opening rfl, inner_ih,
      List.cons_append, ← Mark.partner_opening, unpairedMark_partner, rest_ih]

/-- A stream that closes the given marks, innermost first: a forest before each of their partners,
and one behind the last. -/
def Completes : List Mark → List Token → Prop
  | [], ts => ∃ f : Forest, ts = f.tokens
  | m :: opened, ts =>
    ∃ (f : Forest) (rest : List Token), ts = f.tokens ++ .mark m.partner :: rest ∧
      Completes opened rest

theorem Completes.line {opened : List Mark} {ts : List Token} (h : Completes opened ts) (t : Text) :
    Completes opened (.line t :: ts) := by
  cases opened with
  | nil =>
    obtain ⟨f, rfl⟩ := h
    exact ⟨.line t f, rfl⟩
  | cons m opened =>
    obtain ⟨f, rest, rfl, outer⟩ := h
    exact ⟨.line t f, rest, rfl, outer⟩

/-- A scope in front of what completes the open marks. -/
theorem Completes.scope {m : Mark} (opening : m.isOpening = true) {opened : List Mark}
    {ts : List Token} (h : Completes (m :: opened) ts) : Completes opened (.mark m :: ts) := by
  obtain ⟨inner, rest, rfl, outer⟩ := h
  rw [Mark.eq_of_isOpening opening]
  cases opened with
  | nil =>
    obtain ⟨f, rfl⟩ := outer
    exact ⟨.scope m.kind.scope m.index inner f, rfl⟩
  | cons m' opened =>
    obtain ⟨f, rest, rfl, outer⟩ := outer
    exact ⟨.scope m.kind.scope m.index inner f, rest, by simp [Forest.tokens], outer⟩

theorem completes_of_unpairedMark {opened : List Mark} {ts : List Token}
    (h : unpairedMark? opened ts = none) : Completes opened ts := by
  induction ts generalizing opened with
  | nil =>
    cases opened with
    | nil => exact ⟨.empty, rfl⟩
    | cons m opened => simp [unpairedMark?] at h
  | cons token ts ih =>
    cases token with
    | line t => exact (ih h).line t
    | mark m =>
      by_cases opening : m.isOpening = true
      · rw [unpairedMark_opening opening] at h
        exact (ih h).scope opening
      · rw [unpairedMark_closing (by simpa using opening)] at h
        obtain ⟨inner, outer, rfl, rfl, rest_pairs⟩ := h
        exact ⟨.empty, ts, rfl, ih rest_pairs⟩

/-- **The check accepts exactly the streams of forests.** -/
theorem unpairedMark_eq_none_iff {ts : List Token} :
    unpairedMark? [] ts = none ↔ ∃ f : Forest, ts = f.tokens := by
  constructor
  · exact completes_of_unpairedMark
  · rintro ⟨f, rfl⟩
    have := unpairedMark_forest f [] []
    rwa [List.append_nil] at this

theorem checkMarks_eq_ok_iff {header : Text} {ts : List Token} :
    checkMarks header ts = .ok () ↔ ∃ f : Forest, ts = f.tokens := by
  rw [← unpairedMark_eq_none_iff]
  unfold checkMarks
  cases unpairedMark? [] ts <;> simp

end AccessorCatalog.Outline

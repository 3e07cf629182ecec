/-
# Words of marks

The check of the marks and the walk over a segmented header are two machines, each with a stack of
its own.  This file relates them on every stream of tokens, however its marks are forged, repeated
or crossed, and says by a grammar which streams both accept and which mark both of them report.

* `MarkWord`: the words of marks that pair up;
* `LeavesOpen`: the marks that such words leave open when some opening marks stand between them;
* `unpairedMark_eq_some_iff`: the mark that the check reports is `Unpaired`, and the other way
  round;
* `map_classes`: the walk fails exactly as the check does, whatever it makes of the tokens;
* `classes_eq_error_iff`: all of it for the walk, the check and the reading of a header.

No fragment is asked for: a mark without one opens a scope without a name.
-/
import AccessorCatalog.Proofs.Fallible
import AccessorCatalog.Proofs.Walk

namespace AccessorCatalog.Outline

/-! ## 1. The grammar -/

/-- The words of marks in which every mark has its partner: nothing, or the two marks of a scope
around one word and in front of another. -/
inductive MarkWord : List Mark → Prop
  | empty : MarkWord []
  | pair (kind : ScopeKind) (index : Nat) {inner rest : List Mark} :
      MarkWord inner → MarkWord rest →
      MarkWord (⟨⟨kind, .opening⟩, index⟩ :: (inner ++ ⟨⟨kind, .closing⟩, index⟩ :: rest))

/-- Marks that leave the given ones open, innermost first: they stand between words, in order. -/
inductive LeavesOpen : List Mark → List Mark → Prop
  | word {w : List Mark} : MarkWord w → LeavesOpen w []
  | opening {front opened w : List Mark} {m : Mark} :
      LeavesOpen front opened → m.isOpening = true → MarkWord w →
      LeavesOpen (front ++ m :: w) (m :: opened)

/-- The mark of a stream that has no partner: the first closing mark that is not the partner of the
innermost open one; or, if there is none, the innermost mark that stays open. -/
def Unpaired (ms : List Mark) (m : Mark) : Prop :=
  (∃ front behind opened, ms = front ++ m :: behind ∧ LeavesOpen front opened ∧
    m.isOpening = false ∧ ∀ inner ∈ opened.head?, inner.partner ≠ m) ∨
  ∃ outer, LeavesOpen ms (m :: outer)

theorem MarkWord.append {v w : List Mark} (first : MarkWord v) (second : MarkWord w) :
    MarkWord (v ++ w) := by
  induction first with
  | empty => exact second
  | pair kind index inner rest _ ih =>
    rw [List.cons_append, List.append_assoc]
    exact .pair kind index inner ih

/-- An opening mark and its partner around a word. -/
theorem MarkWord.scope {m : Mark} (opening : m.isOpening = true) {w : List Mark}
    (inner : MarkWord w) :
    MarkWord (m :: (w ++ [m.partner])) := by
  rw [Mark.eq_of_isOpening opening]
  exact .pair m.kind.scope m.index inner .empty

namespace LeavesOpen

variable {front opened : List Mark}

theorem append {w : List Mark} (h : LeavesOpen front opened) (behind : MarkWord w) :
    LeavesOpen (front ++ w) opened := by
  cases h with
  | word before => exact .word (before.append behind)
  | opening before opening inner =>
    rw [List.append_assoc, List.cons_append]
    exact .opening before opening (inner.append behind)

theorem concat_opening {m : Mark} (h : LeavesOpen front opened) (opening : m.isOpening = true) :
    LeavesOpen (front ++ [m]) (m :: opened) :=
  .opening h opening .empty

/-- The partner of the innermost open mark closes it. -/
theorem concat_partner {inner : Mark} {outer : List Mark} (h : LeavesOpen front (inner :: outer)) :
    LeavesOpen (front ++ [inner.partner]) outer := by
  cases h with
  | opening before opening word =>
    rw [List.append_assoc, List.cons_append]
    exact before.append (.scope opening word)

end LeavesOpen

/-! ## 2. The check -/

/-- The check looks at the marks of a stream only. -/
theorem unpairedMark_marksOf (opened : List Mark) (ts : List Token) :
    unpairedMark? opened ts = unpairedMark? opened ((marksOf ts).map .mark) := by
  induction ts generalizing opened with
  | nil => rfl
  | cons token ts ih =>
    cases token with
    | line t => exact ih opened
    | mark m =>
      rw [marksOf_mark, List.map_cons]
      simp only [unpairedMark?, ih]

/-- A word is the marks of a forest without lines. -/
theorem MarkWord.exists_forest {w : List Mark} (h : MarkWord w) :
    ∃ f : Forest, w.map .mark = f.tokens := by
  induction h with
  | empty => exact ⟨.empty, rfl⟩
  | pair kind index _ _ inner_ih rest_ih =>
    obtain ⟨inner, written⟩ := inner_ih
    obtain ⟨rest, rest_written⟩ := rest_ih
    refine ⟨.scope kind index inner rest, ?_⟩
    rw [Forest.tokens, List.map_cons, List.map_append, List.map_cons, written, rest_written]

theorem markWord_forest (f : Forest) : MarkWord (marksOf f.tokens) := by
  induction f with
  | empty => exact .empty
  | line t rest ih => exact ih
  | scope kind index inner rest inner_ih rest_ih =>
    rw [Forest.tokens, marksOf_mark, marksOf_append, marksOf_mark]
    exact .pair kind index inner_ih rest_ih

/-- Reading a word leaves the open marks as they are. -/
theorem MarkWord.unpairedMark {w : List Mark} (h : MarkWord w) (opened : List Mark)
    (ts : List Token) : unpairedMark? opened (w.map .mark ++ ts) = unpairedMark? opened ts := by
  obtain ⟨f, written⟩ := h.exists_forest
  rw [written, unpairedMark_forest]

/-- Reading marks that leave some open puts these on the stack. -/
theorem LeavesOpen.unpairedMark {front opened : List Mark} (h : LeavesOpen front opened)
    (ts : List Token) : unpairedMark? [] (front.map .mark ++ ts) = unpairedMark? opened ts := by
  induction h generalizing ts with
  | word w => exact w.unpairedMark [] ts
  | opening _ opening w ih =>
    rw [List.map_append, List.append_assoc, ih, List.map_cons, List.cons_append,
      unpairedMark_opening opening, w.unpairedMark]

/-- **The check accepts exactly the streams whose marks are a word.** -/
theorem unpairedMark_eq_none_iff_markWord {ts : List Token} :
    unpairedMark? [] ts = none ↔ MarkWord (marksOf ts) := by
  constructor
  · intro accepted
    obtain ⟨f, rfl⟩ := unpairedMark_eq_none_iff.mp accepted
    exact markWord_forest f
  · intro word
    have read := word.unpairedMark [] []
    rwa [List.append_nil, ← unpairedMark_marksOf] at read

/-- A closing mark that does not fit is what the check reports. -/
theorem unpairedMark_mismatch {opened : List Mark} {m : Mark} (closing : m.isOpening = false)
    (differs : ∀ inner ∈ opened.head?, inner.partner ≠ m) (ts : List Token) :
    unpairedMark? opened (.mark m :: ts) = some m := by
  cases opened with
  | nil => simp [unpairedMark?, closing]
  | cons inner outer => simp [unpairedMark?, closing, differs inner rfl]

/-- What the check reports with the marks of a front open has no partner in the whole. -/
theorem unpaired_of_unpairedMark {front opened ms : List Mark} {m : Mark}
    (before : LeavesOpen front opened) (h : unpairedMark? opened (ms.map .mark) = some m) :
    Unpaired (front ++ ms) m := by
  induction ms generalizing front opened with
  | nil =>
    obtain ⟨outer, rfl⟩ : ∃ outer, opened = m :: outer := List.head?_eq_some_iff.mp h
    rw [List.append_nil]
    exact .inr ⟨outer, before⟩
  | cons a ms ih =>
    have next : front ++ a :: ms = (front ++ [a]) ++ ms := by simp
    rw [List.map_cons] at h
    by_cases opening : a.isOpening = true
    · rw [unpairedMark_opening opening] at h
      rw [next]
      exact ih (before.concat_opening opening) h
    · have closing : a.isOpening = false := by simpa using opening
      by_cases fits : ∃ inner ∈ opened.head?, inner.partner = a
      · obtain ⟨inner, innermost, rfl⟩ := fits
        obtain ⟨outer, rfl⟩ := List.head?_eq_some_iff.mp innermost
        rw [unpairedMark_partner] at h
        rw [next]
        exact ih before.concat_partner h
      · have differs : ∀ inner ∈ opened.head?, inner.partner ≠ a := by
          intro inner innermost same
          exact fits ⟨inner, innermost, same⟩
        rw [unpairedMark_mismatch closing differs] at h
        obtain rfl := Option.some.inj h
        exact .inl ⟨front, ms, opened, rfl, before, closing, differs⟩

/-- **The mark that the check reports** is the one without a partner. -/
theorem unpairedMark_eq_some_iff {ts : List Token} {m : Mark} :
    unpairedMark? [] ts = some m ↔ Unpaired (marksOf ts) m := by
  rw [unpairedMark_marksOf]
  constructor
  · intro reported
    exact unpaired_of_unpairedMark (.word .empty) reported
  · rintro (⟨front, behind, opened, split, before, closing, differs⟩ | ⟨outer, before⟩)
    · rw [split, List.map_append, before.unpairedMark, List.map_cons]
      exact unpairedMark_mismatch closing differs _
    · have read := before.unpairedMark []
      rw [List.append_nil] at read
      rw [read]
      rfl

/-- Two scopes that cross: the first close is not the partner of the inner one. -/
example : unpairedMark? [] [
    .mark ⟨⟨.namespaceScope, .opening⟩, 0⟩, .mark ⟨⟨.classScope, .opening⟩, 0⟩,
    .mark ⟨⟨.namespaceScope, .closing⟩, 0⟩, .mark ⟨⟨.classScope, .closing⟩, 0⟩] =
      some ⟨⟨.namespaceScope, .closing⟩, 0⟩ := by
  decide

/-! ## 3. The walk -/

namespace WalkState

/-- The marks of the open scopes, innermost first. -/
def opened (w : WalkState) : List Mark :=
  w.scopes.map Scope.mark

variable {s : Segmented} {header : Text}

theorem step_opening {m : Mark} (opening : m.isOpening = true) (w : WalkState) :
    w.step s header (.mark m) = .ok { w with scopes := Scope.ofMark s m :: w.scopes } :=
  if_pos opening

theorem step_partner (inner : Scope) (outer : List Scope) (complete : List ClassOutline) :
    WalkState.step s header ⟨inner :: outer, complete⟩ (.mark inner.mark.partner) =
      .ok ⟨outer, complete ++ (inner.classOutline? outer header).toList⟩ := by
  simp [step]

theorem step_mismatch {m : Mark} {w : WalkState} (closing : m.isOpening = false)
    (differs : ∀ inner ∈ w.opened.head?, inner.partner ≠ m) :
    w.step s header (.mark m) = .error (.unbalancedMark header m) := by
  obtain ⟨scopes, complete⟩ := w
  cases scopes with
  | nil => simp [step, closing]
  | cons inner outer => simp [step, closing, differs inner.mark rfl]

/-- **One step** does to the open scopes what the check does to the open marks, or both report the
mark that is read. -/
theorem step_unpairedMark (header : Text) (s : Segmented) (w : WalkState) (token : Token) :
    (∃ w', w.step s header token = .ok w' ∧
      ∀ ts, unpairedMark? w.opened (token :: ts) = unpairedMark? w'.opened ts) ∨
    ∃ m, w.step s header token = .error (.unbalancedMark header m) ∧
      ∀ ts, unpairedMark? w.opened (token :: ts) = some m := by
  obtain ⟨scopes, complete⟩ := w
  cases token with
  | line t =>
    left
    cases scopes with
    | nil => exact ⟨_, rfl, unpairedMark_line _ t⟩
    | cons inner outer => exact ⟨_, rfl, unpairedMark_line _ t⟩
  | mark m =>
    by_cases opening : m.isOpening = true
    · refine .inl ⟨_, step_opening opening _, fun ts => ?_⟩
      rw [unpairedMark_opening opening, opened, opened, List.map_cons, Scope.mark_ofMark]
    · have closing : m.isOpening = false := by simpa using opening
      by_cases differs : ∀ inner ∈ (opened ⟨scopes, complete⟩).head?, inner.partner ≠ m
      · exact .inr ⟨m, step_mismatch closing differs, unpairedMark_mismatch closing differs⟩
      · -- the mark is the partner of the innermost open one, so there is an innermost scope
        cases scopes with
        | nil => simp [opened] at differs
        | cons inner outer =>
          obtain rfl : inner.mark.partner = m := by simpa [opened] using differs
          exact .inl ⟨_, step_partner inner outer complete, unpairedMark_partner inner.mark _⟩

/-- **A whole run** leaves the scopes open whose marks the check leaves open, or both report one
mark. -/
theorem run_unpairedMark (header : Text) (s : Segmented) (w : WalkState) (ts : List Token) :
    (∃ w', ts.foldlM (step s header) w = .ok w' ∧ unpairedMark? w.opened ts = w'.opened.head?) ∨
    ∃ m, ts.foldlM (step s header) w = .error (.unbalancedMark header m) ∧
      unpairedMark? w.opened ts = some m := by
  induction ts generalizing w with
  | nil => exact .inl ⟨w, rfl, rfl⟩
  | cons token ts ih =>
    rw [List.foldlM_cons]
    rcases step_unpairedMark header s w token with
      ⟨next, first, same⟩ | ⟨m, first, reported⟩
    · rw [first, same]
      exact ih next
    · rw [first, reported]
      exact .inr ⟨m, rfl, rfl⟩

end WalkState

/-- **The walk is the check of the marks** as far as its failures go. -/
theorem map_classes (header : Text) (s : Segmented) :
    (classes header s).map (fun _ => ()) = checkMarks header s.tokens := by
  have stack : WalkState.opened ⟨[], []⟩ = [] := rfl
  unfold classes checkMarks
  rcases WalkState.run_unpairedMark header s ⟨[], []⟩ s.tokens with
    ⟨⟨scopes, complete⟩, run, same⟩ | ⟨m, run, reported⟩
  · rw [stack] at same
    rw [run, same]
    cases scopes <;> rfl
  · rw [stack] at reported
    rw [run, reported]
    rfl

/-! ## 4. The reading of a header -/

theorem checkMarks_eq_error_iff {header : Text} {ts : List Token} {e : ParseError} :
    checkMarks header ts = .error e ↔
      ∃ m, e = .unbalancedMark header m ∧ Unpaired (marksOf ts) m := by
  simp only [← unpairedMark_eq_some_iff]
  unfold checkMarks
  cases unpairedMark? [] ts with
  | none => simp
  | some m =>
    constructor
    · intro h
      cases h
      exact ⟨m, rfl, rfl⟩
    · rintro ⟨_, rfl, h⟩
      rw [Option.some.inj h]

theorem checkMarks_eq_ok_iff_markWord {header : Text} {ts : List Token} :
    checkMarks header ts = .ok () ↔ MarkWord (marksOf ts) := by
  rw [checkMarks_eq_ok_iff, ← unpairedMark_eq_none_iff, unpairedMark_eq_none_iff_markWord]

/-- What the segmentation gives has passed the check. -/
theorem checkMarks_of_segment {limit : Nat} {header t : Text} {s : Segmented}
    (found : segment limit header t = .ok s) : checkMarks header s.tokens = .ok () := by
  unfold segment at found
  simp only [bind_eq_ok_iff] at found
  obtain ⟨namespaces, -, classes, -, -, -, ⟨⟩, marks, segmented⟩ := found
  cases segmented
  exact marks

/-- A header that is segmented is also walked to its end. -/
theorem parseHeader_eq_error_iff {limit : Nat} {header t : Text} {e : ParseError} :
    parseHeader limit header t = .error e ↔ segmentHeader limit header t = .error e := by
  unfold parseHeader
  rw [bind_eq_error_iff]
  constructor
  · rintro (segmentation | ⟨s, found, walk⟩)
    · exact segmentation
    · have agree := map_classes header s
      rw [walk, checkMarks_of_segment found] at agree
      cases agree
  · exact .inl

/-- **The walk and the check of the marks agree on every stream.**

* They fail with the same error, or neither does.
* They succeed exactly on the streams whose marks are a word of the grammar.
* The error names the mark without a partner.
* So a header is read exactly if it is segmented. -/
theorem classes_eq_error_iff (header : Text) (s : Segmented) :
    (∀ e, classes header s = .error e ↔ checkMarks header s.tokens = .error e) ∧
    ((∃ cs, classes header s = .ok cs) ↔ MarkWord (marksOf s.tokens)) ∧
    (checkMarks header s.tokens = .ok () ↔ MarkWord (marksOf s.tokens)) ∧
    (∀ e, checkMarks header s.tokens = .error e ↔
      ∃ m, e = .unbalancedMark header m ∧ Unpaired (marksOf s.tokens) m) ∧
    ∀ limit t e, parseHeader limit header t = .error e ↔
      segmentHeader limit header t = .error e := by
  have agree := map_classes header s
  refine ⟨?_, ?_, checkMarks_eq_ok_iff_markWord, fun e => checkMarks_eq_error_iff,
    fun limit t e => parseHeader_eq_error_iff⟩
  · intro e
    rw [← agree, map_eq_error_iff]
  · rw [← checkMarks_eq_ok_iff_markWord, ← agree, map_eq_ok_iff]
    simp

end AccessorCatalog.Outline

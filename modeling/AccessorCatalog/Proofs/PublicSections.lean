/-
# Only public declarations at body level are listed

The walk over a segmented header reads a class body with a count of open braces that is never
negative and never compared with anything but zero.  This file says that the count is right, and
what follows.

`WalkInvariant` ties the state of the walk to the stream behind it, one token at a time: every open
class has read its own lines, and every class that is complete was read when its closing mark came.
The own lines have a depth (`Proofs/OwnLines`), in each of them an opening brace comes last
(`Proofs/LineEnds`), and what such lines make of a body is known (`Proofs/Bodies`).  Together this
is `parseHeader_publicDeclarations`: a class lists what its own lines declare at body level in its
public sections.  What stands in a function body, an enumeration or an initialiser is not at body
level, and what stands in a class inside is no line of its own.
-/
import AccessorCatalog.Proofs.LineEnds
import AccessorCatalog.Proofs.OwnLines
import AccessorCatalog.Proofs.Walk

namespace AccessorCatalog.Outline

variable {s : Segmented} {header : Text}

/-! ## 1. The walk over a part of a stream -/

/-- The state of the walk behind a stream. -/
def walkOver (s : Segmented) (header : Text) (ts : List Token) : Except ParseError WalkState :=
  ts.foldlM (WalkState.step s header) ⟨[], []⟩

theorem walkOver_concat (ts : List Token) (token : Token) :
    walkOver s header (ts ++ [token]) =
      walkOver s header ts >>= fun w => w.step s header token := by
  unfold walkOver
  rw [List.foldlM_append]
  cases ts.foldlM (WalkState.step s header) ⟨[], []⟩ with
  | error e => rfl
  | ok w =>
    show (w.step s header token >>= pure) = w.step s header token
    exact bind_pure _

/-- What a step of the walk can do: give a line to the innermost scope, open a scope, or close the
innermost one and list it if it is a class. -/
theorem WalkState.step_cases {w w' : WalkState} {token : Token}
    (next : w.step s header token = .ok w') :
    (∃ t, token = .line t ∧ w' = ⟨feedInnermost [t] w.scopes, w.complete⟩) ∨
      (∃ m, token = .mark m ∧ m.isOpening = true ∧
        w' = ⟨Scope.ofMark s m :: w.scopes, w.complete⟩) ∨
      ∃ scope outer, token = .mark scope.mark.partner ∧ w.scopes = scope :: outer ∧
        w' = ⟨outer, w.complete ++ (scope.classOutline? outer header).toList⟩ := by
  obtain ⟨scopes, complete⟩ := w
  cases token with
  | line t =>
    refine .inl ⟨t, rfl, ?_⟩
    cases scopes <;> exact (Except.ok.inj next).symm
  | mark m =>
    cases opening : m.isOpening with
    | true =>
      rw [WalkState.step, if_pos opening] at next
      exact .inr (.inl ⟨m, rfl, opening, (Except.ok.inj next).symm⟩)
    | false =>
      rw [WalkState.step, if_neg (by simp [opening])] at next
      cases scopes with
      | nil => cases next
      | cons scope outer =>
        dsimp only at next
        split at next
        · next pair =>
          subst pair
          exact .inr (.inr ⟨scope, outer, rfl, rfl, (Except.ok.inj next).symm⟩)
        · cases next

/-! ## 2. What the walk keeps -/

/-- A scope has read some lines: the body of a class is what they make of an empty one. -/
def Scope.HasRead (scope : Scope) (lines : List Text) : Prop :=
  ∀ title body, scope.inside? = some (title, body) →
    body = lines.foldl ClassBody.feed (ClassBody.start (scope.mark.kind.scope == .structScope))

/-- A class ends in a stream: behind `before` it is the innermost open scope, with the own lines
`own`, and its closing mark comes next. -/
def EndsIn (s : Segmented) (header : Text) (ts : List Token) (c : ClassOutline)
    (before : List Token) (own : List Text) : Prop :=
  ∃ w scope outer after, walkOver s header before = .ok w ∧ w.scopes = scope :: outer ∧
    scope.classOutline? outer header = some c ∧
      ts = before ++ .mark scope.mark.partner :: after ∧ (ownLines before).head? = some own

/-- What the walk keeps: the open scopes have read their own lines, and the complete classes have
come to their end. -/
structure WalkInvariant (s : Segmented) (header : Text) (ts : List Token) (w : WalkState) :
    Prop where
  scopes : List.Forall₂ Scope.HasRead w.scopes (ownLines ts)
  complete : ∀ c ∈ w.complete, ∃ before own, EndsIn s header ts c before own

theorem EndsIn.concat {ts : List Token} {c : ClassOutline} {before : List Token} {own : List Text}
    (h : EndsIn s header ts c before own) (token : Token) :
    EndsIn s header (ts ++ [token]) c before own := by
  obtain ⟨w, scope, outer, after, reached, scopes, class_of, rfl, head⟩ := h
  exact ⟨w, scope, outer, after ++ [token], reached, scopes, class_of, by simp, head⟩

theorem Scope.HasRead.feed {scope : Scope} {lines : List Text} (h : scope.HasRead lines)
    (t : Text) :
    (scope.feed t).HasRead (lines ++ [t]) := by
  intro title body inside
  cases before : scope.inside? with
  | none => simp [Scope.feed, before] at inside
  | some known =>
    obtain ⟨title', body'⟩ := known
    simp only [Scope.feed, before, Option.map_some, Option.some.injEq, Prod.mk.injEq] at inside
    rw [← inside.2, h title' body' before, List.foldl_append]
    rfl

theorem Scope.hasRead_ofMark (m : Mark) : (Scope.ofMark s m).HasRead [] := by
  intro title body inside
  obtain ⟨⟨kind, side⟩, index⟩ := m
  cases kind with
  | namespaceScope => cases inside
  | classScope | structScope =>
    simp only [Scope.ofMark, Option.some.injEq, Prod.mk.injEq] at inside ⊢
    exact inside.2.symm

/-- **One token keeps the invariant.** -/
theorem WalkInvariant.step {ts : List Token} {w w' : WalkState} {token : Token}
    (h : WalkInvariant s header ts w) (reached : walkOver s header ts = .ok w)
    (next : w.step s header token = .ok w') : WalkInvariant s header (ts ++ [token]) w' := by
  obtain ⟨scopes, complete⟩ := h
  have kept : ∀ c ∈ w.complete, ∃ before own, EndsIn s header (ts ++ [token]) c before own :=
    fun c mem => by
      obtain ⟨before, own, ends⟩ := complete c mem
      exact ⟨before, own, ends.concat token⟩
  rcases WalkState.step_cases next with
    ⟨t, rfl, rfl⟩ | ⟨m, rfl, opening, rfl⟩ | ⟨scope, outer, rfl, top, rfl⟩
  · refine ⟨?_, kept⟩
    rw [ownLines_concat]
    generalize w.scopes = open_scopes, ownLines ts = own at scopes
    cases scopes with
    | nil => exact .nil
    | cons read others => exact .cons (read.feed t) others
  · refine ⟨?_, kept⟩
    rw [ownLines_concat, ownLinesStep, if_pos opening]
    exact .cons (Scope.hasRead_ofMark m) scopes
  · rw [top] at scopes
    obtain ⟨own, below, -, others, open_lines⟩ := List.forall₂_cons_left_iff.mp scopes
    refine ⟨?_, fun c mem => ?_⟩
    · rw [ownLines_concat, ownLinesStep, if_neg (by simp), open_lines]
      exact others
    · rcases List.mem_append.mp mem with mem | mem
      · exact kept c mem
      · have class_of : scope.classOutline? outer header = some c := by simpa using mem
        exact ⟨ts, own, w, scope, outer, [], reached, top, class_of, rfl, by rw [open_lines]; rfl⟩

/-- **The walk keeps the invariant.** -/
theorem walkInvariant {ts : List Token} {w : WalkState} (reached : walkOver s header ts = .ok w) :
    WalkInvariant s header ts w := by
  induction ts using List.reverseRecOn generalizing w with
  | nil =>
    cases reached
    exact ⟨.nil, by simp⟩
  | append_singleton ts token ih =>
    rw [walkOver_concat] at reached
    obtain ⟨before, reached_before, next⟩ := bind_eq_ok_iff.mp reached
    exact (ih reached_before).step reached_before next

/-! ## 3. Classes of a header -/

/-- The part of a header that lies between its acceptance and its classes. -/
theorem exists_walk {limit : Nat} {t : Text} {cs : List ClassOutline}
    (accepted : parseHeader limit header t = .ok cs) :
    ∃ s w, segmentHeader limit header t = .ok s ∧ walkOver s header s.tokens = .ok w ∧
      w.complete = cs := by
  obtain ⟨s, segmented, read⟩ := bind_eq_ok_iff.mp accepted
  obtain ⟨w, walked, closed⟩ := bind_eq_ok_iff.mp read
  refine ⟨s, w, segmented, walked, ?_⟩
  split at closed
  · cases closed
  · exact Except.ok.inj closed

/-- The own lines of an open scope of a header have a depth, and in each of them an opening brace
comes last.  So it is with the next line, if that comes to the scope. -/
theorem exists_depth_of_head {limit : Nat} {t : Text} (plain : '\\' ∉ Source.normalize t)
    (segmented : segmentHeader limit header t = .ok s) {before after : List Token}
    (cut : s.tokens = before ++ after) {own : List Text}
    (head : (ownLines before).head? = some own) :
    (∀ line ∈ own, OpensLast line) ∧ ∃ d, depthAfter? 0 own.flatten = some d ∧
      ∀ line behind, after = .line line :: behind → ∃ e, depthAfter? d line = some e := by
  obtain ⟨ps, qs, passes, written⟩ := exists_pieces plain segmented
  have ends := passes.opensEndLines (Source.opensEndLines_convertTypedefs (Source.laid_normalize t))
  rw [← written.text] at ends
  have nests := passes.nests_tokens (Source.not_mem_convertTypedefs plain) written
  rw [cut] at nests
  obtain ⟨opened, depths, nests⟩ := depths_of_nests nests
  obtain ⟨outer, open_lines⟩ := List.head?_eq_some_iff.mp head
  rw [open_lines] at depths
  obtain ⟨d, m, below, rfl, depth, -⟩ := depths
  refine ⟨fun line mem => ?_, d, depth, ?_⟩
  · have of_stream : .line line ∈ s.tokens := by
      rw [cut]
      exact List.mem_append_left _ (mem_of_mem_ownLines (by simp [open_lines]) mem)
    exact opensLast_of_mem_tokens ends of_stream
  · rintro line behind rfl
    obtain ⟨e, next, -⟩ := exists_depth_of_nests nests
    exact ⟨e, next⟩

/-- The body of an open class of a header, from its own lines so far. -/
theorem body_of_walk {limit : Nat} {t : Text} (plain : '\\' ∉ Source.normalize t)
    (segmented : segmentHeader limit header t = .ok s) {before after : List Token}
    (cut : s.tokens = before ++ after) {w : WalkState} (reached : walkOver s header before = .ok w)
    {scope : Scope} {outer : List Scope} (top : w.scopes = scope :: outer) {title : ClassTitle}
    {body : ClassBody} (inside : scope.inside? = some (title, body)) :
    ∃ own d, (ownLines before).head? = some own ∧ depthAfter? 0 own.flatten = some d ∧
      body = ⟨publicBehind (scope.mark.kind.scope == .structScope) own, d,
        membersOf (publicDeclarations (scope.mark.kind.scope == .structScope) own)⟩ := by
  have read := (walkInvariant reached).scopes
  rw [top] at read
  obtain ⟨own, below, has_read, -, open_lines⟩ := List.forall₂_cons_left_iff.mp read
  have head : (ownLines before).head? = some own := by
    rw [open_lines]
    rfl
  obtain ⟨opens, d, depth, -⟩ := exists_depth_of_head plain segmented cut head
  refine ⟨own, d, head, depth, ?_⟩
  rw [has_read title body inside, ClassBody.foldl_feed _ opens depth]

/-- **A class lists the declarations of its own lines at body level in its public sections**, and
nothing else.  Whenever a line comes to a class, the depth of its body is the number of braces that
are open in the own lines so far, and enough for the closing braces of the line.  Every class that
is listed ends somewhere, and wherever one ends it lists what its own lines declare. -/
theorem parseHeader_publicDeclarations {limit : Nat} {t : Text} {cs : List ClassOutline}
    (plain : '\\' ∉ Source.normalize t) (accepted : parseHeader limit header t = .ok cs) :
    ∃ s, segmentHeader limit header t = .ok s ∧
      (∀ before line after w scope outer title body,
        s.tokens = before ++ .line line :: after → walkOver s header before = .ok w →
        w.scopes = scope :: outer → scope.inside? = some (title, body) →
          ∃ own, (ownLines before).head? = some own ∧ (body.depth : Int) = openBraces own ∧
            line.count '\x7d' ≤ body.depth + line.count '\x7b') ∧
      (∀ c ∈ cs, ∃ before own, EndsIn s header s.tokens c before own) ∧
        ∀ c before own, EndsIn s header s.tokens c before own →
          ⟨c.methods, c.members⟩ = membersOf (publicDeclarations c.isStruct own) := by
  obtain ⟨s, w, segmented, walked, rfl⟩ := exists_walk accepted
  refine ⟨s, segmented, ?_, (walkInvariant walked).complete, ?_⟩
  · intro before line after w scope outer title body cut reached top inside
    obtain ⟨own, d, head, depth, rfl⟩ := body_of_walk plain segmented cut reached top inside
    obtain ⟨-, d', depth', next⟩ := exists_depth_of_head plain segmented cut head
    obtain rfl : d = d' := Option.some.inj (depth.symm.trans depth')
    obtain ⟨e, behind⟩ := next line after rfl
    exact ⟨own, head, (openBraces_of_depthAfter depth).symm, ClassBody.closes_le behind⟩
  · rintro c before own ⟨w', scope, outer, after, reached, top, class_of, cut, head⟩
    unfold Scope.classOutline? at class_of
    split at class_of
    · next title body inside =>
      obtain ⟨own', d, head', -, rfl⟩ := body_of_walk plain segmented cut reached top inside
      obtain rfl : own = own' := Option.some.inj (head.symm.trans head')
      split at class_of
      · cases class_of
      · cases class_of
        rfl
    · cases class_of

/-- A class with a class and an access label in the body of a function. -/
def sectionsHeader : Text :=
  ("class A \x7b\npublic:\nint f() \x7b\nclass B \x7b\nint b;\n\x7d;\n" ++
    "private:\n\x7d\nint a;\n\x7d;").toList

/-- That header with marks in place of the boundaries of its two classes. -/
def sectionsSegmented : Segmented where
  text :=
    "\\class000\n\npublic:\nint f() \x7b\n\\class001\n\nint b;\n\n".toList ++
      "\\endclass001\n\nprivate:\n\x7d\nint a;\n\n\\endclass000\n".toList
  fragments :=
    [(⟨⟨.classScope, .opening⟩, 0⟩, "class A \x7b".toList),
      (⟨⟨.classScope, .closing⟩, 0⟩, "\x7d;".toList),
      (⟨⟨.classScope, .opening⟩, 1⟩, "class B \x7b".toList),
      (⟨⟨.classScope, .closing⟩, 1⟩, "\x7d;".toList)]

/-- The classes of that header, the one in the function body first. -/
def sectionsClasses : List ClassOutline :=
  [⟨⟨"A::B".toList, [], [], "a.h".toList⟩, false, [], []⟩,
    ⟨⟨"A".toList, [], [], "a.h".toList⟩, false, ["int f()".toList], ["int a".toList]⟩]

theorem normalize_sectionsHeader : Source.normalize sectionsHeader = sectionsHeader := by
  decide +kernel

theorem segmentHeader_sectionsHeader :
    segmentHeader 6 "a.h".toList sectionsHeader = .ok sectionsSegmented := by
  -- the boundaries of the class inside stand between those of the class around it
  have sorted (a b c d : Text) :
      [⟨0, 9, a⟩, ⟨66, 68, b⟩, ⟨28, 37, c⟩, ⟨45, 47, d⟩].mergeSort Edit.precedes =
        [⟨0, 9, a⟩, ⟨28, 37, c⟩, ⟨45, 47, d⟩, ⟨66, 68, b⟩] := by
    simp [List.mergeSort, Edit.precedes]
  rw [segmentHeader, normalize_sectionsHeader, segment_eq_ok_iff (by decide +kernel)]
  refine ⟨by decide +kernel, [], [⟨.classScope, 0, 8, 66, 68⟩, ⟨.classScope, 28, 36, 45, 47⟩],
    by decide +kernel, by decide +kernel, ?_⟩
  show _ = Segmented.mk (spliceFrom _ _
    (List.mergeSort [⟨0, 9, _⟩, ⟨66, 68, _⟩, ⟨28, 37, _⟩, ⟨45, 47, _⟩] _)) _
  rw [sorted]
  decide +kernel

theorem parseHeader_publicDeclarations_sectionsHeader :
    parseHeader 6 "a.h".toList sectionsHeader = .ok sectionsClasses ∧
      (∀ c ∈ sectionsClasses, ∃ before own,
        EndsIn sectionsSegmented "a.h".toList sectionsSegmented.tokens c before own) ∧
      ∀ c before own, EndsIn sectionsSegmented "a.h".toList sectionsSegmented.tokens c before own →
        ⟨c.methods, c.members⟩ = membersOf (publicDeclarations c.isStruct own) := by
  have accepted : parseHeader 6 "a.h".toList sectionsHeader = .ok sectionsClasses :=
    bind_eq_ok_iff.mpr ⟨sectionsSegmented, segmentHeader_sectionsHeader, by decide +kernel⟩
  have plain : '\\' ∉ Source.normalize sectionsHeader := by
    rw [normalize_sectionsHeader]
    decide +kernel
  obtain ⟨s, segmented, -, listed⟩ := parseHeader_publicDeclarations plain accepted
  obtain rfl : sectionsSegmented = s :=
    Except.ok.inj (segmentHeader_sectionsHeader.symm.trans segmented)
  exact ⟨accepted, listed⟩

end AccessorCatalog.Outline

/-
# The walk reads the forest

The walk over a segmented header keeps the open scopes on a stack and gives every line to the
innermost one.  `Forest.classes` reads the same header by recursion along its forest, without a
stack: a class is made from its own preamble, the names around it, and the lines that are directly
inside it.

* `walk_forest`: over the tokens of a forest, the walk gives the lines of the forest to the
  innermost scope, leaves all others as they are, and adds the classes of the forest;
* `classes_eq_forest`: so the two readings agree on every header whose marks nest.

Nothing is asked of the fragments: a mark without one opens a scope without a name.
-/
import AccessorCatalog.Outline.ClassOutline
import AccessorCatalog.Proofs.Forest

namespace AccessorCatalog.Outline

/-! ## 1. The reading by recursion -/

namespace Forest

/-- The lines that are inside no scope of the forest, in order. -/
def lines : Forest → List Text
  | empty => []
  | line t rest => t :: rest.lines
  | scope _ _ _ rest => rest.lines

end Forest

/-- The qualified name of a scope with a name inside scopes with the given ones, from the outside
in; scopes without a name are left out. -/
def qualified (outer : List Text) (name : Text) : Text :=
  Text.join "::".toList ((outer ++ [name]).filter fun name => !name.isEmpty)

/-- The name that its preamble gives a scope. -/
def scopeName (kind : ScopeKind) (preamble : Text) : Text :=
  match kind with
  | .namespaceScope => namespaceName preamble
  | .classScope | .structScope => (classTitle preamble).name

/-- The class that a scope with a preamble is, from the names around it and the lines directly
inside it.  A namespace is none, and neither is a class without a name. -/
def ownClass? (header : Text) (outer : List Text) (kind : ScopeKind) (preamble : Text)
    (lines : List Text) : Option ClassOutline :=
  let title := classTitle preamble
  if kind = .namespaceScope ∨ title.name = [] then none
  else
    let body := lines.foldl ClassBody.feed (ClassBody.start (kind == .structScope))
    some {
      record := ⟨qualified outer title.name, title.bases, title.templateParams, header⟩
      isStruct := kind == .structScope
      methods := body.members.methods
      members := body.members.data }

/-- The classes of a forest inside scopes with the given names, from the outside in: those inside a
scope first, then the one that the scope itself is, then those behind it. -/
def Forest.classes (s : Segmented) (header : Text) (outer : List Text) : Forest → List ClassOutline
  | empty => []
  | line _ rest => rest.classes s header outer
  | scope kind index inner rest =>
    let preamble := s.fragment ⟨⟨kind, .opening⟩, index⟩
    inner.classes s header (outer ++ [scopeName kind preamble]) ++
      (ownClass? header outer kind preamble inner.lines).toList ++ rest.classes s header outer

/-! ## 2. Lines for the innermost scope -/

namespace Scope

/-- Gives lines to a scope, one after the other. -/
def feedLines (scope : Scope) (lines : List Text) : Scope :=
  lines.foldl Scope.feed scope

@[simp] theorem feedLines_mark (scope : Scope) (lines : List Text) :
    (scope.feedLines lines).mark = scope.mark := by
  induction lines generalizing scope with
  | nil => rfl
  | cons t lines ih => exact ih (scope.feed t)

@[simp] theorem feedLines_name (scope : Scope) (lines : List Text) :
    (scope.feedLines lines).name = scope.name := by
  induction lines generalizing scope with
  | nil => rfl
  | cons t lines ih => exact ih (scope.feed t)

/-- Only the body of a class takes lines. -/
theorem feedLines_inside (scope : Scope) (lines : List Text) :
    (scope.feedLines lines).inside? =
      scope.inside?.map fun (title, body) => (title, lines.foldl ClassBody.feed body) := by
  induction lines generalizing scope with
  | nil => cases h : scope.inside? <;> simp [feedLines, h]
  | cons t lines ih =>
    have rest := ih (scope.feed t)
    cases h : scope.inside? <;> simpa [feedLines, Scope.feed, h] using rest

end Scope

/-- Gives lines to the innermost of the open scopes. -/
def feedInnermost (lines : List Text) : List Scope → List Scope
  | [] => []
  | inner :: outer => inner.feedLines lines :: outer

/-- The names of the open scopes, from the outside in. -/
def namesOf (scopes : List Scope) : List Text :=
  scopes.reverse.map Scope.name

theorem namesOf_cons (inner : Scope) (outer : List Scope) :
    namesOf (inner :: outer) = namesOf outer ++ [inner.name] := by
  simp [namesOf]

theorem namesOf_feedInnermost (lines : List Text) (scopes : List Scope) :
    namesOf (feedInnermost lines scopes) = namesOf scopes := by
  cases scopes with
  | nil => rfl
  | cons inner outer => rw [feedInnermost, namesOf_cons, namesOf_cons, Scope.feedLines_name]

theorem feedInnermost_feedInnermost (lines more : List Text) (scopes : List Scope) :
    feedInnermost more (feedInnermost lines scopes) = feedInnermost (lines ++ more) scopes := by
  cases scopes with
  | nil => rfl
  | cons inner outer => simp [feedInnermost, Scope.feedLines, List.foldl_append]

/-! ## 3. The walk -/

variable {s : Segmented} {header : Text}

theorem Scope.mark_ofMark (m : Mark) : (Scope.ofMark s m).mark = m := by
  unfold Scope.ofMark
  dsimp only
  split <;> rfl

/-- The name of a scope is the one that its preamble gives it. -/
theorem name_ofMark (kind : ScopeKind) (index : Nat) :
    (Scope.ofMark s ⟨⟨kind, .opening⟩, index⟩).name =
      scopeName kind (s.fragment ⟨⟨kind, .opening⟩, index⟩) := by
  cases kind <;> simp only [Scope.ofMark, scopeName]

theorem qualifiedName_eq (scope : Scope) (outer : List Scope) :
    scope.qualifiedName outer = qualified (namesOf outer) scope.name := by
  simp [Scope.qualifiedName, qualified, namesOf]

/-- What a scope has become when it closes, after the lines directly inside it. -/
theorem classOutline_ofMark (kind : ScopeKind) (index : Nat) (lines : List Text)
    (outer : List Scope) :
    ((Scope.ofMark s ⟨⟨kind, .opening⟩, index⟩).feedLines lines).classOutline? outer header =
      ownClass? header (namesOf outer) kind (s.fragment ⟨⟨kind, .opening⟩, index⟩) lines := by
  unfold Scope.classOutline? ownClass?
  rw [Scope.feedLines_inside, qualifiedName_eq, Scope.feedLines_name, Scope.feedLines_mark]
  cases kind <;> simp [Scope.ofMark]

theorem step_line (t : Text) (scopes : List Scope) (complete : List ClassOutline) :
    WalkState.step s header ⟨scopes, complete⟩ (.line t) =
      .ok ⟨feedInnermost [t] scopes, complete⟩ := by
  cases scopes <;> rfl

theorem step_opening (kind : ScopeKind) (index : Nat) (scopes : List Scope)
    (complete : List ClassOutline) :
    WalkState.step s header ⟨scopes, complete⟩ (.mark ⟨⟨kind, .opening⟩, index⟩) =
      .ok ⟨Scope.ofMark s ⟨⟨kind, .opening⟩, index⟩ :: scopes, complete⟩ :=
  rfl

/-- A closing mark takes the scope of its partner off the stack, with the lines that it has. -/
theorem step_closing (kind : ScopeKind) (index : Nat) (lines : List Text) (scopes : List Scope)
    (complete : List ClassOutline) :
    WalkState.step s header
        ⟨(Scope.ofMark s ⟨⟨kind, .opening⟩, index⟩).feedLines lines :: scopes, complete⟩
        (.mark ⟨⟨kind, .closing⟩, index⟩) =
      .ok ⟨scopes, complete ++
        (ownClass? header (namesOf scopes) kind (s.fragment ⟨⟨kind, .opening⟩, index⟩)
          lines).toList⟩ := by
  have pair : ((Scope.ofMark s ⟨⟨kind, .opening⟩, index⟩).feedLines lines).mark.partner =
      ⟨⟨kind, .closing⟩, index⟩ := by
    rw [Scope.feedLines_mark, Scope.mark_ofMark]
    rfl
  simp only [WalkState.step, pair, if_true, classOutline_ofMark]
  rfl

/-- **The walk over a forest** gives its lines to the innermost scope, leaves all others as they
are, and adds its classes. -/
theorem walk_forest (f : Forest) (scopes : List Scope) (complete : List ClassOutline) :
    f.tokens.foldlM (WalkState.step s header) ⟨scopes, complete⟩ =
      .ok ⟨feedInnermost f.lines scopes, complete ++ f.classes s header (namesOf scopes)⟩ := by
  induction f generalizing scopes complete with
  | empty =>
    have same : feedInnermost [] scopes = scopes := by cases scopes <;> rfl
    rw [Forest.lines, same, Forest.classes, List.append_nil]
    rfl
  | line t rest ih =>
    rw [Forest.tokens, List.foldlM_cons, step_line]
    show rest.tokens.foldlM (WalkState.step s header) _ = _
    rw [ih, namesOf_feedInnermost, feedInnermost_feedInnermost]
    rfl
  | scope kind index inner rest inner_ih rest_ih =>
    -- the scope is on the stack while its inner forest is read, and off it for the rest
    let own := Scope.ofMark s ⟨⟨kind, .opening⟩, index⟩
    let own? :=
      ownClass? header (namesOf scopes) kind (s.fragment ⟨⟨kind, .opening⟩, index⟩) inner.lines
    calc (Forest.scope kind index inner rest).tokens.foldlM (WalkState.step s header)
          ⟨scopes, complete⟩
        = (inner.tokens ++ .mark ⟨⟨kind, .closing⟩, index⟩ :: rest.tokens).foldlM
            (WalkState.step s header) ⟨own :: scopes, complete⟩ := by
          rw [Forest.tokens, List.foldlM_cons, step_opening]
          rfl
      _ = (.mark ⟨⟨kind, .closing⟩, index⟩ :: rest.tokens).foldlM (WalkState.step s header)
            ⟨own.feedLines inner.lines :: scopes,
              complete ++ inner.classes s header (namesOf (own :: scopes))⟩ := by
          rw [List.foldlM_append, inner_ih]
          rfl
      _ = rest.tokens.foldlM (WalkState.step s header)
            ⟨scopes, complete ++ inner.classes s header (namesOf (own :: scopes)) ++
              own?.toList⟩ := by
          rw [List.foldlM_cons, step_closing]
          rfl
      _ = .ok ⟨feedInnermost (Forest.scope kind index inner rest).lines scopes,
            complete ++ (Forest.scope kind index inner rest).classes s header
              (namesOf scopes)⟩ := by
          rw [rest_ih, namesOf_cons, name_ofMark, Forest.classes, Forest.lines]
          simp only [List.append_assoc, own?]

/-- **The walk and the recursion read the same classes** out of a header whose marks nest. -/
theorem classes_eq_forest {f : Forest} (nested : s.tokens = f.tokens) :
    classes header s = .ok (f.classes s header []) := by
  unfold classes
  rw [nested, walk_forest]
  rfl

/-- A struct inside a class inside a namespace without a name. -/
def markedHeader : Segmented :=
  { text :=
      ("\\namespace000\n\\class000\npublic:\n\\structclass001\nint x;\n\\endstructclass001\n" ++
        "int f();\n\\endclass000\n\\endnamespace000\n").toList
    fragments := [
      (⟨⟨.namespaceScope, .opening⟩, 0⟩, "namespace \x7b".toList),
      (⟨⟨.classScope, .opening⟩, 0⟩, "class A : public B \x7b".toList),
      (⟨⟨.structScope, .opening⟩, 1⟩, "struct C \x7b".toList)] }

/-- The forest of its marks. -/
def markedForest : Forest :=
  .scope .namespaceScope 0
    (.scope .classScope 0
      (.line "public:".toList
        (.scope .structScope 1 (.line "int x;".toList .empty) (.line "int f();".toList .empty)))
      .empty)
    .empty

theorem classes_eq_forest_markedHeader :
    markedHeader.tokens = markedForest.tokens ∧
      classes "a.h".toList markedHeader = .ok [
        ⟨⟨"A::C".toList, [], [], "a.h".toList⟩, true, [], ["int x".toList]⟩,
        ⟨⟨"A".toList, ["B".toList], [], "a.h".toList⟩, false, ["int f()".toList], []⟩] := by
  have nested : markedHeader.tokens = markedForest.tokens := by decide +kernel
  have read : markedForest.classes markedHeader "a.h".toList [] = [
      ⟨⟨"A::C".toList, [], [], "a.h".toList⟩, true, [], ["int x".toList]⟩,
      ⟨⟨"A".toList, ["B".toList], [], "a.h".toList⟩, false, ["int f()".toList], []⟩] := by
    decide +kernel
  exact ⟨nested, (classes_eq_forest nested).trans (congrArg Except.ok read)⟩

end AccessorCatalog.Outline

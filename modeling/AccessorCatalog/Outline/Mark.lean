/-
# Marks

While a header is taken apart, the boundaries of its namespaces, classes and structs are replaced by
marks: lines of their own that name the kind of scope, which of its two sides this is, and the
number of the scope.  `\class002` opens the scope that `\endclass002` closes.

`parse?` reads a line as a mark only if the whole line is one.
-/
import AccessorCatalog.Text.Basic

namespace AccessorCatalog.Outline

/-- The kinds of scopes that a header nests. -/
inductive ScopeKind where
  | namespaceScope
  | classScope
  | structScope
  deriving DecidableEq, Repr

/-- The two sides of a scope. -/
inductive Side where
  | opening
  | closing
  deriving DecidableEq, Repr

/-- A kind of mark: one side of one kind of scope. -/
structure MarkKind where
  scope : ScopeKind
  side : Side
  deriving DecidableEq, Repr

/-- A mark: one side of the scope with a number. -/
structure Mark where
  kind : MarkKind
  index : Nat
  deriving DecidableEq, Repr

namespace MarkKind

/-- All kinds, in the order in which fragments are listed. -/
def all : List MarkKind :=
  [.namespaceScope, .classScope, .structScope].flatMap fun scope =>
    [⟨scope, .opening⟩, ⟨scope, .closing⟩]

/-- The word of a kind of scope. -/
def scopeTag : ScopeKind → Text
  | .namespaceScope => "namespace".toList
  | .classScope => "class".toList
  | .structScope => "structclass".toList

/-- The word that stands for a kind in a mark. -/
def tag (kind : MarkKind) : Text :=
  match kind.side with
  | .opening => scopeTag kind.scope
  | .closing => "end".toList ++ scopeTag kind.scope

/-- Whether marks of this kind open a scope. -/
def isOpening (kind : MarkKind) : Bool :=
  kind.side == .opening

/-- The kind that closes scopes of this kind; a closing kind is its own. -/
def closes (kind : MarkKind) : MarkKind :=
  ⟨kind.scope, .closing⟩

/-- The place of a kind in the order of `all`. -/
def rank (kind : MarkKind) : Nat :=
  all.idxOf kind

end MarkKind

namespace Mark

/-- Whether the mark opens a scope. -/
def isOpening (m : Mark) : Bool :=
  m.kind.isOpening

/-- The mark that closes the scope of this one. -/
def partner (m : Mark) : Mark :=
  ⟨m.kind.closes, m.index⟩

/-- The line of a mark: a backslash, the word of its kind and at least three digits. -/
def render (m : Mark) : Text :=
  let digits := Text.ofNat m.index
  '\\' :: (m.kind.tag ++ List.replicate (3 - digits.length) '0' ++ digits)

/-- The mark that a whole line is. -/
def parse? (line : Text) : Option Mark :=
  match line with
  | '\\' :: t =>
    MarkKind.all.findSome? fun kind =>
      (Text.afterPrefix? kind.tag t).bind fun digits =>
        if digits.length < 3 then none else (Text.toCount? digits).map fun n => ⟨kind, n⟩
  | _ => none

/-- Whether a mark comes before another or is the same: by kind, then by number. -/
def precedes (a b : Mark) : Bool :=
  a.kind.rank < b.kind.rank || (a.kind.rank == b.kind.rank && a.index ≤ b.index)

end Mark
end AccessorCatalog.Outline

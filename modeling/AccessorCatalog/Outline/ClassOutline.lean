/-
# The classes of a header

`classes` replays the tokens of a segmented header.  It keeps the open scopes on a stack, innermost
first; a line goes to the innermost scope if that is a class; and whenever the mark of a class
closes, the class is complete and is listed under its qualified name.  Inner classes therefore come
before the classes around them.

`parseHeader` is the way from the text of a header to its classes.
-/
import AccessorCatalog.Outline.ClassBody
import AccessorCatalog.Outline.Segmented
import AccessorCatalog.Outline.Title

namespace AccessorCatalog

/-- What is known of a class: its qualified name, its base classes as they are written, its template
parameters and its header. -/
structure ClassRecord where
  name : Text
  bases : List Text
  templateParams : List Text
  header : Text
  deriving DecidableEq, Repr

namespace Outline

/-- A class of a header with the declarations of its public sections. -/
structure ClassOutline where
  record : ClassRecord
  isStruct : Bool
  methods : List Text
  members : List Text
  deriving DecidableEq, Repr

/-- An open scope: its mark, its name, and for a class its title and what has been read of its
body. -/
structure Scope where
  mark : Mark
  name : Text
  inside? : Option (ClassTitle × ClassBody)
  deriving DecidableEq, Repr

namespace Scope

/-- The scope that a mark opens. -/
def ofMark (s : Segmented) (m : Mark) : Scope :=
  let preamble := s.fragment m
  match m.kind.scope with
  | .namespaceScope => ⟨m, namespaceName preamble, none⟩
  | kind =>
    let title := classTitle preamble
    ⟨m, title.name, some (title, ClassBody.start (kind == .structScope))⟩

/-- Gives a line to the scope. -/
def feed (scope : Scope) (line : Text) : Scope :=
  { scope with inside? := scope.inside?.map fun (title, body) => (title, body.feed line) }

/-- The name of a scope inside the given ones, innermost first. -/
def qualifiedName (scope : Scope) (outer : List Scope) : Text :=
  Text.join "::".toList (((scope :: outer).reverse.map Scope.name).filter fun name => !name.isEmpty)

/-- The class that a scope inside the given ones is, if it is one and has a name. -/
def classOutline? (scope : Scope) (outer : List Scope) (header : Text) : Option ClassOutline :=
  match scope.inside? with
  | some (title, body) =>
    if title.name.isEmpty then none
    else
      some {
        record := ⟨scope.qualifiedName outer, title.bases, title.templateParams, header⟩
        isStruct := scope.mark.kind.scope == .structScope
        methods := body.members.methods
        members := body.members.data }
  | none => none

end Scope

/-- The open scopes, innermost first, and the classes that are complete. -/
structure WalkState where
  scopes : List Scope
  complete : List ClassOutline

/-- Reads one token. -/
def WalkState.step (s : Segmented) (header : Text) (w : WalkState) :
    Token → Except ParseError WalkState
  | .line t =>
    match w.scopes with
    | inner :: outer => .ok { w with scopes := inner.feed t :: outer }
    | [] => .ok w
  | .mark m =>
    if m.isOpening then .ok { w with scopes := Scope.ofMark s m :: w.scopes }
    else
      match w.scopes with
      | inner :: outer =>
        if inner.mark.partner = m then
          .ok ⟨outer, w.complete ++ (inner.classOutline? outer header).toList⟩
        else .error (.unbalancedMark header m)
      | [] => .error (.unbalancedMark header m)

/-- The classes of a segmented header, in the order in which they end. -/
def classes (header : Text) (s : Segmented) : Except ParseError (List ClassOutline) := do
  let w ← s.tokens.foldlM (WalkState.step s header) ⟨[], []⟩
  match w.scopes with
  | inner :: _ => .error (.unbalancedMark header inner.mark)
  | [] => .ok w.complete

/-- The number of braces that the search for the end of a construct may read. -/
def defaultLimit : Nat := 5000

/-- Segments a header after normalizing it. -/
def segmentHeader (limit : Nat) (header t : Text) : Except ParseError Segmented :=
  segment limit header (Source.normalize t)

/-- Every class, struct and type definition of a header, innermost first. -/
def parseHeader (limit : Nat) (header t : Text) : Except ParseError (List ClassOutline) := do
  classes header (← segmentHeader limit header t)

end Outline
end AccessorCatalog

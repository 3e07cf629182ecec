/-
# Constructs

A construct is a stretch of a header that starts with a preamble such as `class A : public B {` and
ends with the brace that closes it.  `findConstructs` finds one for every preamble of a kind, in the
order of the text; the walk to the closing brace reads at most a given number of braces.

Places are counted in characters; only the place that an error reports is counted in bytes.
-/
import AccessorCatalog.ParseError
import AccessorCatalog.Source.Typedef

namespace AccessorCatalog.Outline

open Text (countWhile isBlank isWord)

/-! ## 1. Preambles -/

/-- A recogniser of preambles: from the character before a place and the text from there on, the
kind of scope and the length up to and with the opening brace. -/
abbrev Preamble := Option Char → Text → Option (ScopeKind × Nat)

/-- The word `inline` and blanks at the start of a text, or nothing of it. -/
def inlineLength (t : Text) : Nat :=
  match Text.afterPrefix? "inline".toList t with
  | some rest =>
    match countWhile isBlank rest with
    | 0 => 0
    | n + 1 => 6 + (n + 1)
  | none => 0

/-- The blanks and the name of a namespace, or nothing if it has no name. -/
def namespaceNameLength (t : Text) : Nat :=
  match countWhile isBlank t with
  | 0 => 0
  | n + 1 =>
    match countWhile (fun c => isWord c || c == ':') (t.drop (n + 1)) with
    | 0 => 0
    | m + 1 => n + 1 + (m + 1)

/-- The preamble of a namespace, at the start of a line. -/
def namespacePreamble : Preamble := fun before t =>
  if Source.atLineStart before then
    let lead := inlineLength t
    (Text.afterPrefix? "namespace".toList (t.drop lead)).bind fun rest =>
      let name := namespaceNameLength rest
      let gap := countWhile isBlank (rest.drop name)
      if (rest.drop (name + gap)).head? = some '\x7b' then
        some (.namespaceScope, lead + 9 + name + gap + 1)
      else none
  else none

/-- A character of a class title. -/
def isTitleChar (c : Char) : Bool :=
  !";()\x7b\x7d=\n\\".toList.contains c

/-- The preamble of a class or struct from its keyword on. -/
def classKey? (t : Text) : Option (ScopeKind × Nat) :=
  (keyword ScopeKind.classScope "class".toList).or (keyword .structScope "struct".toList)
where
  keyword (scope : ScopeKind) (word : Text) : Option (ScopeKind × Nat) :=
    (Text.afterPrefix? word t).bind fun rest =>
      (Source.blanksAndBody? isTitleChar '\x7b' rest).map fun n => (scope, word.length + n + 1)

/-- The preamble behind template parameters that end with a `>` among the first `width` characters
of a text, the last such `>` that a preamble follows. -/
def behindParameters? (t : Text) : (width : Nat) → Option (ScopeKind × Nat)
  | 0 => none
  | width + 1 =>
    let here : Option (ScopeKind × Nat) :=
      match t.drop width with
      | '>' :: rest =>
        let gap := countWhile isBlank rest
        (classKey? (rest.drop gap)).map fun (scope, n) => (scope, width + 1 + gap + n)
      | _ => none
    here.or (behindParameters? t width)

/-- A character that can stand between template parameters and the preamble's end on one line. -/
def isParameterChar (c : Char) : Bool :=
  !"\x7b\x7d;\n".toList.contains c

/-- The preamble of a class or struct, at the start of a line, with its template parameters. -/
def classPreamble : Preamble := fun before t =>
  if Source.atLineStart before then
    match Text.afterPrefix? "template<".toList t with
    | some rest =>
      (behindParameters? rest (countWhile isParameterChar rest)).map fun (scope, n) =>
        (scope, 9 + n)
    | none => classKey? t
  else none

/-! ## 2. Openings -/

/-- A preamble found in a text: where it starts, and where its opening brace is. -/
structure Opening where
  scope : ScopeKind
  start : Nat
  openAt : Nat
  deriving DecidableEq, Repr

/-- The preambles of a text that starts at a place, without overlap. -/
def openingsFrom (preamble : Preamble) (place : Nat) (before : Option Char) : Text → List Opening
  | [] => []
  | c :: t =>
    match preamble before (c :: t) with
    | some (scope, n) =>
      let taken := c :: t.take (n - 1)
      ⟨scope, place, place + (n - 1)⟩ ::
        openingsFrom preamble (place + taken.length) taken.getLast? (t.drop (n - 1))
    | none => openingsFrom preamble (place + 1) (some c) t
termination_by t => t.length
decreasing_by all_goals simp; try omega

/-- The preambles of a text, in order. -/
def openings (preamble : Preamble) (t : Text) : List Opening :=
  openingsFrom preamble 0 none t

/-! ## 3. The matching close -/

/-- How far behind the start of a text the brace lies that ends the open ones; `depth` are open
already, and at most `limit` braces are read. -/
def closeWithin (limit depth : Nat) : Text → Except BraceFault Nat
  | [] => .error .neverClosed
  | c :: t =>
    if c = '\x7b' then
      match limit with
      | 0 => .error (.beyondLimit 0)
      | limit + 1 => (closeWithin limit (depth + 1) t).map (· + 1)
    else if c = '\x7d' then
      match limit with
      | 0 => .error (.beyondLimit 0)
      | limit + 1 =>
        if depth ≤ 1 then .ok 0 else (closeWithin limit (depth - 1) t).map (· + 1)
    else (closeWithin limit depth t).map (· + 1)

/-- How far behind an opening brace, the first character of a text, its close lies. -/
def matchingClose (limit : Nat) (t : Text) : Except BraceFault Nat :=
  match closeWithin limit 0 t with
  | .error (.beyondLimit _) => .error (.beyondLimit limit)
  | answer => answer

/-! ## 4. Constructs -/

/-- A construct: its preamble runs from `start` to the brace at `openAt`, its end from the brace at
`closeAt` to before `stop`. -/
structure Construct where
  scope : ScopeKind
  start : Nat
  openAt : Nat
  closeAt : Nat
  stop : Nat
  deriving DecidableEq, Repr

/-- The stretch of a text from one place to before another. -/
def slice (start stop : Nat) (t : Text) : Text :=
  (t.drop start).take (stop - start)

/-- The preamble of a construct, its brace included. -/
def Construct.preamble (c : Construct) (t : Text) : Text :=
  slice c.start (c.openAt + 1) t

/-- The end of a construct: the closing brace, with the semicolon that belongs to it. -/
def Construct.epilogue (c : Construct) (t : Text) : Text :=
  slice c.closeAt c.stop t

/-- The construct of an opening, closed after the given distance. -/
def Opening.construct (o : Opening) (distance : Nat) (takeSemicolon : Bool) (t : Text) :
    Construct :=
  let closeAt := o.openAt + distance
  let more := if takeSemicolon && (t.drop (closeAt + 1)).head? == some ';' then 1 else 0
  ⟨o.scope, o.start, o.openAt, closeAt, closeAt + 1 + more⟩

/-- The construct of every preamble in a text.  The first preamble without a close in reach is an
error, reported at its start. -/
def findConstructs (preamble : Preamble) (takeSemicolon : Bool) (limit : Nat) (header t : Text) :
    Except ParseError (List Construct) :=
  (openings preamble t).mapM fun o =>
    match matchingClose limit (t.drop o.openAt) with
    | .ok distance => .ok (o.construct distance takeSemicolon t)
    | .error fault =>
      .error (.malformedConstruct header (Text.byteLength (t.take o.start)) fault)

end AccessorCatalog.Outline

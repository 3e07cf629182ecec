/-
# Canonical spacing

`Type *name`, `Type * name` and `Type*name` say the same.  `canonicalSpacing` brings a stretch of
declarations to one spelling: single blanks, decorations (`*`, `&`, `&&`) against their type, commas
followed by one blank, and no blanks around `<`, `!=` and a plain `=`, or inside parentheses.
`joinOperatorName` attaches the symbol of an operator to the word `operator`.

Every pass replaces what a pattern takes by the characters of it that are no blanks, with at most
one blank added, so no pass changes anything but blanks.
-/
import AccessorCatalog.Text.Pattern

namespace AccessorCatalog.Source

open Text (Pattern countWhile isBlank isWord)

/-! ## 1. Patterns around one symbol -/

/-- The characters of a stretch that are no blanks. -/
def solid (t : Text) : Text :=
  t.filter fun c => !isBlank c

/-- A run of blanks. -/
def blankRun : Pattern := fun _ t =>
  match countWhile isBlank t with
  | 0 => none
  | n + 1 => some (n + 1)

/-- A piece of text with the blanks on both sides of it. -/
def padded (piece : Text) : Pattern := fun _ t =>
  let lead := countWhile isBlank t
  (Text.afterPrefix? piece (t.drop lead)).map fun rest =>
    lead + piece.length + countWhile isBlank rest

/-- A piece of text with at least one blank behind it. -/
def blankBehind (piece : Text) : Pattern := fun _ t =>
  match Text.afterPrefix? piece t with
  | some rest =>
    match countWhile isBlank rest with
    | 0 => none
    | n + 1 => some (piece.length + (n + 1))
  | none => none

/-- A piece of text with at least one blank before it. -/
def blankBefore (piece : Text) : Pattern := fun _ t =>
  match countWhile isBlank t with
  | 0 => none
  | n + 1 => (Text.afterPrefix? piece (t.drop (n + 1))).map fun _ => n + 1 + piece.length

/-! ## 2. Patterns around a decoration or an operator sign -/

/-- The length of the decoration at the start of a text: stars, `&&` or `&`. -/
def decoration? : Text → Option Nat
  | '*' :: t => some (1 + countWhile (· == '*') t)
  | '&' :: '&' :: _ => some 2
  | '&' :: _ => some 1
  | _ => none

/-- A decoration with the character of a type in front of it, and the blanks around it. -/
def decorated : Pattern := fun _ t =>
  match t with
  | c :: t =>
    if isWord c || c == '>' || c == ']' then
      let gap := countWhile isBlank t
      (decoration? (t.drop gap)).map fun n =>
        1 + gap + n + countWhile isBlank (t.drop (gap + n))
    else none
  | [] => none

/-- Two operands with a `+`, `/` or `-` between them that has a blank before it. -/
def spacedSign : Pattern := fun _ t =>
  match t with
  | c :: t =>
    if isWord c || c == ')' then
      match countWhile isBlank t with
      | 0 => none
      | n + 1 =>
        match t.drop (n + 1) with
        | sign :: t =>
          if sign == '+' || sign == '/' || sign == '-' then
            let gap := countWhile isBlank t
            match t.drop gap with
            | d :: _ => if isWord d || d == '(' then some (1 + (n + 1) + 1 + gap + 1) else none
            | [] => none
          else none
        | [] => none
    else none
  | [] => none

/-- The word `operator` with blanks, an operator symbol and the parenthesis that opens its
arguments. -/
def operatorSymbol : Pattern := fun before t =>
  if Text.atBoundary before t then
    match Text.afterPrefix? "operator".toList t with
    | some t =>
      match countWhile isBlank t with
      | 0 => none
      | gap + 1 =>
        match t.drop (gap + 1) with
        | c :: t =>
          if isWord c || isBlank c || c == '(' then none
          else
            let symbol := countWhile (fun c => !isBlank c && c != '(') t
            let blanks := countWhile isBlank (t.drop symbol)
            match t.drop (symbol + blanks) with
            | '(' :: _ => some (8 + (gap + 1) + 1 + symbol + blanks + 1)
            | _ => none
        | [] => none
    | none => none
  else none

/-! ## 3. Assignments -/

/-- Whether an `=` belongs to a comparison or a compound assignment, by its neighbours. -/
def partOfOperator (before after : Option Char) : Bool :=
  (match before with
    | some c => "=!<>+-*/%&|^".toList.contains c
    | none => false) || after == some '='

/-- Puts a plain `=` against its operands; `done` is the text so far, last character first. -/
def joinAssignmentsFrom (done : Text) : Text → Text
  | [] => done.reverse
  | c :: t =>
    if c = '=' then
      let kept := done.dropWhile isBlank
      if partOfOperator kept.head? t.head? then joinAssignmentsFrom ('=' :: done) t
      else joinAssignmentsFrom ('=' :: kept) (t.dropWhile (· == ' '))
    else joinAssignmentsFrom (c :: done) t
termination_by t => t.length
decreasing_by
  · simp
  · have := (List.dropWhile_sublist (· == ' ') (l := t)).length_le
    simp; omega
  · simp

/-- Puts `=` against its operands unless it is part of a comparison or a compound assignment. -/
def joinAssignments (t : Text) : Text :=
  joinAssignmentsFrom [] t

/-! ## 4. The canonical spelling -/

/-- A decoration loses the blank between it and a close or a comma. -/
def closeDecorations (t : Text) : Text :=
  [("* )", "*)"), ("& )", "&)"), ("* >", "*>"), ("& >", "&>"), ("* ,", "*,"), ("& ,", "&,")].foldl
    (fun t (old, new) => Text.replace old.toList new.toList t) t

/-- Canonical spacing for a stretch of declarations. -/
def canonicalSpacing (t : Text) : Text :=
  let t := Text.replaceMatches blankRun (fun _ => [' ']) t
  let t := Text.replaceMatches decorated (fun m => solid m ++ [' ']) t
  let t := Text.replaceMatches (padded [',']) (fun _ => [',', ' ']) t
  let t := Text.replaceMatches (padded ['<']) (fun _ => ['<']) t
  let t := Text.replaceMatches (padded ['!', '=']) (fun _ => ['!', '=']) t
  let t := Text.replaceMatches spacedSign solid t
  let t := Text.replaceMatches (blankBehind ['(']) (fun _ => ['(']) t
  let t := Text.replaceMatches (blankBefore [')']) (fun _ => [')']) t
  Text.trim (closeDecorations (joinAssignments t))

/-- `operator ==(` becomes `operator==(`.  Word operators such as `operator new` and conversion
operators keep their blank. -/
def joinOperatorName (t : Text) : Text :=
  Text.replaceMatches operatorSymbol solid t

end AccessorCatalog.Source

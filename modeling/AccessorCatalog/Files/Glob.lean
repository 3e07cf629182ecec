/-
# Glob patterns

A glob describes paths: `?` stands for a byte, `*` for any bytes, `[a-z]` and `[!a-z]` for a byte in
or out of ranges, `{a,b}` for either pattern, a backslash takes the next character as it is, and
`**` between slashes or at an end stands for any folders.  When slashes separate, `?` and `*` stand
for no slash.

Paths are matched as bytes in UTF-8.  `matchTokens` says in one line for each kind of token what it
takes, given what has to follow.
-/
import AccessorCatalog.Text.Utf8

namespace AccessorCatalog.Files

/-! ## 1. Tokens -/

/-- The parts of a glob. -/
inductive GlobToken where
  | literal (c : Char)
  | any
  | star
  /-- `**/` at the start: any folders, or none. -/
  | foldersBefore
  /-- `/**` at the end: anything below. -/
  | allBelow
  /-- `/**/` in between: any folders, or none. -/
  | foldersBetween
  | oneOf (negated : Bool) (ranges : List (Char × Char))
  | either (branches : List (List GlobToken))

/-- Why a text is no glob. -/
inductive GlobFault where
  | unclosedClass
  | invalidRange
  | unopenedAlternates
  | unclosedAlternates
  | danglingEscape
  deriving DecidableEq, Repr

/-! ## 2. Reading a class -/

/-- What a text behind `[` is. -/
inductive ClassReading where
  /-- A class, and the number of characters of it. -/
  | closed (ranges : List (Char × Char)) (length : Nat)
  | unclosed
  | invalidRange

/-- A reading that starts `n` characters earlier. -/
def ClassReading.shift (n : Nat) : ClassReading → ClassReading
  | .closed ranges length => .closed ranges (length + n)
  | reading => reading

/-- Reads the ranges of a class up to its close; `ranges` are the ones so far, last first, and
`pending` says that a `-` waits for the end of the last one.  A `]` or `-` in front stands for
itself. -/
def readRanges (first pending : Bool) (ranges : List (Char × Char)) : Text → ClassReading
  | [] => .unclosed
  | c :: t =>
    if c = ']' ∧ ¬ first then
      .closed ((if pending then ('-', '-') :: ranges else ranges).reverse) 1
    else if c = '-' ∧ ¬ first ∧ ¬ pending then (readRanges false true ranges t).shift 1
    else if pending then
      match ranges with
      | (low, _) :: others =>
        if c < low then .invalidRange
        else (readRanges false false ((low, c) :: others) t).shift 1
      | [] => .invalidRange
    else (readRanges false false ((c, c) :: ranges) t).shift 1

/-- Reads a class behind its `[`, with whether it is negated. -/
def readClass : Text → Bool × ClassReading
  | c :: t =>
    if c = '!' ∨ c = '^' then (true, (readRanges true false [] t).shift 1)
    else (false, readRanges true false [] (c :: t))
  | [] => (false, .unclosed)

/-! ## 3. Reading a glob -/

/-- A group that is open while a glob is read: its branches so far and the tokens before it, both
last first. -/
structure OpenGroup where
  branches : List (List GlobToken)
  outer : List GlobToken

/-- A glob while it is read: the character before, the open groups, innermost first, and the tokens
of the current branch, last first. -/
structure GlobState where
  before : Option Char
  groups : List OpenGroup
  current : List GlobToken

namespace GlobState

/-- Adds a token that a character ends. -/
def push (s : GlobState) (c : Char) (token : GlobToken) : GlobState :=
  { s with before := some c, current := token :: s.current }

/-- Puts `token` in place of the slash before a double star; folders before and all below stay what
they are. -/
def pushFolders (s : GlobState) (c : Char) (token : GlobToken) : GlobState :=
  let current := match s.current with
    | .foldersBefore :: rest => .foldersBefore :: rest
    | .allBelow :: rest => .allBelow :: rest
    | _ :: rest => token :: rest
    | [] => [token]
  { s with before := some c, current }

/-- Opens a group. -/
def openGroup (s : GlobState) : GlobState :=
  ⟨some '\x7b', ⟨[], s.current⟩ :: s.groups, []⟩

/-- Starts the next branch of the innermost group; outside of groups a comma stands for itself. -/
def nextBranch (s : GlobState) : GlobState :=
  match s.groups with
  | g :: groups => ⟨some ',', { g with branches := s.current.reverse :: g.branches } :: groups, []⟩
  | [] => s.push ',' (.literal ',')

/-- Closes the innermost group. -/
def closeGroup? (s : GlobState) : Option GlobState :=
  match s.groups with
  | g :: groups =>
    let branches := (s.current.reverse :: g.branches).reverse
    some ⟨some '\x7d', groups, .either branches :: g.outer⟩
  | [] => none

/-- Two stars that stand for no folders. -/
def pushStars (s : GlobState) : GlobState :=
  (s.push '*' .star).push '*' .star

/-- Whether a double star here may stand for folders, from the character before it. -/
def atFolder (s : GlobState) : Bool :=
  s.before == some '/' ||
    (!s.groups.isEmpty && (s.before == some ',' || s.before == some '\x7b'))

end GlobState

/-- What a `[` in a glob is. -/
inductive BracketRule where
  /-- It opens a class, and has to have a close. -/
  | strict
  /-- It opens a class; when the first one without a close comes, that one stands for itself, and so
  do all behind it. -/
  | lenient
  /-- It stands for itself. -/
  | plain

/-- Reads a glob. -/
def readGlobFrom (rule : BracketRule) (s : GlobState) : Text → Except GlobFault (List GlobToken)
  | [] => if s.groups.isEmpty then .ok s.current.reverse else .error .unclosedAlternates
  | '*' :: '*' :: t =>
    if s.current.isEmpty then
      match t with
      | [] => readGlobFrom rule (s.push '*' .foldersBefore) []
      | '/' :: t => readGlobFrom rule (s.push '/' .foldersBefore) t
      | t => readGlobFrom rule s.pushStars t
    else if s.atFolder then
      match t with
      | [] => readGlobFrom rule (s.pushFolders '*' .allBelow) []
      | '/' :: t => readGlobFrom rule (s.pushFolders '/' .foldersBetween) t
      | c :: t =>
        if !s.groups.isEmpty && (c == ',' || c == '\x7d') then
          readGlobFrom rule (s.pushFolders '*' .allBelow) (c :: t)
        else readGlobFrom rule s.pushStars (c :: t)
    else readGlobFrom rule s.pushStars t
  | '*' :: t => readGlobFrom rule (s.push '*' .star) t
  | '?' :: t => readGlobFrom rule (s.push '?' .any) t
  | '[' :: t =>
    match rule, readClass t with
    | .plain, _ => readGlobFrom .plain (s.push '[' (.literal '[')) t
    | rule, (negated, .closed ranges n) =>
      readGlobFrom rule (s.push ']' (.oneOf negated ranges)) (t.drop n)
    | .lenient, (_, .unclosed) => readGlobFrom .plain (s.push '[' (.literal '[')) t
    | .strict, (_, .unclosed) => .error .unclosedClass
    | _, (_, .invalidRange) => .error .invalidRange
  | '\x7b' :: t => readGlobFrom rule s.openGroup t
  | '\x7d' :: t =>
    match s.closeGroup? with
    | some s => readGlobFrom rule s t
    | none => .error .unopenedAlternates
  | ',' :: t => readGlobFrom rule s.nextBranch t
  | ['\\'] => .error .danglingEscape
  | '\\' :: c :: t => readGlobFrom rule (s.push c (.literal c)) t
  | c :: t => readGlobFrom rule (s.push c (.literal c)) t
termination_by t => t.length
decreasing_by all_goals simp; try omega

/-- Reads a glob from its start. -/
def readGlob (rule : BracketRule) (t : Text) : Except GlobFault (List GlobToken) :=
  readGlobFrom rule ⟨none, [], []⟩ t

/-! ## 4. Matching -/

/-- Whether a continuation takes some end of the bytes. -/
def anySuffix (next : List UInt8 → Bool) : List UInt8 → Bool
  | [] => next []
  | b :: bytes => next (b :: bytes) || anySuffix next bytes

/-- Whether a continuation takes some end of the bytes that only bytes other than a slash
precede. -/
def anySuffixInFolder (next : List UInt8 → Bool) : List UInt8 → Bool
  | [] => next []
  | b :: bytes => next (b :: bytes) || (b != 0x2f && anySuffixInFolder next bytes)

/-- Whether a continuation takes what follows some slash. -/
def behindSlash (next : List UInt8 → Bool) : List UInt8 → Bool
  | [] => false
  | b :: bytes => (b == 0x2f && next bytes) || behindSlash next bytes

/-- The bytes behind a piece in front. -/
def afterBytes? : (piece bytes : List UInt8) → Option (List UInt8)
  | [], bytes => some bytes
  | _ :: _, [] => none
  | a :: piece, b :: bytes => if a = b then afterBytes? piece bytes else none

/-- The ranges of bytes that a range of characters allows: the bytes of its two ends, and what lies
between the last byte of the first end and the first byte of the other. -/
def byteRanges (range : Char × Char) : List (UInt8 × UInt8) :=
  let low := String.utf8EncodeChar range.1
  let high := String.utf8EncodeChar range.2
  let singles := (low ++ high).map fun b => (b, b)
  if range.1 = range.2 then singles else (low.getLastD 0, high.headD 0) :: singles

/-- Whether a byte lies in one of some ranges of characters. -/
def inByteRanges (ranges : List (Char × Char)) (b : UInt8) : Bool :=
  (ranges.flatMap byteRanges).any fun r => r.1 ≤ b && b ≤ r.2

mutual

/-- Whether a token stands for nothing at all: a group of empty branches. -/
def isVacuous : GlobToken → Bool
  | .either branches => branchesVacuous branches
  | _ => false

/-- Whether all tokens of a branch stand for nothing. -/
def branchVacuous : List GlobToken → Bool
  | [] => true
  | token :: tokens => isVacuous token && branchVacuous tokens

/-- Whether all branches of a group stand for nothing. -/
def branchesVacuous : List (List GlobToken) → Bool
  | [] => true
  | branch :: branches => branchVacuous branch && branchesVacuous branches

end

mutual

/-- Whether a token takes a start of the bytes whose rest `next` takes; `separate` says that slashes
separate. -/
def matchToken (separate : Bool) : GlobToken → (List UInt8 → Bool) → List UInt8 → Bool
  | .literal c, next, bytes =>
    match afterBytes? (String.utf8EncodeChar c) bytes with
    | some rest => next rest
    | none => false
  | .any, next, bytes =>
    match bytes with
    | b :: rest => !(separate && b == 0x2f) && next rest
    | [] => false
  | .star, next, bytes => if separate then anySuffixInFolder next bytes else anySuffix next bytes
  | .foldersBefore, next, bytes => next bytes || behindSlash next bytes
  | .allBelow, next, bytes =>
    match bytes with
    | b :: rest => b == 0x2f && anySuffix next rest
    | [] => false
  | .foldersBetween, next, bytes =>
    match bytes with
    | b :: rest => b == 0x2f && (next rest || behindSlash next rest)
    | [] => false
  | .oneOf negated ranges, next, bytes =>
    match bytes with
    | b :: rest => (inByteRanges ranges b != negated) && next rest
    | [] => false
  | .either branches, next, bytes =>
    if branchesVacuous branches then next bytes else matchBranches separate branches next bytes

/-- Whether tokens take a start of the bytes whose rest `next` takes. -/
def matchTokens (separate : Bool) : List GlobToken → (List UInt8 → Bool) → List UInt8 → Bool
  | [], next, bytes => next bytes
  | token :: tokens, next, bytes =>
    matchToken separate token (matchTokens separate tokens next) bytes

/-- Whether one of some branches that stand for something takes a start of the bytes whose rest
`next` takes. -/
def matchBranches (separate : Bool) :
    List (List GlobToken) → (List UInt8 → Bool) → List UInt8 → Bool
  | [], _, _ => false
  | branch :: branches, next, bytes =>
    (!branchVacuous branch && matchTokens separate branch next bytes) ||
      matchBranches separate branches next bytes

end

/-! ## 5. Globs -/

/-- A glob that has been read. -/
structure Glob where
  /-- Slashes are taken by slashes only. -/
  separate : Bool
  tokens : List GlobToken

namespace Glob

/-- A pattern for whole paths in which stars cross slashes. -/
def ofPattern (pattern : Text) : Except GlobFault Glob :=
  (readGlob .strict pattern).map fun tokens => ⟨false, tokens⟩

/-- A pattern in which slashes separate, read leniently. -/
def ofSeparated (pattern : Text) : Except GlobFault Glob :=
  (readGlob .lenient pattern).map fun tokens => ⟨true, tokens⟩

/-- Whether the glob describes a path.  `**` alone describes every path. -/
def describes (g : Glob) (path : Text) : Bool :=
  match g.tokens with
  | [.foldersBefore] => true
  | tokens => matchTokens g.separate tokens List.isEmpty (Text.encode path)

end Glob
end AccessorCatalog.Files

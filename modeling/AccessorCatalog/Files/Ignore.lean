/-
# Ignore files

An ignore file lists, one pattern a line, what is to be passed over in its folder and below.  A
pattern with a slash in it, or in front of it, is for paths from that folder; any other is for names
at any depth.  A slash at the end restricts a pattern to folders, and a `!` in front takes back what
an earlier line says; the last line that fits decides.

Three kinds of ignore files are read.  Of one kind, the file in the nearest folder that says
anything decides; then the kinds decide in their order.
-/
import AccessorCatalog.Files.Glob

namespace AccessorCatalog.Files

/-! ## 1. Rules -/

/-- A line of an ignore file. -/
structure IgnoreRule where
  glob : Glob
  /-- The line takes back what earlier lines say. -/
  keeps : Bool
  foldersOnly : Bool

/-- The pattern of a line as it is matched, from the line without its marks. -/
def rulePattern (fromFolder : Bool) (body : Text) : Text :=
  let anywhere := !fromFolder && !body.contains '/' && body != "**".toList
  let pattern := if anywhere then "**/".toList ++ body else body
  if Text.endsWith "/**".toList pattern then pattern ++ "/*".toList else pattern

/-- The rule of the body of a line, with a slash at its end or not. -/
def ruleOfBody (keeps fromFolder : Bool) (body : Text) : Except GlobFault IgnoreRule :=
  match Text.beforeSuffix? ['/'] body with
  | some folder =>
    let folder := Text.withoutSuffix ['\\'] folder
    (Glob.ofSeparated (rulePattern fromFolder folder)).map fun glob => ⟨glob, keeps, true⟩
  | none => (Glob.ofSeparated (rulePattern fromFolder body)).map fun glob => ⟨glob, keeps, false⟩

/-- The rule of a line; none for a comment or an empty line. -/
def ruleOfLine (line : Text) : Except GlobFault (Option IgnoreRule) :=
  let trimmed := if Text.endsWith "\\ ".toList line then line else Text.trimEnd line
  match line, trimmed with
  | '#' :: _, _ => .ok none
  | _, [] => .ok none
  | _, '\\' :: '!' :: body => (ruleOfBody false false ('!' :: body)).map some
  | _, '\\' :: '#' :: body => (ruleOfBody false false ('#' :: body)).map some
  | _, '!' :: '/' :: body => (ruleOfBody true true body).map some
  | _, '!' :: body => (ruleOfBody true false body).map some
  | _, '/' :: body => (ruleOfBody false true body).map some
  | _, body => (ruleOfBody false false body).map some

/-! ## 2. Files -/

/-- The kinds of ignore files, in the order in which they decide. -/
inductive IgnoreKind where
  | plain
  | repository
  | exclusion
  deriving DecidableEq, Repr

namespace IgnoreKind

/-- All kinds, in the order in which they decide. -/
def all : List IgnoreKind :=
  [plain, repository, exclusion]

/-- Where a kind of ignore file lies in the folder that it is for, or in that of its repository. -/
def location : IgnoreKind → List Text
  | plain => [".ignore".toList]
  | repository => [".gitignore".toList]
  | exclusion => [".git".toList, "info".toList, "exclude".toList]

end IgnoreKind

/-- An ignore file. -/
structure IgnoreFile where
  kind : IgnoreKind
  /-- The names on the way to the folder that it is for. -/
  folder : List Text
  rules : List IgnoreRule
  /-- A line of it is no pattern, or it cannot be found out which file it is. -/
  faulty : Bool

namespace IgnoreFile

/-- The lines of a file, up to the first that is not well formed, without a byte order mark. -/
def linesOf (bytes : List UInt8) : List Text :=
  let decoded := (Text.byteLines bytes).map Text.decode?
  let lines := (decoded.takeWhile Option.isSome).filterMap id
  match lines with
  | first :: others => first.dropWhile (· == '\ufeff') :: others
  | [] => []

/-- Reads an ignore file for a folder. -/
def parse (kind : IgnoreKind) (folder : List Text) (bytes : List UInt8) : IgnoreFile :=
  let rules := (linesOf bytes).map ruleOfLine
  { kind
    folder
    rules := rules.filterMap fun rule => rule.toOption.join
    faulty := rules.any fun rule => rule.toOption.isNone }

/-- What a file says of a path, as the file sees it: that it is passed over, that it is kept, or
nothing. -/
def verdict? (file : IgnoreFile) (seen : Text) (isFolder : Bool) : Option Bool :=
  (file.rules.reverse.find? fun rule =>
    (isFolder || !rule.foldersOnly) && rule.glob.describes seen).map fun rule => !rule.keeps

/-- Whether a file is for a folder that a path lies in. -/
def covers (file : IgnoreFile) (path : List Text) : Bool :=
  file.folder.length < path.length && file.folder.isPrefixOf path

end IgnoreFile

/-- Whether a path is passed over by some ignore files, of which each has its view of the path. -/
def isIgnored (files : List IgnoreFile) (seen : IgnoreFile → Text) (path : List Text)
    (isFolder : Bool) : Bool :=
  let nearest :=
    (files.filter (·.covers path)).mergeSort fun a b => b.folder.length ≤ a.folder.length
  let verdict? := IgnoreKind.all.findSome? fun kind =>
    (nearest.filter fun file => file.kind = kind).findSome? fun file =>
      file.verdict? (seen file) isFolder
  verdict?.getD false

end AccessorCatalog.Files

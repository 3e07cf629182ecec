/-
# Actions

An action reads and changes a file tree and can fail.  What it has written before it fails stays
written.
-/
import AccessorCatalog.CommandLine.Failure

namespace AccessorCatalog.CommandLine

open Files (FileTree)

/-- A computation on a file tree that can fail. -/
abbrev Action : Type → Type := ExceptT Failure (StateM FileTree)

namespace Action

/-- A value that must be there. -/
def orFail {α : Type} (failure : Failure) : Option α → Action α
  | some a => pure a
  | none => throw failure

/-- Fails unless something holds of the tree. -/
def require (failure : Failure) (holds : FileTree → Bool) : Action Unit := do
  if holds (← get) then return else throw failure

/-- The text of a file. -/
def readText (kind : InputKind) (path : Text) : Action Text := do
  let bytes? := (← get).read? path
  orFail (.unreadable kind path) (bytes?.bind Text.decode?)

/-- What the text of a file says. -/
def load {α : Type} (kind : InputKind) (parse? : Text → Option α) (path : Text) : Action α := do
  orFail (.malformed kind path) (parse? (← readText kind path))

/-- Writes a file into a folder that is there. -/
def save (kind : OutputKind) (path text : Text) : Action Unit := do
  match (← get).write? path (Text.encode text) with
  | some tree => set tree
  | none => throw (.unwritable kind path)

/-- Writes a file, and makes its folder before. -/
def saveWithFolder (kind : OutputKind) (path text : Text) : Action Unit := do
  match (← get).makeFolders (Files.Path.folder path) with
  | .ok tree => set tree
  | .error fault => throw (.noFolder fault)
  save kind path text

/-- The names that a file lists, one a line; what follows a number sign is a comment. -/
def readNames (path : Text) : Action (List Text) := do
  let lines := Text.lines (← readText .names path)
  let names := lines.map fun line => Text.trim (Text.beforeChar '#' line)
  return names.filter fun name => !name.isEmpty

end Action
end AccessorCatalog.CommandLine

/-
# Class maps

A class map says for every name in which headers it is declared.  A plain name keeps the first
header; the name of a template keeps every header in which the template or an instance of it
appears.
-/
import AccessorCatalog.Table

namespace AccessorCatalog

/-- The headers of a name: a single one, or a list. -/
inductive HeaderPaths where
  | one (path : Text)
  | many (paths : List Text)
  deriving DecidableEq, Repr

namespace HeaderPaths

/-- All headers. -/
def paths : HeaderPaths → List Text
  | one path => [path]
  | many paths => paths

/-- The first header; nothing for an empty list. -/
def primary (h : HeaderPaths) : Text :=
  h.paths.headD []

/-- Adds a header, unless it is there already. -/
def add (h : HeaderPaths) (path : Text) : HeaderPaths :=
  if h.paths.contains path then h else many (h.paths ++ [path])

end HeaderPaths

/-- The headers of every known name. -/
abbrev ClassMap := Table HeaderPaths

namespace ClassMap

/-- Adds a name with its header; a name that is there keeps what it has. -/
def insertPlain (m : ClassMap) (name header : Text) : ClassMap :=
  m.insertNew name (.one header)

/-- Adds a header to the name of a template. -/
def insertTemplate (m : ClassMap) (name header : Text) : ClassMap :=
  match m.get? name with
  | some paths => m.insert name (paths.add header)
  | none => m.insert name (.one header)

/-- The first header of a name. -/
def header? (m : ClassMap) (name : Text) : Option Text :=
  (m.get? name).map HeaderPaths.primary

end ClassMap
end AccessorCatalog

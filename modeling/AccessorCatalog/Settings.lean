/-
# Settings

The settings of a run, and how they are written in a document: a record in which every field may be
left out.
-/
import AccessorCatalog.Json.Reader
import AccessorCatalog.Outline.ClassOutline

namespace AccessorCatalog

/-- The settings of a run. -/
structure Settings where
  /-- The version written into every catalog. -/
  version : Text := []
  /-- The braces that the search for the end of a construct may read. -/
  maxConstruct : Nat := Outline.defaultLimit
  /-- The distance up to which base classes are followed. -/
  maxBaseDepth : Nat := 20
  /-- The links that a chained accessor may have. -/
  maxCompoundDepth : Nat := 3
  /-- Whether accessors are chained at all. -/
  expandCompound : Bool := true
  /-- Patterns of paths that are never scanned. -/
  exclude : List Text := ["**/classes.h".toList, "**/print.h".toList]
  /-- The extensions of headers. -/
  extensions : List Text := ["h".toList, "hh".toList, "hpp".toList, "hxx".toList]
  /-- The number of workers asked for; the result of a run does not depend on it. -/
  jobs? : Option Nat := none
  deriving DecidableEq, Repr

namespace Settings

/-- Reads settings. -/
def ofJson? (document : Json) : Option Settings := do
  let r ← document.toRecord? ["version", "max_construct", "max_base_depth", "max_compound_depth",
    "expand_compound", "exclude", "extensions", "jobs"]
  let default : Settings := {}
  return {
    version := ← r.withDefault "version" default.version Json.toText?
    maxConstruct := ← r.withDefault "max_construct" default.maxConstruct Json.toCount?
    maxBaseDepth := ← r.withDefault "max_base_depth" default.maxBaseDepth Json.toCount?
    maxCompoundDepth := ← r.withDefault "max_compound_depth" default.maxCompoundDepth Json.toCount?
    expandCompound := ← r.withDefault "expand_compound" default.expandCompound Json.toBool?
    exclude := ← r.withDefault "exclude" default.exclude (Json.toList? Json.toText?)
    extensions := ← r.withDefault "extensions" default.extensions (Json.toList? Json.toText?)
    jobs? := ← r.withDefault "jobs" default.jobs? (Json.toOption? Json.toCount?) }

/-- Reads the text of a settings file. -/
def parse? (t : Text) : Option Settings :=
  (Json.parse? t).bind ofJson?

end Settings
end AccessorCatalog

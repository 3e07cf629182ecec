/-
# Scanning roots

A survey finds its headers below roots of a file tree.  All roots are searched before any header is
read; when one cannot be searched, nothing is read and the search stays unfinished in the report.
Headers are texts in UTF-8, with whatever is not replaced.
-/
import AccessorCatalog.Files.HeaderSearch
import AccessorCatalog.Survey.Scan

namespace AccessorCatalog.Survey

open Files (FileTree FoundHeader HeaderFilter SearchFault)

/-- A root that cannot be searched, with the reason. -/
structure RootFault where
  root : Text
  reason : SearchFault
  deriving DecidableEq, Repr

/-- The headers below a root. -/
def headersBelow (settings : Settings) (tree : FileTree) (root : Text) :
    Except RootFault (List FoundHeader) :=
  let found := do tree.headers (← HeaderFilter.ofPatterns settings.extensions settings.exclude) root
  found.mapError (RootFault.mk root)

/-- The headers below several roots, root by root. -/
def discover (settings : Settings) (tree : FileTree) (roots : List Text) :
    Except RootFault (List FoundHeader) :=
  (roots.mapM (headersBelow settings tree)).map List.flatten

/-- A header as it is read. -/
def headerOf (found : FoundHeader) : Header :=
  ⟨found.path, Text.decodeLossy found.bytes⟩

/-- Scans the headers below some roots. -/
def scanRoots (s : Survey) (tree : FileTree) (roots : List Text) : Survey × Option RootFault :=
  let s := startPhase "discover" s
  match discover s.knowledge.settings tree roots with
  | .error fault => (s, some fault)
  | .ok found => (scan (inPhase "read" id (endPhase "discover" s)) (found.map headerOf), none)

end AccessorCatalog.Survey

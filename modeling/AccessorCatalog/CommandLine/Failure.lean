/-
# Failures

Why a command ends without having done what it was asked to do.  A failure is a cause; its wording
is `Failure.message`.
-/
import AccessorCatalog.Files.FileTree
import AccessorCatalog.Survey.Roots

namespace AccessorCatalog.CommandLine

open Files (FolderFault)
open Survey (RootFault)

/-- The files that commands read. -/
inductive InputKind where
  | settings
  | dump
  | classMap
  | names
  deriving DecidableEq, Repr

/-- The files that commands write. -/
inductive OutputKind where
  | classMap
  | catalog
  | report
  | classList
  deriving DecidableEq, Repr

/-- Why a command fails. -/
inductive Failure where
  /-- A file is not there, or is no text. -/
  | unreadable (kind : InputKind) (path : Text)
  /-- The text of a file is not what it should be. -/
  | malformed (kind : InputKind) (path : Text)
  | unwritable (kind : OutputKind) (path : Text)
  /-- The folder of an output file cannot be made. -/
  | noFolder (fault : FolderFault)
  /-- The folder for the catalogs cannot be made. -/
  | noShelf (outFolder : Text)
  | missingRoot (root : Text)
  | unsearchable (fault : RootFault)
  | nothingToUpdate (path : Text)
  | missingPrevious (path : Text)
  | missingClassMap (path : Text)
  | unknownClass (name : Text)
  deriving DecidableEq, Repr

/-- What is done with a file when reading it fails. -/
def InputKind.reading : InputKind → String
  | settings => "reading config "
  | dump => "reading reflection dump "
  | classMap => "reading class map "
  | names => "reading "

/-- What is done with a file when its text is not what it should be. -/
def InputKind.parsing : InputKind → String
  | settings => "parsing config "
  | dump => "loading reflection dump "
  | classMap => "parsing class map "
  | names => "parsing "

/-- What is done with a file when writing it fails. -/
def OutputKind.writing : OutputKind → String
  | classMap => "writing class map "
  | catalog => "writing catalog "
  | report => "writing report "
  | classList => "writing class list "

/-- The wording of a folder's fault. -/
def folderMessage : FolderFault → String
  | .taken => "File exists (os error 17)"
  | .blocked => "Not a directory (os error 20)"

/-- The wording of a root's fault. -/
def rootMessage (fault : RootFault) : Text :=
  match fault.reason with
  | .invalidPattern _ => "configuring scan of ".toList ++ fault.root
  | .missingRoot => "nothing to search at ".toList ++ fault.root
  | .faultyIgnoreFile => "invalid line in an ignore file above ".toList ++ fault.root

/-- The wording of a failure. -/
def Failure.message : Failure → Text
  | unreadable kind path => kind.reading.toList ++ path
  | malformed kind path => kind.parsing.toList ++ path
  | unwritable kind path => kind.writing.toList ++ path
  | noFolder fault => (folderMessage fault).toList
  | noShelf outFolder => "creating ".toList ++ outFolder
  | missingRoot root => "header root ".toList ++ root ++ " does not exist".toList
  | unsearchable fault => rootMessage fault
  | nothingToUpdate path => "--update given but ".toList ++ path ++ " does not exist".toList
  | missingPrevious path =>
    "previous catalog directory ".toList ++ path ++ " does not exist".toList
  | missingClassMap path =>
    "class map ".toList ++ path ++ " does not exist, run \x60headercat map\x60 first".toList
  | unknownClass name => name ++ " is not defined in any scanned header".toList

end AccessorCatalog.CommandLine

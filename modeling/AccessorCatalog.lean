import AccessorCatalog.Main
import AccessorCatalog.Proofs.Braces
import AccessorCatalog.Proofs.Forest
import AccessorCatalog.Proofs.Lines
import AccessorCatalog.Proofs.Lexemes
import AccessorCatalog.Proofs.Spacing
import AccessorCatalog.Proofs.Comments
import AccessorCatalog.Proofs.MarkLine
import AccessorCatalog.Proofs.Pieces
import AccessorCatalog.Proofs.Preambles
import AccessorCatalog.Proofs.Marking
import AccessorCatalog.Proofs.Substitution
import AccessorCatalog.Proofs.Search
import AccessorCatalog.Proofs.Layout
import AccessorCatalog.Proofs.Typedefs
import AccessorCatalog.Proofs.Segmentation
import AccessorCatalog.Proofs.Walk
import AccessorCatalog.Proofs.Acceptance
import AccessorCatalog.Proofs.Bodies
import AccessorCatalog.Proofs.LineEnds
import AccessorCatalog.Proofs.OwnLines
import AccessorCatalog.Proofs.PublicSections
import AccessorCatalog.Proofs.Columns
import AccessorCatalog.Proofs.CatalogRoundTrip
import AccessorCatalog.Proofs.Histories
import AccessorCatalog.Proofs.Chaining
import AccessorCatalog.Proofs.Encoding
import AccessorCatalog.Proofs.ListedLinks
import AccessorCatalog.Proofs.Shelves
import AccessorCatalog.Proofs.Registration
import AccessorCatalog.Proofs.Nearest
import AccessorCatalog.Proofs.Tallies
import AccessorCatalog.Proofs.Documents
import AccessorCatalog.Proofs.Routes
import AccessorCatalog.Proofs.BaseClasses
import AccessorCatalog.Proofs.QualifiedNames
import AccessorCatalog.Proofs.Builtins
import AccessorCatalog.Proofs.ReturnTypes
import AccessorCatalog.Proofs.TopLevel
import AccessorCatalog.Proofs.CutPlaces
import AccessorCatalog.Proofs.Callbacks
import AccessorCatalog.Proofs.TidyTypes
import AccessorCatalog.Proofs.Declarators
import AccessorCatalog.Proofs.CanonicalText
import AccessorCatalog.Proofs.CanonicalTypes
import AccessorCatalog.Proofs.SpreadBrackets
import AccessorCatalog.Proofs.CanonicalSignatures
import AccessorCatalog.Proofs.OwnNames
import AccessorCatalog.Proofs.ArgumentNames
import AccessorCatalog.Proofs.ChainBounds
import AccessorCatalog.Proofs.CarriageReturns
import AccessorCatalog.Proofs.MatchingBraces
import AccessorCatalog.Proofs.MarkWords
import AccessorCatalog.Proofs.LineLayout
import AccessorCatalog.Proofs.ClassTitles
import AccessorCatalog.Proofs.RecentNames
import AccessorCatalog.Proofs.NormalSpelling
import AccessorCatalog.Proofs.ClassLists
import AccessorCatalog.Proofs.InheritanceCycles

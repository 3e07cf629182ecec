/-
# What can be wrong with a header

Taking a header apart or decoding one of its declarations can fail for four causes.  `message` is
the only place where a cause is put into words.
-/
import AccessorCatalog.Outline.Mark

namespace AccessorCatalog

/-- Why the braces of a construct, or of a whole header, do not fit. -/
inductive BraceFault where
  /-- More braces than allowed were read before the close was found. -/
  | beyondLimit (limit : Nat)
  | neverClosed
  | strayClose
  | unclosedOpen
  deriving DecidableEq, Repr

/-- Why a header or a declaration cannot be read. -/
inductive ParseError where
  /-- A brace fault of a header, at an offset in bytes. -/
  | malformedConstruct (header : Text) (offset : Nat) (fault : BraceFault)
  /-- A mark of a header without the partner that it needs. -/
  | unbalancedMark (header : Text) (mark : Outline.Mark)
  /-- A declaration that gives no signature. -/
  | undecodable (text : Text)
  /-- A class with base classes beyond a depth. -/
  | basesTooDeep (className : Text) (depth : Nat)
  deriving DecidableEq

/-- The wording of a brace fault. -/
def BraceFault.message : BraceFault → Text
  | .beyondLimit limit =>
    "cannot find the end of the construct within ".toList ++ Text.ofNat limit ++ " braces".toList
  | .neverClosed => "boundary mismatch, the construct is never closed".toList
  | .strayClose => "closing brace without a matching open".toList
  | .unclosedOpen => "opening brace is never closed".toList

namespace ParseError

/-- The wording of an error. -/
def message : ParseError → Text
  | .malformedConstruct header offset fault =>
    header ++ ": cannot find the end of the construct at offset ".toList ++ Text.ofNat offset ++
      ": ".toList ++ fault.message
  | .unbalancedMark header mark =>
    header ++ ": placeholder ".toList ++ mark.render ++ " has no matching partner".toList
  | .undecodable text => "cannot decode signature \x60".toList ++ text ++ "\x60".toList
  | .basesTooDeep className depth =>
    "base class chain of ".toList ++ className ++ " is deeper than ".toList ++ Text.ofNat depth

/-- The header that an error belongs to, where it belongs to one. -/
def header? : ParseError → Option Text
  | .malformedConstruct header _ _ => some header
  | .unbalancedMark header _ => some header
  | _ => none

end ParseError
end AccessorCatalog

/-
# Which declarations make accessors

A method is worth listing if it is neither constructor, destructor nor operator, has none of the
skipped names, returns something of use and takes only arguments of simple types.  A data member is
worth listing if it has a name that is not skipped and a type of use.  Types and signatures are
listed in their canonical spelling.
-/
import AccessorCatalog.Accessor.Basic
import AccessorCatalog.Accessor.ReturnType
import AccessorCatalog.Declaration.Signature

namespace AccessorCatalog.Selection

open Declaration

/-- The starts of names that are never listed. -/
def skippedHeads : List Text :=
  ["operator".toList, "__get".toList, "const_iterator".toList, "iterator".toList, "clone".toList]

/-- Whether a name is never listed. -/
def isSkippedName (name : Text) : Bool :=
  skippedHeads.any fun head => Text.startsWith head name

/-- The pieces of text that keep a line out of a listing. -/
def skippedPieces : List Text :=
  ["TClass".toList, "TBuffer".toList, "TMember".toList, "operator".toList]

/-- Whether a line of type and signature is never listed. -/
def isSkippedLine (line : Text) : Bool :=
  (skippedPieces.any fun piece => Text.hasPiece piece line) || Text.startsWith "__".toList line

/-- The name under which the argument at a position is called; an unnamed one is numbered. -/
def argumentName (position : Nat) (arg : Argument) : Text :=
  if arg.name.isEmpty then 'x' :: Text.ofNat position else arg.name

/-- The arguments, each under the name by which it is called. -/
def namedArguments (args : List Argument) : List Argument :=
  args.zipIdx.map fun (arg, position) => { arg with name := argumentName position arg }

/-- The declaration of a named argument. -/
def declareArgument (arg : Argument) : Text :=
  arg.type ++ ' ' :: arg.name ++
    (match arg.default? with
      | some value => '=' :: value
      | none => [])

/-- The accessor that a method of a class makes, if it is worth listing. -/
def method? (s : Signature) (className : Text) : Option MethodAccessor :=
  let returnType := canonical s.returnType
  let args := namedArguments s.args
  let signature := canonical (Signature.applied s.name (args.map declareArgument))
  if s.kind className ≠ .plain then none
  else if isSkippedName s.name then none
  else if ReturnType.classify returnType = .unusable then none
  else if !s.args.all fun arg => isSimpleType arg.type then none
  else if isSkippedLine (returnType ++ [' ', ' '] ++ signature) then none
  else
    some {
      owner := className
      returnType
      name := s.name
      signature
      call := Signature.applied s.name (args.map Argument.name)
      requiredArgs := s.requiredArgs
      defaultedArgs := s.defaultedArgs }

/-- **When a method is worth listing**, and as what. -/
theorem method?_eq_some_iff {s : Signature} {className : Text} {m : MethodAccessor} :
    method? s className = some m ↔
      s.kind className = .plain ∧ isSkippedName s.name = false ∧
      ReturnType.classify (canonical s.returnType) ≠ .unusable ∧
      (∀ arg ∈ s.args, isSimpleType arg.type = true) ∧
      isSkippedLine (m.returnType ++ [' ', ' '] ++ m.signature) = false ∧
      m = ⟨className, canonical s.returnType, s.name,
        canonical (Signature.applied s.name ((namedArguments s.args).map declareArgument)),
        Signature.applied s.name ((namedArguments s.args).map Argument.name),
        s.requiredArgs, s.defaultedArgs⟩ := by
  unfold method?
  simp only [ne_eq, Option.ite_none_left_eq_some, Decidable.not_not, Bool.not_eq_true,
    Bool.not_eq_false', List.all_eq_true, Option.some.injEq]
  constructor
  · rintro ⟨plain, name, use, simple, line, rfl⟩
    exact ⟨plain, name, use, simple, line, rfl⟩
  · rintro ⟨plain, name, use, simple, line, rfl⟩
    exact ⟨plain, name, use, simple, line, rfl⟩

/-- The accessor that a data member of a class makes, if it is worth listing. -/
def member? (m : Member) (className : Text) : Option MemberAccessor :=
  let type := canonical m.type
  if m.name.isEmpty || isSkippedName m.name then none
  else if ReturnType.classify type = .unusable then none
  else some ⟨className, type, m.name⟩

end AccessorCatalog.Selection

/-
# A listed method is read back from its line

A method that a signature in canonical form declares is listed without its qualifier, and with a
name for every argument (`listed`).  That is a signature in canonical form again, so decoding reads
it from the line (`decodeMethod_listed`).  It makes the same accessor as the one that was declared,
for every class of which it is no constructor or destructor (`method?_listed`): the name by which an
unnamed argument was listed is given from then on, and selection sees nothing else that has changed.
-/
import AccessorCatalog.Proofs.ArgumentNames
import AccessorCatalog.Proofs.Builtins
import AccessorCatalog.Proofs.CanonicalSignatures

namespace AccessorCatalog

open Declaration

namespace Selection

/-! ## 1. Names by place -/

theorem isWord_of_isDigit {c : Char} (digit : c.isDigit = true) : Text.isWord c = true := by
  have small : c.toNat < 128 := by
    have bounds := Bool.and_eq_true_iff.mp digit
    have above : c.toNat ≤ 57 := of_decide_eq_true bounds.2
    omega
  rw [Text.isWord, if_pos small, Char.isAlphanum, digit, Bool.or_true, Bool.true_or]

/-- The name that a place makes can be given in a declaration. -/
theorem isIdentifier_placeName (place : Nat) : ClassName.IsIdentifier (placeName place) where
  filled := placeName_ne_nil place
  word c mem := by
    rcases List.mem_cons.mp mem with rfl | digit
    · decide
    · exact isWord_of_isDigit (Nat.isDigit_of_mem_toDigits (by decide) (by decide) digit)
  start := by
    rintro _ ⟨⟩
    decide

theorem startsWithBuiltin_placeName (place : Nat) :
    startsWithBuiltin (placeName place) = false := by
  have solid : ∀ c ∈ placeName place, Text.isBlank c = false := fun c mem =>
    Text.isBlank_of_isWord ((isIdentifier_placeName place).word c mem)
  have others : ∀ w ∈ builtinSpellings, w ≠ [] ∧ w.head? ≠ some 'x' := by decide +kernel
  refine Bool.eq_false_iff.mpr fun starts => ?_
  rw [startsWithBuiltin, (Text.IsSpaced.of_solid solid).trim] at starts
  obtain ⟨w, spelled, rest, cut, -⟩ := hasBuiltinHead_iff.mp starts
  obtain ⟨filled, other⟩ := others w spelled
  obtain ⟨c, w, rfl⟩ := List.exists_cons_of_ne_nil filled
  obtain ⟨rfl, -⟩ := List.cons.inj cut
  exact other rfl

/-! ## 2. Named arguments -/

variable {args : List Argument} {a : Argument}

/-- What does not look at names sees no difference. -/
theorem map_namedArguments {α : Type} {f : Argument → α}
    (same : ∀ (a : Argument) (name : Text), f { a with name } = f a) :
    (namedArguments args).map f = args.map f := by
  have firsts := List.zipIdx_map_fst 0 args
  calc
    (namedArguments args).map f = (args.zipIdx.map Prod.fst).map f := by
      rw [namedArguments, List.map_map, List.map_map]
      refine List.map_congr_left fun p _ => ?_
      obtain ⟨a, place⟩ := p
      exact same a (argumentName place a)
    _ = args.map f := by rw [firsts]

theorem exists_of_mem_namedArguments (mem : a ∈ namedArguments args) :
    ∃ place, ∃ b ∈ args, a = { b with name := argumentName place b } := by
  obtain ⟨⟨b, place⟩, here, rfl⟩ := List.mem_map.mp mem
  exact ⟨place, b, List.fst_mem_of_mem_zipIdx here, rfl⟩

theorem argumentName_ne_nil (place : Nat) (a : Argument) : argumentName place a ≠ [] := by
  by_cases unnamed : a.name = []
  · rw [argumentName_unnamed unnamed]
    exact placeName_ne_nil place
  · rw [argumentName_given unnamed]
    exact unnamed

theorem name_ne_nil_of_mem_namedArguments (mem : a ∈ namedArguments args) : a.name ≠ [] := by
  obtain ⟨place, b, -, rfl⟩ := exists_of_mem_namedArguments mem
  exact argumentName_ne_nil place b

/-- Arguments that have names keep them. -/
theorem namedArguments_of_named (named : ∀ a ∈ args, a.name ≠ []) : namedArguments args = args := by
  have kept : ∀ p ∈ args.zipIdx, { p.1 with name := argumentName p.2 p.1 } = p.1 := by
    intro p here
    rw [argumentName_given (named p.1 (List.fst_mem_of_mem_zipIdx here))]
  exact (List.map_congr_left kept).trans (List.zipIdx_map_fst 0 args)

/-- A named argument is declared as it is written. -/
theorem map_declareArgument (args : List Argument) :
    (namedArguments args).map declareArgument = (namedArguments args).map Argument.render := by
  refine List.map_congr_left fun a mem => ?_
  have given : a.name.isEmpty = false := by simpa using name_ne_nil_of_mem_namedArguments mem
  rw [Argument.render, given]
  rfl

/-! ## 3. Listed signatures -/

variable {s : Signature} {m : MethodAccessor} {owner : Text}

/-- A signature as it is listed: without a qualifier, and with all arguments named. -/
def listed (s : Signature) : Signature where
  returnType := s.returnType
  name := s.name
  args := namedArguments s.args
  qualifier := []

theorem inCanonicalForm_named (form : a.InCanonicalForm) (place : Nat) :
    Argument.InCanonicalForm { a with name := argumentName place a } where
  type := by
    rcases form.type with ⟨unnamed, typed⟩ | named
    · have scalar : a.type = a.type ++ [] := (List.append_nil _).symm
      have no_const : placeName place ≠ "const".toList := fun same =>
        absurd (List.cons.inj same).1 (by decide)
      rw [argumentName_unnamed unnamed]
      exact .inr ⟨⟨a.type, [], typed, .inl rfl, scalar⟩, isIdentifier_placeName place, no_const,
        startsWithBuiltin_placeName place⟩
    · rw [argumentName_given named.2.1.filled]
      exact .inr named
  not_void := form.not_void
  value := form.value

/-- **A signature is listed in canonical form**, if it has it. -/
theorem inCanonicalForm_listed (form : s.InCanonicalForm) : (listed s).InCanonicalForm where
  returnType := form.returnType
  name := form.name
  no_keyword := form.no_keyword
  no_operator := form.no_operator
  args a mem := by
    obtain ⟨place, b, here, rfl⟩ := exists_of_mem_namedArguments mem
    exact inCanonicalForm_named (form.args b here) place
  qualifier := List.mem_cons_self

/-- A listed signature is read from its type and its text. -/
theorem decodeMethod_listed (form : s.InCanonicalForm) (typed : s.returnType ≠ []) :
    decodeMethod (s.returnType ++ ' ' ::
      Signature.applied s.name ((namedArguments s.args).map declareArgument)) = .ok (listed s) := by
  have form' := inCanonicalForm_listed form
  have line : (listed s).render = s.returnType ++ ' ' ::
      Signature.applied s.name ((namedArguments s.args).map declareArgument) := by
    have some_type : s.returnType.isEmpty = false := by simpa using typed
    rw [form'.render_eq, map_declareArgument]
    simp [listed, returnText, argsText, qualifierText, Signature.applied, some_type]
  rw [← line]
  exact decodeMethod_of_decodeMethodWith form'.parenthesis_mem_render form'.decodeMethodWith_render

/-! ## 4. Their accessors -/

theorem returnType_ne_nil (selected : method? s owner = some m) : s.returnType ≠ [] := by
  obtain ⟨-, -, useful, -⟩ := method?_eq_some_iff.mp selected
  intro untyped
  rw [untyped] at useful
  exact useful (by decide +kernel)

theorem requiredArgs_listed (s : Signature) : (listed s).requiredArgs = s.requiredArgs := by
  have defaults : (namedArguments s.args).map Argument.default? = s.args.map Argument.default? :=
    map_namedArguments fun _ _ => rfl
  have required (args : List Argument) : (args.takeWhile fun a => a.default?.isNone).length =
      ((args.map Argument.default?).takeWhile Option.isNone).length := by
    rw [List.takeWhile_map, List.length_map]
    rfl
  rw [Signature.requiredArgs, Signature.requiredArgs, required, required, ← defaults]
  rfl

/-- **A listed signature makes the accessor that was listed**, now of the class that it is read for,
unless it is a constructor or destructor of that. -/
theorem method?_listed (selected : method? s owner = some m) (className : Text) :
    method? (listed s) className =
      if s.kind className = .plain then some { m with owner := className } else none := by
  obtain ⟨-, name, useful, simple, line, rfl⟩ := method?_eq_some_iff.mp selected
  have same_kind : (listed s).kind className = s.kind className := rfl
  split
  · next plain =>
    have named : namedArguments (listed s).args = namedArguments s.args :=
      namedArguments_of_named fun _ => name_ne_nil_of_mem_namedArguments
    have simple' : ∀ arg ∈ (listed s).args, isSimpleType arg.type = true := by
      intro arg mem
      obtain ⟨place, b, here, rfl⟩ := exists_of_mem_namedArguments mem
      exact simple b here
    have lengths : (listed s).args.length = s.args.length := by
      simp [listed, namedArguments]
    refine method?_eq_some_iff.mpr ⟨same_kind.trans plain, name, useful, simple', line, ?_⟩
    rw [named, Signature.defaultedArgs, Signature.defaultedArgs, requiredArgs_listed, lengths]
    rfl
  · next other =>
    refine Option.eq_none_iff_forall_ne_some.mpr fun m' found => other ?_
    exact same_kind.symm.trans (method?_eq_some_iff.mp found).1

end Selection
end AccessorCatalog

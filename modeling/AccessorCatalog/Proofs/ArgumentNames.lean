/-
# Names of arguments

An accessor is listed with a name for each of its arguments.  An argument that its declaration
leaves unnamed is called by its place: the first one is `x0`, the second one `x1`.  The names that
other arguments are given have no say in that.

`selected_names` says when the names are different from each other: the given ones are, and none of
them is the name that the place of an unnamed argument makes.  Nothing else can clash, since two
places make two names (`placeName_inj`).  In `selected_names_clash` a declaration gives its first
argument the name that the second one gets.
-/
import AccessorCatalog.Accessor.Selection

namespace AccessorCatalog.Selection

open Declaration

/-! ## 1. Given names and names by place -/

/-- The name that a place makes. -/
def placeName (place : Nat) : Text :=
  'x' :: Text.ofNat place

theorem placeName_inj {i j : Nat} : placeName i = placeName j ↔ i = j := by
  refine ⟨fun same => ?_, congrArg placeName⟩
  have digits : Nat.toDigits 10 i = Nat.toDigits 10 j := (List.cons.inj same).2
  calc
    i = Nat.ofDigitChars 10 (Nat.toDigits 10 i) 0 := Nat.ofDigitChars_ten_toDigits.symm
    _ = Nat.ofDigitChars 10 (Nat.toDigits 10 j) 0 := by rw [digits]
    _ = j := Nat.ofDigitChars_ten_toDigits

theorem placeName_ne_nil (place : Nat) : placeName place ≠ [] :=
  List.cons_ne_nil _ _

theorem argumentName_given {arg : Argument} (given : arg.name ≠ []) (place : Nat) :
    argumentName place arg = arg.name := by
  rw [argumentName, if_neg (by simpa using given)]

theorem argumentName_unnamed {arg : Argument} (unnamed : arg.name = []) (place : Nat) :
    argumentName place arg = placeName place := by
  rw [argumentName, if_pos (by simpa using unnamed)]
  rfl

/-- The names that declarations give. -/
def givenNames (args : List Argument) : List Text :=
  (args.map Argument.name).filter fun name => !name.isEmpty

/-- The names under which arguments are called. -/
def callNames (args : List Argument) : List Text :=
  (namedArguments args).map Argument.name

/-- No argument is given the name that the place of an unnamed one makes. -/
def LeavesPlaceNames (args : List Argument) : Prop :=
  ∀ unnamed ∈ args.zipIdx, unnamed.1.name = [] → ∀ other ∈ args, other.name ≠ placeName unnamed.2

instance (args : List Argument) : Decidable (LeavesPlaceNames args) :=
  inferInstanceAs (Decidable (∀ unnamed ∈ args.zipIdx, _ → ∀ other ∈ args, _))

/-! ## 2. When names differ -/

variable {args : List Argument}

theorem nodup_givenNames_iff :
    (givenNames args).Nodup ↔ ∀ i j (hi : i < args.length) (hj : j < args.length),
    i < j → args[i].name ≠ [] → args[j].name ≠ [] → args[i].name ≠ args[j].name := by
  unfold givenNames List.Nodup
  rw [List.pairwise_filter, List.pairwise_map, List.pairwise_iff_getElem]
  simp

theorem nodup_callNames_iff :
    (callNames args).Nodup ↔ ∀ i j (hi : i < args.length) (hj : j < args.length),
    i < j → argumentName i args[i] ≠ argumentName j args[j] := by
  unfold callNames namedArguments List.Nodup
  rw [List.map_map, List.pairwise_map, List.pairwise_iff_getElem]
  simp

theorem leavesPlaceNames_iff : LeavesPlaceNames args ↔
    ∀ i j (_ : i < args.length) (_ : j < args.length),
      args[i].name = [] → args[j].name ≠ placeName i := by
  constructor
  · intro leaves i j hi hj unnamed
    have place : (args[i], i) ∈ args.zipIdx :=
      List.mem_zipIdx_iff_getElem?.mpr (List.getElem?_eq_getElem hi)
    exact leaves _ place unnamed _ (List.getElem_mem hj)
  · rintro leaves ⟨arg, i⟩ place unnamed other mem
    have here : args[i]? = some arg := List.mem_zipIdx_iff_getElem?.mp place
    obtain ⟨hi, rfl⟩ := List.getElem?_eq_some_iff.mp here
    obtain ⟨j, hj, rfl⟩ := List.mem_iff_getElem.mp mem
    exact leaves i j hi hj unnamed

/-- **When arguments are called by different names.**  The given names have to differ, and to leave
alone those that places make. -/
theorem nodup_callNames :
    (callNames args).Nodup ↔ (givenNames args).Nodup ∧ LeavesPlaceNames args := by
  rw [nodup_callNames_iff, nodup_givenNames_iff, leavesPlaceNames_iff]
  constructor
  · intro differ
    constructor
    · intro i j hi hj lt given given'
      rw [← argumentName_given given i, ← argumentName_given given' j]
      exact differ i j hi hj lt
    · intro i j hi hj unnamed same
      have given : args[j].name ≠ [] := same ▸ placeName_ne_nil i
      have called : argumentName j args[j] = argumentName i args[i] := by
        rw [argumentName_given given, argumentName_unnamed unnamed, same]
      rcases Nat.lt_trichotomy i j with lt | rfl | lt
      · exact differ i j hi hj lt called.symm
      · exact given unnamed
      · exact differ j i hj hi lt called
  · rintro ⟨differ, leaves⟩ i j hi hj lt
    by_cases given : args[i].name = [] <;> by_cases given' : args[j].name = []
    · rw [argumentName_unnamed given, argumentName_unnamed given']
      exact fun same => Nat.ne_of_lt lt (placeName_inj.mp same)
    · rw [argumentName_unnamed given, argumentName_given given']
      exact (leaves i j hi hj given).symm
    · rw [argumentName_given given, argumentName_unnamed given']
      exact leaves j i hj hi given'
    · rw [argumentName_given given, argumentName_given given']
      exact differ i j hi hj lt given given'

/-! ## 3. Names in an accessor -/

/-- **The names that an accessor lists.**  Its call and its signature use one name for each
argument, the given one or that of its place.  These names differ from each other exactly if the
given ones do and none of them is the name that the place of an unnamed argument makes. -/
theorem selected_names {s : Signature} {className : Text} {m : MethodAccessor}
    (selected : method? s className = some m) :
    m.call = Signature.applied s.name (callNames s.args) ∧
      m.signature =
        canonical (Signature.applied s.name ((namedArguments s.args).map declareArgument)) ∧
      (∀ place, (callNames s.args)[place]? = s.args[place]?.map (argumentName place)) ∧
      ((callNames s.args).Nodup ↔ (givenNames s.args).Nodup ∧ LeavesPlaceNames s.args) := by
  have called (place : Nat) :
      (callNames s.args)[place]? = s.args[place]?.map (argumentName place) := by
    simp [callNames, namedArguments, Function.comp_def]
  obtain ⟨-, -, -, -, -, rfl⟩ := method?_eq_some_iff.mp selected
  exact ⟨rfl, rfl, called, nodup_callNames⟩

/-- A method with a named argument, an unnamed one and one with a default value. -/
def scaledResidual : Signature :=
  ⟨"double".toList, "residual".toList,
    [⟨"int".toList, "layer".toList, none⟩, ⟨"unsigned int".toList, [], none⟩,
      ⟨"float".toList, "scale".toList, some "1.0".toList⟩], "const".toList⟩

/-- The accessor that it makes. -/
def scaledAccessor : MethodAccessor :=
  ⟨"reco::Track".toList, "double".toList, "residual".toList,
    "residual(int layer, unsigned int x1, float scale=1.0)".toList,
    "residual(layer, x1, scale)".toList, 2, 1⟩

theorem selected_names_scaled :
    method? scaledResidual "reco::Track".toList = some scaledAccessor ∧
      callNames scaledResidual.args = ["layer".toList, "x1".toList, "scale".toList] ∧
      scaledAccessor.call = Signature.applied "residual".toList (callNames scaledResidual.args) ∧
      (callNames scaledResidual.args).Nodup := by
  have selected : method? scaledResidual "reco::Track".toList = some scaledAccessor := by
    decide +kernel
  obtain ⟨call, -, -, differ⟩ := selected_names selected
  exact ⟨selected, by decide +kernel, call, differ.mpr ⟨by decide +kernel, by decide +kernel⟩⟩

/-- A method whose first argument has the name that the place of the second one makes. -/
def takenPlace : Signature :=
  ⟨"int".toList, "f".toList, [⟨"int".toList, "x1".toList, none⟩, ⟨"int".toList, [], none⟩], []⟩

/-- **Two arguments can be called by one name**, though only one of them is given it. -/
theorem selected_names_clash :
    (givenNames takenPlace.args).Nodup ∧
      (method? takenPlace "C".toList).map MethodAccessor.call = some "f(x1, x1)".toList ∧
      (method? takenPlace "C".toList).map MethodAccessor.signature =
        some "f(int x1, int x1)".toList ∧
      ¬ (callNames takenPlace.args).Nodup := by
  decide +kernel

end AccessorCatalog.Selection

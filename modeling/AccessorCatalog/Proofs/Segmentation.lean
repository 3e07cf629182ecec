/-
# Segmentation

A header without backslashes is segmented by two passes over one text, `Passes`, and everything that
is said of a segmented header here follows from what a single pass keeps.

* `segment_eq_ok_iff`: the check of the marks never decides anything; the segmentation succeeds when
  both searches do and the braces balance;
* `segment_error`: a header that is refused is refused for its braces;
* `segment_wellMarked`: the marks of a segmented header are the keys of its fragments, each occurs
  once, they nest, and those of each pass are numbered in the order of the text;
* `solid_restore_tokens`: with the fragments in place of their marks, the tokens are the text again,
  but for blanks.

Marks are read back by their numbers, and numbers are read below 2^64 only, so what is said of the
marks of a segmented header is said of texts of fewer characters than that: of every text whose
length is a size.
-/
import AccessorCatalog.Proofs.Search
import AccessorCatalog.Proofs.Typedefs

namespace AccessorCatalog.Outline

/-! ## 1. Two passes -/

/-- What the two passes of the segmentation make of a text. -/
structure Passes (t : Text) (ps qs : List Piece) : Prop where
  namespaces : Marking namespacePass 0 none [] (chars t) ps
  classes : Marking classPass 0 none [] ps qs

theorem tidy_chars {t : Text} (plain : '\\' ∉ t) (before : Option Char) :
    Tidy before (chars t) := by
  induction t generalizing before with
  | nil => trivial
  | cons c t ih =>
    exact ⟨Ne.symm (List.ne_of_not_mem_cons plain), ih (List.not_mem_of_not_mem_cons plain) _⟩

theorem fragmentsOf_chars (t : Text) : fragmentsOf (chars t) = [] := by
  have := fragmentsOf_chars_append t []
  rwa [List.append_nil] at this

namespace Passes

variable {t : Text} {ps qs : List Piece}

theorem tidy_namespaces (h : Passes t ps qs) (plain : '\\' ∉ t) : Tidy none ps :=
  h.namespaces.tidy (tidy_chars plain none) id

theorem tidy (h : Passes t ps qs) (plain : '\\' ∉ t) : Tidy none qs :=
  h.classes.tidy (h.tidy_namespaces plain) id

theorem nests (h : Passes t ps qs) : Nests [] qs :=
  h.classes.nests .nil (h.namespaces.nests .nil (nests_of_text t 0))

theorem original (h : Passes t ps qs) : original qs = t := by
  rw [h.classes.original, h.namespaces.original, original_chars]

end Passes

/-- A search that succeeds on pieces is a pass over them. -/
theorem Written.exists_pass {pass : Pass} {limit : Nat} {header : Text} {s : Segmented}
    {ps : List Piece} {cs : List Construct} (written : Written s ps) (tidy : Tidy none ps)
    (others : ∀ m ∈ marksIn ps, pass.owns m.kind.scope = false)
    (found : findConstructs pass.preamble pass.takesSemicolon limit header s.text = .ok cs) :
    ∃ qs, Marking pass 0 none [] ps qs ∧ Written (s.substitute cs) qs := by
  have searched : Searched pass limit s.text 0 none [] ps cs [] :=
    { here := written.text
      tidy := tidy
      others := others
      own := by simp
      pending := .nil
      closed := written.text ▸ findConstructs_eq_ok_iff.mp found }
  obtain ⟨qs, marking, perm⟩ := exists_marking 0 searched
  rw [List.append_nil] at perm
  exact ⟨qs, marking, written.substitute marking perm⟩

/-- The text of a header before its first pass. -/
theorem written_chars (t : Text) : Written ⟨t, []⟩ (chars t) where
  text := (marked_chars t).symm
  fragments := by rw [fragmentsOf_chars]

/-- Marks of namespaces are none of the second pass. -/
theorem Marking.not_class {t : Text} {ps : List Piece}
    (h : Marking namespacePass 0 none [] (chars t) ps) :
    ∀ m ∈ marksIn ps, classPass.owns m.kind.scope = false := by
  intro m mem
  have others := h.othersIn (by simp)
  rw [fragmentsOf_chars, Pass.othersIn, List.filter_eq_nil_iff] at others
  rw [← map_fst_fragmentsOf] at mem
  obtain ⟨f, f_mem, rfl⟩ := List.mem_map.mp mem
  simpa [namespacePass, classPass] using others f f_mem

/-! ## 2. The segmentation -/

/-- What the segmentation gives for constructs that have been found. -/
theorem exists_passes {limit : Nat} {header t : Text} {namespaces classes : List Construct}
    (plain : '\\' ∉ t)
    (outer : findConstructs namespacePreamble false limit header t = .ok namespaces)
    (inner : findConstructs classPreamble true limit header
      (Segmented.substitute ⟨t, []⟩ namespaces).text = .ok classes) :
    ∃ ps qs, Passes t ps qs ∧
      Written ((Segmented.substitute ⟨t, []⟩ namespaces).substitute classes) qs := by
  have first : findConstructs namespacePass.preamble namespacePass.takesSemicolon limit header t =
    .ok namespaces := outer
  have second : findConstructs classPass.preamble classPass.takesSemicolon limit header
    (Segmented.substitute ⟨t, []⟩ namespaces).text = .ok classes := inner
  obtain ⟨ps, marking, written⟩ := (written_chars t).exists_pass (tidy_chars plain none)
    (by simp [← map_fst_fragmentsOf, fragmentsOf_chars]) first
  obtain ⟨qs, marking', written'⟩ := written.exists_pass (marking.tidy (tidy_chars plain none) id)
    marking.not_class second
  exact ⟨ps, qs, ⟨marking, marking'⟩, written'⟩

/-- The check of the marks passes. -/
theorem Passes.checkMarks {t : Text} {ps qs : List Piece} {s : Segmented} (h : Passes t ps qs)
    (plain : '\\' ∉ t) (written : Written s qs) (header : Text) :
    checkMarks header s.tokens = .ok () := by
  have pairs := unpairedMark_tokens (h.tidy plain) h.nests
  rw [← written.text] at pairs
  unfold Outline.checkMarks Segmented.tokens
  rw [pairs]

/-- The check of the marks decides nothing. -/
theorem segment_eq (limit : Nat) (header : Text) {t : Text} (plain : '\\' ∉ t) :
    segment limit header t = do
      let namespaces ← findConstructs namespacePreamble false limit header
        (Source.convertTypedefs t)
      let outer := Segmented.substitute ⟨Source.convertTypedefs t, []⟩ namespaces
      let classes ← findConstructs classPreamble true limit header outer.text
      checkBraces header t
      return outer.substitute classes := by
  unfold segment
  dsimp only
  cases outer : findConstructs namespacePreamble false limit header (Source.convertTypedefs t) with
  | error e => rfl
  | ok namespaces =>
    cases inner : findConstructs classPreamble true limit header
        (Segmented.substitute ⟨Source.convertTypedefs t, []⟩ namespaces).text with
    | error e => simp only [bind, Except.bind, inner]
    | ok classes =>
      -- the marks are looked at only behind both searches, so there are pieces that nest
      obtain ⟨ps, qs, passes, written⟩ :=
        exists_passes (Source.not_mem_convertTypedefs plain) outer inner
      simp only [bind, Except.bind, inner,
        passes.checkMarks (Source.not_mem_convertTypedefs plain) written header]

/-- **The segmentation succeeds when both searches do and the braces balance.** -/
theorem segment_eq_ok_iff {limit : Nat} {header t : Text} {s : Segmented} (plain : '\\' ∉ t) :
    segment limit header t = .ok s ↔
      Balanced t ∧ ∃ namespaces classes,
        findConstructs namespacePreamble false limit header (Source.convertTypedefs t) =
          .ok namespaces ∧
        findConstructs classPreamble true limit header
          (Segmented.substitute ⟨Source.convertTypedefs t, []⟩ namespaces).text = .ok classes ∧
        s = (Segmented.substitute ⟨Source.convertTypedefs t, []⟩ namespaces).substitute
          classes := by
  have accepted : checkBraces header t = .ok () ↔ Balanced t := checkBraces_eq_ok_iff
  rw [segment_eq limit header plain]
  simp only [bind_eq_ok_iff, ← accepted]
  constructor
  · rintro ⟨namespaces, outer, classes, inner, _, balanced, h⟩
    exact ⟨balanced, namespaces, classes, outer, inner, (Except.ok.inj h).symm⟩
  · rintro ⟨balanced, namespaces, classes, outer, inner, rfl⟩
    exact ⟨namespaces, outer, classes, inner, (), balanced, rfl⟩

/-- **A header that is refused is refused for its braces.** -/
theorem segment_error {limit : Nat} {header t : Text} {e : ParseError} (plain : '\\' ∉ t)
    (h : segment limit header t = .error e) :
    ∃ offset fault, e = .malformedConstruct header offset fault := by
  rw [segment_eq limit header plain] at h
  rcases bind_eq_error_iff.mp h with outer | ⟨namespaces, -, h⟩
  · exact findConstructs_error outer
  · rcases bind_eq_error_iff.mp h with inner | ⟨classes, -, h⟩
    · exact findConstructs_error inner
    · rcases bind_eq_error_iff.mp h with unbalanced | ⟨_, -, h⟩
      · exact checkBraces_error unbalanced
      · cases h

/-- What a segmented header is written from. -/
theorem exists_pieces {limit : Nat} {header t : Text} {s : Segmented} (plain : '\\' ∉ t)
    (h : segment limit header t = .ok s) :
    ∃ ps qs, Passes (Source.convertTypedefs t) ps qs ∧ Written s qs := by
  obtain ⟨-, namespaces, classes, outer, inner, rfl⟩ := (segment_eq_ok_iff plain).mp h
  exact exists_passes (Source.not_mem_convertTypedefs plain) outer inner

/-- **Balanced braces are enough**, with a limit that is no less than their number. -/
theorem segment_isOk {limit : Nat} (header : Text) {t : Text} (plain : '\\' ∉ t)
    (balanced : Balanced t) (converted : Balanced (Source.convertTypedefs t))
    (enough : (braces (Source.convertTypedefs t)).length ≤ limit) :
    ∃ s, segment limit header t = .ok s := by
  have converted_plain := Source.not_mem_convertTypedefs plain
  have zero := balanced_iff_depthAfter.mp converted
  obtain ⟨namespaces, outer⟩ := findConstructs_isOk namespacePass header zero enough
  obtain ⟨ps, marking, written⟩ := (written_chars _).exists_pass (tidy_chars converted_plain none)
    (by simp [← map_fst_fragmentsOf, fragmentsOf_chars]) outer
  have still_zero : depthAfter? 0 (marked ps) = some 0 := by
    have := marking.depthAfter (by rw [marked_chars]; exact zero)
    exact this
  have still_enough : (braces (marked ps)).length ≤ limit := by
    have := marking.length_braces_le
    rw [marked_chars] at this
    omega
  rw [← written.text] at still_zero still_enough
  obtain ⟨classes, inner⟩ := findConstructs_isOk classPass header still_zero still_enough
  exact ⟨_, (segment_eq_ok_iff plain).mpr ⟨balanced, namespaces, classes, outer, inner, rfl⟩⟩

/-! ## 3. Marks -/

namespace Passes

variable {t : Text} {ps qs : List Piece}

/-- The second pass leaves the marks of the namespaces as they are. -/
theorem openingsIn_namespaces (h : Passes t ps qs) :
    namespacePass.openingsIn (marksIn qs) = namespacePass.openingsIn (marksIn ps) := by
  have others := h.classes.othersIn (by simp)
  rw [← map_fst_fragmentsOf ps, ← others, ← map_fst_fragmentsOf qs]
  simp only [Pass.openingsIn, Pass.othersIn, List.filter_map, List.filter_filter]
  refine congrArg (List.map Prod.fst) (List.filter_congr fun f _ => ?_)
  by_cases kind : f.1.kind.scope = .namespaceScope <;> simp [namespacePass, classPass, kind]

/-- The opening marks of the namespaces are numbered from zero. -/
theorem indices_namespaces (h : Passes t ps qs) :
    (namespacePass.openingsIn (marksIn qs)).map Mark.index =
      List.range (namespacePass.openingsIn (marksIn qs)).length := by
  rw [h.openingsIn_namespaces, h.namespaces.indices, List.range_eq_range']

/-- The opening marks of the classes and structs are numbered from zero. -/
theorem indices_classes (h : Passes t ps qs) :
    (classPass.openingsIn (marksIn qs)).map Mark.index =
      List.range (classPass.openingsIn (marksIn qs)).length := by
  rw [h.classes.indices, List.range_eq_range']

/-- There are no more scopes than opening braces in the text. -/
theorem length_openings_le (h : Passes t ps qs) :
    (namespacePass.openingsIn (marksIn qs)).length ≤ t.count '\x7b' ∧
      (classPass.openingsIn (marksIn qs)).length ≤ t.count '\x7b' := by
  have first := h.namespaces.count_open
  have second := h.classes.count_open
  rw [marked_chars] at first
  rw [h.openingsIn_namespaces]
  omega

/-- Every opening mark belongs to one of the two passes. -/
theorem mem_openingsIn {m : Mark} (opening : m.isOpening = true) {ms : List Mark} (mem : m ∈ ms) :
    m ∈ namespacePass.openingsIn ms ∨ m ∈ classPass.openingsIn ms := by
  by_cases kind : m.kind.scope = .namespaceScope
  · exact .inl (List.mem_filter.mpr ⟨mem, by simp [opening, namespacePass, kind]⟩)
  · exact .inr (List.mem_filter.mpr ⟨mem, by simp [opening, classPass, kind]⟩)

/-- Numbers are no larger than the braces of the text are many. -/
theorem index_lt (h : Passes t ps qs) {m : Mark} (mem : m ∈ marksIn qs) :
    m.index < t.count '\x7b' := by
  obtain ⟨few_namespaces, few_classes⟩ := h.length_openings_le
  have opening {m : Mark} (opens : m.isOpening = true) (mem : m ∈ marksIn qs) :
      m.index < t.count '\x7b' := by
    rcases mem_openingsIn opens mem with mem | mem
    · have := List.mem_map_of_mem (f := Mark.index) mem
      rw [h.indices_namespaces, List.mem_range] at this
      omega
    · have := List.mem_map_of_mem (f := Mark.index) mem
      rw [h.indices_classes, List.mem_range] at this
      omega
  cases opens : m.isOpening with
  | true => exact opening opens mem
  | false =>
    -- a closing mark has the number of the opening one that it is the partner of
    have closes : m ∈ (marksIn qs).filter fun m => !m.isOpening :=
      List.mem_filter.mpr ⟨mem, by simp [opens]⟩
    have partners := h.nests.closing_perm.subset closes
    rw [List.filterMap_nil, List.map_nil, List.append_nil] at partners
    obtain ⟨o, o_mem, rfl⟩ := List.mem_map.mp partners
    show o.index < _
    exact opening (List.mem_filter.mp o_mem).2 (List.mem_filter.mp o_mem).1

/-- No mark occurs twice. -/
theorem nodup (h : Passes t ps qs) : (marksIn qs).Nodup := by
  refine h.nests.nodup ?_
  have numbered {pass : Pass} (indices : (pass.openingsIn (marksIn qs)).map Mark.index =
      List.range (pass.openingsIn (marksIn qs)).length) : (pass.openingsIn (marksIn qs)).Nodup :=
    .of_map Mark.index (indices ▸ List.nodup_range)
  have apart : ((marksIn qs).filter Mark.isOpening).Perm
      (namespacePass.openingsIn (marksIn qs) ++ classPass.openingsIn (marksIn qs)) := by
    have split := (List.filter_append_perm (fun m : Mark => m.kind.scope == .namespaceScope)
      ((marksIn qs).filter Mark.isOpening)).symm
    simp only [List.filter_filter] at split
    refine split.trans (.of_eq ?_)
    congr 1
    · exact List.filter_congr fun m _ => Bool.and_comm _ _
    · exact List.filter_congr fun m _ => Bool.and_comm _ _
  refine apart.nodup_iff.mpr (List.nodup_append.mpr
    ⟨numbered h.indices_namespaces, numbered h.indices_classes, ?_⟩)
  intro a a_mem b b_mem same
  have a_own := (List.mem_filter.mp a_mem).2
  have b_own := (List.mem_filter.mp b_mem).2
  rw [same] at a_own
  simp only [namespacePass, classPass, Bool.and_eq_true, beq_iff_eq, bne_iff_ne] at a_own b_own
  exact b_own.2 a_own.2

/-- The tokens of what is written from the pieces. -/
theorem tokens_eq (h : Passes t ps qs) (plain : '\\' ∉ t) {s : Segmented} (written : Written s qs) :
    s.tokens = tokensBehind [] qs := by
  rw [Segmented.tokens, written.text, tokens_eq_tokensBehind (h.tidy plain)]

/-- Where all numbers are read back, the marks among the tokens are those of the pieces. -/
theorem marksOf_tokens (h : Passes t ps qs) (plain : '\\' ∉ t)
    (fits : ∀ m ∈ marksIn qs, m.index < UInt64.size) {s : Segmented} (written : Written s qs) :
    marksOf s.tokens = marksIn qs := by
  rw [h.tokens_eq plain written, marksOf_tokensBehind (h.tidy plain) List.not_mem_nil]
  exact List.filter_eq_self.mpr fun m mem => decide_eq_true (fits m mem)

/-- The numbers of a converted text are read back, if the text has fewer than 2^64 characters. -/
theorem fits {t : Text} (h : Passes (Source.convertTypedefs t) ps qs)
    (small : t.length < UInt64.size) : ∀ m ∈ marksIn qs, m.index < UInt64.size := by
  intro m mem
  have numbered := h.index_lt mem
  have few := Source.count_convertTypedefs_le t
  omega

end Passes

/-- The marks of a segmented header stand for its fragments one by one, and nest. -/
structure Segmented.WellMarked (s : Segmented) : Prop where
  /-- The marks among the tokens are the keys of the fragments. -/
  keys : (marksOf s.tokens).Perm (s.fragments.map Prod.fst)
  /-- Each of them occurs once. -/
  once : (marksOf s.tokens).Nodup
  /-- They nest like a stack: the tokens are those of a forest. -/
  nested : ∃ f : Forest, s.tokens = f.tokens
  /-- The opening marks of the namespaces are numbered from zero in the order of the text. -/
  namespaces : ∃ n, (namespacePass.openingsIn (marksOf s.tokens)).map Mark.index = List.range n
  /-- So are those of the classes and structs together. -/
  classes : ∃ n, (classPass.openingsIn (marksOf s.tokens)).map Mark.index = List.range n

/-- **Segmentation is a one-to-one replacement that nests**, and no header is refused for its marks.
The bound on the length is the one of every text in memory: the number of a mark is read as a
size. -/
theorem segment_wellMarked (limit : Nat) (header : Text) {t : Text} (plain : '\\' ∉ t) :
    (t.length < UInt64.size → ∀ s, segment limit header t = .ok s → s.WellMarked) ∧
      ∀ header' m, segment limit header t ≠ .error (.unbalancedMark header' m) := by
  constructor
  · intro small s found
    obtain ⟨ps, qs, passes, written⟩ := exists_pieces plain found
    have converted_plain := Source.not_mem_convertTypedefs plain
    have marks := passes.marksOf_tokens converted_plain (passes.fits small) written
    refine ⟨?_, ?_, ?_, ?_, ?_⟩
    · rw [marks, ← map_fst_fragmentsOf]
      exact (written.fragments.map Prod.fst).symm
    · rw [marks]
      exact passes.nodup
    · exact checkMarks_eq_ok_iff.mp (passes.checkMarks converted_plain written header)
    · rw [marks]
      exact ⟨_, passes.indices_namespaces⟩
    · rw [marks]
      exact ⟨_, passes.indices_classes⟩
  · intro header' m refused
    obtain ⟨offset, fault, h⟩ := segment_error plain refused
    cases h

/-- A header with scopes of every kind inside each other. -/
def nestedHeader : Text :=
  "namespace n \x7b\nclass A \x7b\nstruct B \x7b\n\x7d;\nint f();\n\x7d;\n\x7d\n".toList

theorem segment_nestedHeader : ∃ s, segment 6 [] nestedHeader = .ok s :=
  segment_isOk [] (by decide) (by decide) (by decide +kernel) (by decide +kernel)

theorem segment_wellMarked_nestedHeader :
    ∃ s, segment 6 [] nestedHeader = .ok s ∧ s.WellMarked := by
  obtain ⟨s, found⟩ := segment_nestedHeader
  exact ⟨s, found, (segment_wellMarked 6 [] (by decide)).1 (by decide) s found⟩

/-! ## 4. Fragments -/

/-- What a token stands for: a mark for its fragment, a line for itself. -/
def Segmented.restore (s : Segmented) : Token → Text
  | .mark m => s.fragment m
  | .line t => t

/-- Where no key occurs twice, each entry is found. -/
theorem lookup_of_mem {α β : Type} [DecidableEq α] {entries : List (α × β)}
    (once : (entries.map Prod.fst).Nodup) {a : α} {b : β} (mem : (a, b) ∈ entries) :
    entries.lookup a = some b := by
  induction entries with
  | nil => cases mem
  | cons e entries ih =>
    rw [List.map_cons, List.nodup_cons] at once
    rcases List.mem_cons.mp mem with rfl | behind
    · simp
    · have other : a ≠ e.1 := by
        rintro rfl
        exact once.1 (List.mem_map.mpr ⟨(e.1, b), behind, rfl⟩)
      rw [List.lookup_cons, beq_eq_false_iff_ne.mpr other]
      exact ih once.2 behind

/-- Lines stand for themselves, so nothing but blanks is lost between marks. -/
theorem solid_restore_lines (s : Segmented) {t : Text} (plain : '\\' ∉ t) :
    Source.solid ((tokens t).flatMap s.restore) = Source.solid t := by
  rw [tokens_of_not_mem plain, List.flatMap_map]
  exact (congrArg Source.solid List.flatMap_id).trans (Source.solid_flatten_trimmedLines t)

/-- **The tokens of pieces restore what the pieces stand for**, but for blanks. -/
theorem solid_restore_tokensBehind {s : Segmented} {before : Option Char} {pending : Text}
    {ps : List Piece} (tidy : Tidy before ps) (plain : '\\' ∉ pending)
    (fits : ∀ m ∈ marksIn ps, m.index < UInt64.size)
    (known : ∀ f ∈ fragmentsOf ps, s.fragment f.1 = f.2) :
    Source.solid ((tokensBehind pending ps).flatMap s.restore) =
      Source.solid pending ++ Source.solid (original ps) := by
  induction ps generalizing before pending with
  | nil =>
    rw [tokensBehind, solid_restore_lines s plain, original_nil, Source.solid_nil, List.append_nil]
  | cons p ps ih =>
    cases p with
    | char c =>
      rw [tokensBehind, ih tidy.2 (not_mem_concat plain tidy.1) fits known, original_char,
        ← Source.solid_append, ← Source.solid_append, List.append_assoc, List.singleton_append]
    | mark m stretch =>
      have rest := ih tidy.2 List.not_mem_nil (fun m mem => fits m (List.mem_cons_of_mem _ mem))
        fun f mem => known f (List.mem_cons_of_mem _ mem)
      have token : m.token = .mark m := if_pos (fits m List.mem_cons_self)
      have fragment : Source.solid (s.fragment m) = Source.solid stretch := by
        rw [known (m, _) List.mem_cons_self]
        dsimp only
        split
        · exact Source.solid_trim stretch
        · rfl
      rw [tokensBehind, List.flatMap_append, Source.solid_append, solid_restore_lines s plain,
        List.flatMap_cons, Source.solid_append, rest, token, Segmented.restore, fragment,
        original_mark, Source.solid_append, Source.solid_nil, List.nil_append]

/-- **Segmentation loses and doubles nothing**: with the fragments in place of their marks, the
tokens are the converted text, but for blanks. -/
theorem solid_restore_tokens {limit : Nat} {header t : Text} {s : Segmented} (plain : '\\' ∉ t)
    (small : t.length < UInt64.size) (found : segment limit header t = .ok s) :
    Source.solid (s.tokens.flatMap s.restore) = Source.solid (Source.convertTypedefs t) := by
  obtain ⟨ps, qs, passes, written⟩ := exists_pieces plain found
  have converted_plain := Source.not_mem_convertTypedefs plain
  have once : (s.fragments.map Prod.fst).Nodup := by
    refine (written.fragments.map Prod.fst).nodup_iff.mpr ?_
    rw [map_fst_fragmentsOf]
    exact passes.nodup
  have known : ∀ f ∈ fragmentsOf qs, s.fragment f.1 = f.2 := fun f mem => by
    rw [Segmented.fragment, lookup_of_mem once (written.fragments.symm.subset mem)]
    rfl
  rw [passes.tokens_eq converted_plain written, solid_restore_tokensBehind
    (passes.tidy converted_plain) List.not_mem_nil (passes.fits small) known, passes.original]
  rfl

theorem solid_restore_tokens_nestedHeader :
    ∃ s, segment 6 [] nestedHeader = .ok s ∧
      Source.solid (s.tokens.flatMap s.restore) = Source.solid nestedHeader := by
  obtain ⟨s, found⟩ := segment_nestedHeader
  have restored := solid_restore_tokens (by decide) (by decide) found
  have unchanged : Source.convertTypedefs nestedHeader = nestedHeader := by decide +kernel
  exact ⟨s, found, restored.trans (congrArg Source.solid unchanged)⟩

end AccessorCatalog.Outline

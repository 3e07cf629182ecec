/-
# Names of classes have no blanks at their ends

What is known of a class is filed under its name, and under the name of its template, which is
trimmed (`ClassName.primary`).  So it matters that the names read from a header are trimmed already
(`trim_of_mem_classes`): then a name differs from that of its template only by template arguments.

A word outside brackets is cut at blanks, so it starts with none (`head_splitTopFrom`).  At its end
it can have one if a bracket is still open where the text ends, and that a title rules out: it is
cut off behind its last character or in front of a colon outside brackets.
-/
import AccessorCatalog.Proofs.Columns
import AccessorCatalog.Proofs.PublicSections

namespace AccessorCatalog

/-! ## 1. Words outside brackets -/

namespace Text

variable {t w : Text}

theorem trim_trim (t : Text) : trim (trim t) = trim t :=
  trim_of_edges (trim_edges t).1 (trim_edges t).2

namespace Depth

/-- Blanks are no brackets. -/
theorem feed_blank {c : Char} (blank : isBlank c = true) (d : Depth) : d.feed c = d := by
  have other {b : Char} (solid : isBlank b = false) : c ≠ b := by
    rintro rfl
    rw [blank] at solid
    cases solid
  unfold feed
  rw [if_neg (other (by decide)), if_neg (other (by decide)), if_neg (other (by decide)),
    if_neg (other (by decide)), if_neg (other (by decide)), if_neg (other (by decide))]

theorem read_cons (d : Depth) (c : Char) (t : Text) : d.read (c :: t) = (d.feed c).read t := rfl

end Depth

/-- A stretch between blanks outside brackets starts with no blank, unless a bracket is open before
it. -/
theorem head_splitTopFrom (d : Depth) (t : Text) :
    ∃ first pieces, splitTopFrom isBlank d t = first :: pieces ∧
      (d.isTop = true → ∀ c ∈ first.head?, isBlank c = false) ∧
        ∀ piece ∈ pieces, ∀ c ∈ piece.head?, isBlank c = false := by
  induction t generalizing d with
  | nil => exact ⟨[], [], rfl, by simp, by simp⟩
  | cons c t ih =>
    rw [splitTopFrom]
    split
    · next separates =>
      obtain ⟨first, pieces, split, first_solid, solid⟩ := ih d
      refine ⟨[], first :: pieces, by rw [split], by simp, ?_⟩
      intro piece mem
      rcases List.mem_cons.mp mem with rfl | mem
      · exact first_solid (Bool.and_eq_true_iff.mp separates).2
      · exact solid piece mem
    · next joined =>
      obtain ⟨first, pieces, split, -, solid⟩ := ih (d.feed c)
      refine ⟨c :: first, pieces, by rw [split, consFirst], ?_, solid⟩
      rintro top _ ⟨⟩
      cases blank : isBlank c with
      | false => rfl
      | true => exact absurd (by rw [blank, top]; rfl) joined

/-- The brackets are closed at the end of a text, or its last character is no blank. -/
def EndsWell (d : Depth) (t : Text) : Prop :=
  (∀ c ∈ t.getLast?, isBlank c = false) ∨ (d.read t).isTop = true

theorem EndsWell.tail {d : Depth} {c : Char} (h : EndsWell d (c :: t)) : EndsWell (d.feed c) t := by
  rcases h with solid | top
  · left
    intro e mem
    refine solid e ?_
    rw [List.getLast?_cons, Option.mem_def.mp mem]
    rfl
  · exact .inr top

/-- No stretch is a single blank: that would stand where a bracket is open, at the end of the
text. -/
theorem isBlank_of_singleton {d : Depth} {c : Char} {pieces : List Text}
    (ends : EndsWell d (c :: t)) (joined : ¬ (isBlank c && d.isTop) = true)
    (split : splitTopFrom isBlank (d.feed c) t = [] :: pieces) : isBlank c = false := by
  cases blank : isBlank c with
  | false => rfl
  | true =>
    rw [Depth.feed_blank blank] at split
    have open_bracket : d.isTop = false := by
      cases top : d.isTop with
      | false => rfl
      | true => exact absurd (by rw [blank, top]; rfl) joined
    cases t with
    | nil =>
      rcases ends with solid | top
      · exact absurd (solid c rfl) (by rw [blank]; decide)
      · rw [Depth.read_cons, Depth.feed_blank blank] at top
        exact absurd top (by rw [Depth.read, List.foldl_nil, open_bracket]; decide)
    | cons b t =>
      rw [splitTopFrom, open_bracket, Bool.and_false, if_neg (by decide)] at split
      cases rest : splitTopFrom isBlank (d.feed b) t with
      | nil => exact absurd rest (splitTopFrom_ne_nil _ _ _)
      | cons first rest_pieces =>
        rw [rest, consFirst] at split
        cases split

/-- In a text that ends well, the stretches between blanks outside brackets end with no blank
either. -/
theorem getLast_splitTopFrom {d : Depth} (ends : EndsWell d t) :
    ∀ piece ∈ splitTopFrom isBlank d t, ∀ c ∈ piece.getLast?, isBlank c = false := by
  induction t generalizing d with
  | nil => simp [splitTopFrom]
  | cons c t ih =>
    have behind := ih ends.tail
    rw [splitTopFrom]
    split
    · next separates =>
      rw [Depth.feed_blank (Bool.and_eq_true_iff.mp separates).1] at behind
      intro piece mem
      rcases List.mem_cons.mp mem with rfl | mem
      · simp
      · exact behind piece mem
    · next joined =>
      cases split : splitTopFrom isBlank (d.feed c) t with
      | nil => exact absurd split (splitTopFrom_ne_nil _ _ _)
      | cons first pieces =>
        rw [split] at behind
        intro piece mem e last
        rcases List.mem_cons.mp mem with rfl | mem
        · cases first with
          | nil =>
            obtain rfl : c = e := Option.some.inj last
            exact isBlank_of_singleton ends joined split
          | cons a first =>
            rw [List.getLast?_cons_cons] at last
            exact behind _ List.mem_cons_self e last
        · exact behind piece (List.mem_cons_of_mem _ mem) e last

/-- A word outside brackets is trimmed. -/
theorem trim_of_mem_topWords (ends : EndsWell {} t) (mem : w ∈ topWords t) : trim w = w := by
  have piece := (List.mem_filter.mp mem).1
  obtain ⟨first, pieces, split, first_solid, solid⟩ := head_splitTopFrom {} t
  have head : ∀ piece ∈ splitTopFrom isBlank {} t, ∀ c ∈ piece.head?, isBlank c = false := by
    rw [split]
    intro piece mem
    rcases List.mem_cons.mp mem with rfl | mem
    · exact first_solid rfl
    · exact solid piece mem
  exact trim_of_edges (head w piece) (getLast_splitTopFrom ends w piece)

/-- A text is cut at a colon outside brackets. -/
theorem isTop_of_cutAtColonFrom {d : Depth} {before : Option Char} {left right : Text}
    (cut : cutAtColonFrom? d before t = some (left, right)) : (d.read left).isTop = true := by
  induction t generalizing d before left with
  | nil => cases cut
  | cons c t ih =>
    rw [cutAtColonFrom?] at cut
    split at cut
    · next colon =>
      cases cut
      exact colon.2.1
    · obtain ⟨⟨front, back⟩, found, same⟩ := Option.map_eq_some_iff.mp cut
      cases same
      rw [Depth.read_cons]
      exact ih found

/-- Trimmed pieces put together make a trimmed text. -/
theorem trim_join {sep : Text} {pieces : List Text}
    (trimmed : ∀ piece ∈ pieces, trim piece = piece ∧ piece ≠ []) :
    trim (join sep pieces) = join sep pieces := by
  have whole : pieces ≠ [] → trim (join sep pieces) = join sep pieces ∧ join sep pieces ≠ [] := by
    induction pieces with
    | nil => exact fun none => absurd rfl none
    | cons piece pieces ih =>
      intro _
      have first := trimmed piece List.mem_cons_self
      cases pieces with
      | nil => simpa [join] using first
      | cons next pieces =>
        have rest := ih (fun p mem => trimmed p (List.mem_cons_of_mem _ mem)) (List.cons_ne_nil _ _)
        rw [Source.join_cons_cons]
        exact ⟨trim_between sep first.1 rest.1 first.2 rest.2, by simp [first.2]⟩
  cases pieces with
  | nil => rfl
  | cons piece pieces => exact (whole (List.cons_ne_nil _ _)).1

end Text

/-! ## 2. Titles -/

namespace Outline

theorem trim_titleName {head : Text} (ends : Text.EndsWell {} head) :
    Text.trim (titleName head) = titleName head := by
  unfold titleName
  rw [List.getLastD_eq_getLast?]
  cases last : List.getLast? _ with
  | none => rfl
  | some word =>
    exact Text.trim_of_mem_topWords ends (List.mem_filter.mp (List.mem_of_getLast? last)).1

/-- The name in the title of a class is trimmed. -/
theorem trim_classTitle (preamble : Text) :
    Text.trim (classTitle preamble).name = (classTitle preamble).name := by
  unfold classTitle
  dsimp only
  generalize Option.getD _ _ = t
  cases cut : Text.cutAtColon? (Text.trim t) with
  | none => exact trim_titleName (.inl (Text.trim_edges t).2)
  | some sides => exact trim_titleName (.inr (Text.isTop_of_cutAtColonFrom cut))

/-- So is that of a scope. -/
theorem trim_scopeName (kind : ScopeKind) (preamble : Text) :
    Text.trim (scopeName kind preamble) = scopeName kind preamble := by
  cases kind with
  | namespaceScope => exact Text.trim_trim _
  | classScope => exact trim_classTitle preamble
  | structScope => exact trim_classTitle preamble

/-! ## 3. The walk -/

variable {s : Segmented} {header : Text}

/-- The scopes that are open and the classes that are complete have trimmed names. -/
structure WalkState.Trimmed (w : WalkState) : Prop where
  scopes : ∀ name ∈ namesOf w.scopes, Text.trim name = name
  complete : ∀ c ∈ w.complete, Text.trim c.record.name = c.record.name

theorem trim_qualified {outer : List Text} {name : Text}
    (trimmed : ∀ n ∈ outer ++ [name], Text.trim n = n) :
    Text.trim (qualified outer name) = qualified outer name := by
  refine Text.trim_join fun piece mem => ?_
  obtain ⟨listed, filled⟩ := List.mem_filter.mp mem
  exact ⟨trimmed piece listed, by simpa using filled⟩

/-- One token of the walk keeps that. -/
theorem WalkState.Trimmed.step {w w' : WalkState} {token : Token} (h : w.Trimmed)
    (next : w.step s header token = .ok w') : w'.Trimmed := by
  obtain ⟨scopes, complete⟩ := h
  rcases WalkState.step_cases next with
    ⟨t, rfl, rfl⟩ | ⟨m, rfl, opening, rfl⟩ | ⟨scope, outer, rfl, top, rfl⟩
  · refine ⟨?_, complete⟩
    rw [namesOf_feedInnermost]
    exact scopes
  · refine ⟨fun name mem => ?_, complete⟩
    rw [namesOf_cons] at mem
    rcases List.mem_append.mp mem with mem | mem
    · exact scopes name mem
    · rw [List.mem_singleton.mp mem, Mark.eq_of_isOpening opening, name_ofMark]
      exact trim_scopeName m.kind.scope _
  · rw [top, namesOf_cons] at scopes
    refine ⟨fun name mem => scopes name (List.mem_append_left _ mem), fun c mem => ?_⟩
    rcases List.mem_append.mp mem with mem | mem
    · exact complete c mem
    · have class_of : scope.classOutline? outer header = some c := by simpa using mem
      unfold Scope.classOutline? at class_of
      split at class_of
      · split at class_of
        · cases class_of
        · cases class_of
          rw [qualifiedName_eq]
          exact trim_qualified scopes
      · cases class_of

theorem trimmed_walkOver {ts : List Token} {w : WalkState}
    (reached : walkOver s header ts = .ok w) :
    w.Trimmed := by
  induction ts using List.reverseRecOn generalizing w with
  | nil =>
    cases reached
    exact ⟨by simp [namesOf], by simp⟩
  | append_singleton ts token ih =>
    rw [walkOver_concat] at reached
    obtain ⟨before, reached_before, next⟩ := bind_eq_ok_iff.mp reached
    exact (ih reached_before).step next

/-- **The names of the classes of a header are trimmed.** -/
theorem trim_of_mem_classes {limit : Nat} {t : Text} {cs : List ClassOutline}
    (accepted : parseHeader limit header t = .ok cs) :
    ∀ c ∈ cs, Text.trim c.record.name = c.record.name := by
  obtain ⟨s, w, -, walked, rfl⟩ := exists_walk accepted
  exact (trimmed_walkOver walked).complete

end Outline

end AccessorCatalog

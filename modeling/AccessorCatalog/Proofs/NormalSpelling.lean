/-
# The canonical spelling is a normal form

The canonical spelling is made in passes: the words of a text are joined by single spaces, the
spaces in front of a `>` are taken away, and two spelled-out templates are replaced by
`std::string`. `canonical_normalForm` says that it comes out as a normal form, and what follows for
signatures and for the entries of a catalog.

The first two passes come to one reading from the left that only remembers whether there was a gap
(`squeezeFrom`, `closeAngles_join_words`).  It does not see what a gap consists of, nor a gap in
front of a `>` (`Respacing`), and what it leaves has nothing to squeeze (`Squeezed`).

The other two passes could undo this, or each other, where what is written meets its neighbours.
They do not: a template does not reach into `std::string` from either side (`Apart`), so what it
occurs in after a pass it has occurred in before (`infix_of_infix_replace`), and nothing is left of
what the pass replaces (`not_infix_replace`).
-/
import AccessorCatalog.Proofs.CanonicalText
import AccessorCatalog.Proofs.Nearest
import Mathlib.Data.List.Infix
import Mathlib.Logic.Relation

namespace AccessorCatalog.Declaration

open Text (isBlank)

variable {s t gap : Text} {c : Char}

/-! ## 1. Blanks, read from the left -/

/-- The text with a space for every run of blanks, unless a `>` or nothing follows.  `gap` says that
blanks have been read since the last character that is none. -/
def squeezeFrom : (gap : Bool) → Text → Text
  | _, [] => []
  | gap, c :: t =>
    if isBlank c then squeezeFrom true t
    else if gap && c != '>' then ' ' :: c :: squeezeFrom false t
    else c :: squeezeFrom false t

/-- The text with its blanks squeezed. -/
def squeeze (t : Text) : Text :=
  squeezeFrom false (Text.trimStart t)

/-- A word behind others, with a space in front of it unless it starts with a `>`. -/
def spaced : (word : Text) → Text
  | '>' :: word => '>' :: word
  | word => ' ' :: word

theorem spaced_cons (c : Char) (word : Text) : spaced (c :: word) = spaced [c] ++ word := by
  unfold spaced
  split <;> simp_all

theorem squeezeFrom_blank (blank : isBlank c = true) (gap : Bool) (t : Text) :
    squeezeFrom gap (c :: t) = squeezeFrom true t := by
  rw [squeezeFrom, if_pos blank]

theorem squeezeFrom_solid (solid : isBlank c = false) (t : Text) :
    squeezeFrom false (c :: t) = c :: squeezeFrom false t := by
  rw [squeezeFrom, solid]
  rfl

theorem squeezeFrom_gap (solid : isBlank c = false) (t : Text) :
    squeezeFrom true (c :: t) = spaced [c] ++ squeezeFrom false t := by
  rw [squeezeFrom, solid]
  by_cases angle : c = '>'
  · subst angle
    rfl
  · simp [spaced, angle]

/-- What is read from the left are the words, each but a first one with its space. -/
theorem squeezeFrom_eq (t : Text) :
    ∃ word words, Text.splitWhere isBlank t = word :: words ∧
      squeezeFrom false t = word ++ (words.filter fun w => !w.isEmpty).flatMap spaced ∧
      squeezeFrom true t = ((word :: words).filter fun w => !w.isEmpty).flatMap spaced := by
  induction t with
  | nil => exact ⟨[], [], rfl, rfl, rfl⟩
  | cons c t ih =>
    obtain ⟨word, words, split, behind, between⟩ := ih
    cases blank : isBlank c with
    | true =>
      refine ⟨[], word :: words, ?_, ?_, ?_⟩
      · rw [Text.splitWhere, if_pos blank, split]
      · rw [squeezeFrom_blank blank, between]
        rfl
      · rw [squeezeFrom_blank blank, between]
        rfl
    | false =>
      refine ⟨c :: word, words, ?_, ?_, ?_⟩
      · rw [Text.splitWhere, blank, split]
        rfl
      · rw [squeezeFrom_solid blank, behind, List.cons_append]
      · rw [squeezeFrom_gap blank, behind, ← List.append_assoc, ← spaced_cons]
        rfl

theorem closeAngles_append (solid : ∀ c ∈ s, isBlank c = false) (t : Text) :
    closeAngles (s ++ t) = s ++ closeAngles t := by
  induction s with
  | nil => rfl
  | cons c s ih =>
    have rest := ih fun d mem => solid d (List.mem_cons_of_mem c mem)
    have other : c ≠ ' ' := by
      rintro rfl
      exact absurd (solid ' ' List.mem_cons_self) (by decide)
    rw [List.cons_append, closeAngles, rest, List.cons_append]
    intro u eq
    exact absurd eq other

theorem closeAngles_join {word : Text} {words : List Text}
    (solid : ∀ w ∈ word :: words, ∀ c ∈ w, isBlank c = false) (filled : ∀ w ∈ words, w ≠ []) :
    closeAngles (Text.join [' '] (word :: words)) = word ++ words.flatMap spaced := by
  induction words generalizing word with
  | nil =>
    have own := closeAngles_append (solid word List.mem_cons_self) []
    simpa [Text.join, closeAngles] using own
  | cons next words ih =>
    have rest := ih (fun w mem => solid w (List.mem_cons_of_mem word mem))
      fun w mem => filled w (List.mem_cons_of_mem next mem)
    obtain ⟨c, next, rfl⟩ := List.exists_cons_of_ne_nil (filled next List.mem_cons_self)
    rw [Source.join_cons_cons, List.append_assoc, List.singleton_append,
      closeAngles_append (solid word List.mem_cons_self), List.flatMap_cons]
    refine congrArg (word ++ ·) ?_
    have front := Text.join_consFirst [' '] c (List.cons_ne_nil next words)
    rw [Text.consFirst] at front
    rw [front] at rest ⊢
    by_cases angle : c = '>'
    · subst angle
      exact rest
    · have kept (u : Text) : closeAngles (' ' :: c :: u) = ' ' :: closeAngles (c :: u) := by
        simp [closeAngles, angle]
      rw [kept, rest, spaced_cons]
      simp [spaced, angle]

theorem solid_of_mem_splitWhere {p : Char → Bool} {piece : Text}
    (mem : piece ∈ Text.splitWhere p t) :
    ∀ c ∈ piece, p c = false := by
  induction t generalizing piece with
  | nil =>
    rw [Text.splitWhere, List.mem_singleton] at mem
    subst mem
    exact fun c inside => absurd inside List.not_mem_nil
  | cons d t ih =>
    obtain ⟨first, pieces, split⟩ := List.exists_cons_of_ne_nil (Text.splitWhere_ne_nil p t)
    rw [split] at ih
    rw [Text.splitWhere, split] at mem
    split at mem
    · rcases List.mem_cons.mp mem with rfl | mem
      · exact fun c inside => absurd inside List.not_mem_nil
      · exact ih mem
    · next solid =>
      rcases List.mem_cons.mp mem with rfl | mem
      · intro c inside
        rcases List.mem_cons.mp inside with rfl | inside
        · exact Bool.eq_false_iff.mpr solid
        · exact ih List.mem_cons_self c inside
      · exact ih (List.mem_cons_of_mem first mem)

theorem words_trimStart (t : Text) : Text.words (Text.trimStart t) = Text.words t := by
  induction t with
  | nil => rfl
  | cons c t ih =>
    cases blank : isBlank c with
    | true =>
      rw [Text.trimStart, Text.dropStart, List.dropWhile_cons_of_pos blank]
      refine ih.trans ?_
      rw [Text.words, Text.words, Text.splitWhere, if_pos blank]
      rfl
    | false => rw [Text.trimStart, Text.dropStart, List.dropWhile_cons_of_neg (by simp [blank])]

theorem trimStart_eq_nil_or (t : Text) :
    Text.trimStart t = [] ∨ ∃ c u, Text.trimStart t = c :: u ∧ isBlank c = false := by
  cases trimmed : Text.trimStart t with
  | nil => exact .inl rfl
  | cons c u =>
    refine .inr ⟨c, u, rfl, ?_⟩
    have head := List.head?_dropWhile_not isBlank t
    unfold Text.trimStart Text.dropStart at trimmed
    rw [trimmed] at head
    simpa using head

/-- **Blanks are squeezed as the words of the text say.** -/
theorem closeAngles_join_words (t : Text) :
    closeAngles (Text.join [' '] (Text.words t)) = squeeze t := by
  rw [← words_trimStart, squeeze]
  rcases trimStart_eq_nil_or t with trimmed | ⟨c, u, trimmed, solid⟩
  · rw [trimmed]
    rfl
  · obtain ⟨word, words, split, read, -⟩ := squeezeFrom_eq u
    have cut : Text.splitWhere isBlank (c :: u) = (c :: word) :: words := by
      rw [Text.splitWhere, solid, split]
      rfl
    have filled : Text.words (c :: u) = (c :: word) :: words.filter fun w => !w.isEmpty := by
      rw [Text.words, cut]
      rfl
    rw [trimmed, filled, closeAngles_join, squeezeFrom_solid solid, read, List.cons_append]
    · intro w mem
      refine solid_of_mem_splitWhere (t := c :: u) ?_
      rw [cut]
      rcases List.mem_cons.mp mem with rfl | mem
      · exact List.mem_cons_self
      · exact List.mem_cons_of_mem _ (List.mem_of_mem_filter mem)
    · intro w mem empty
      have := (List.mem_filter.mp mem).2
      rw [empty] at this
      cases this

/-! ## 2. Blanks that say nothing -/

/-- A rewriting of the blanks inside a text: a run of blanks is replaced by another one, or blanks
are written in front of a `>`. -/
inductive Respacing : Text → Text → Prop
  | gap (s t : Text) {gap gap' : Text} (filled : gap ≠ []) (filled' : gap' ≠ [])
    (blank : ∀ b ∈ gap, isBlank b = true) (blank' : ∀ b ∈ gap', isBlank b = true) :
    Respacing (s ++ gap ++ t) (s ++ gap' ++ t)
  | angle (s t : Text) {gap : Text} (blank : ∀ b ∈ gap, isBlank b = true) :
    Respacing (s ++ '>' :: t) (s ++ gap ++ '>' :: t)

/-- Texts that such rewritings lead from one to the other. -/
def Respaced : Text → Text → Prop :=
  Relation.EqvGen Respacing

/-- Texts that are squeezed alike behind any text. -/
structure SqueezedAlike (s t : Text) : Prop where
  first : squeeze s = squeeze t
  behind : ∀ gap, squeezeFrom gap s = squeezeFrom gap t

theorem squeezeFrom_blanks (filled : gap ≠ []) (blank : ∀ b ∈ gap, isBlank b = true)
    (waiting : Bool) (t : Text) : squeezeFrom waiting (gap ++ t) = squeezeFrom true t := by
  induction gap generalizing waiting with
  | nil => exact absurd rfl filled
  | cons b gap ih =>
    rw [List.cons_append, squeezeFrom_blank (blank b List.mem_cons_self)]
    obtain _ | ⟨d, gap⟩ := gap
    · rfl
    · exact ih (List.cons_ne_nil d gap) (fun e mem => blank e (List.mem_cons_of_mem b mem)) true

theorem squeeze_blanks_append (blank : ∀ b ∈ gap, isBlank b = true) (t : Text) :
    squeeze (gap ++ t) = squeeze t := by
  rw [squeeze, Text.trimStart, Text.dropStart, List.dropWhile_append_of_pos blank]
  rfl

theorem squeeze_solid (solid : isBlank c = false) (t : Text) :
    squeeze (c :: t) = c :: squeezeFrom false t := by
  rw [squeeze, Text.trimStart, Text.dropStart, List.dropWhile_cons_of_neg (by simp [solid]),
    squeezeFrom_solid solid]

namespace SqueezedAlike

theorem append_left (h : SqueezedAlike s t) (front : Text) :
    SqueezedAlike (front ++ s) (front ++ t) := by
  induction front with
  | nil => exact h
  | cons c front ih =>
    cases blank : isBlank c with
    | true =>
      have alone : ∀ b ∈ [c], isBlank b = true := by simpa using blank
      have skip (u : Text) : squeeze (c :: u) = squeeze u := squeeze_blanks_append alone u
      refine ⟨?_, fun gap => ?_⟩
      · rw [List.cons_append, List.cons_append, skip, skip, ih.first]
      · rw [List.cons_append, List.cons_append, squeezeFrom_blank blank, squeezeFrom_blank blank,
          ih.behind]
    | false =>
      refine ⟨?_, fun gap => ?_⟩
      · rw [List.cons_append, List.cons_append, squeeze_solid blank, squeeze_solid blank, ih.behind]
      · rw [List.cons_append, List.cons_append, squeezeFrom, squeezeFrom, ih.behind, ih.behind]

theorem of_gaps {gap gap' : Text} (filled : gap ≠ []) (filled' : gap' ≠ [])
    (blank : ∀ b ∈ gap, isBlank b = true) (blank' : ∀ b ∈ gap', isBlank b = true) (t : Text) :
    SqueezedAlike (gap ++ t) (gap' ++ t) where
  first := by rw [squeeze_blanks_append blank, squeeze_blanks_append blank']
  behind waiting := by rw [squeezeFrom_blanks filled blank, squeezeFrom_blanks filled' blank']

theorem of_angle (blank : ∀ b ∈ gap, isBlank b = true) (t : Text) :
    SqueezedAlike ('>' :: t) (gap ++ '>' :: t) where
  first := (squeeze_blanks_append blank _).symm
  behind waiting := by
    by_cases filled : gap = []
    · rw [filled, List.nil_append]
    · rw [squeezeFrom_blanks filled blank]
      cases waiting <;> rfl

theorem of_blanks (blank : ∀ b ∈ gap, isBlank b = true) : SqueezedAlike gap [] where
  first := by rw [← List.append_nil gap, squeeze_blanks_append blank]
  behind waiting := by
    by_cases filled : gap = []
    · rw [filled]
    · rw [← List.append_nil gap, squeezeFrom_blanks filled blank]
      rfl

end SqueezedAlike

theorem Respacing.squeezedAlike (h : Respacing s t) : SqueezedAlike s t := by
  cases h with
  | gap s t filled filled' blank blank' =>
    rw [List.append_assoc, List.append_assoc]
    exact (SqueezedAlike.of_gaps filled filled' blank blank' t).append_left s
  | angle s t blank =>
    rw [List.append_assoc]
    exact (SqueezedAlike.of_angle blank t).append_left s

theorem Respacing.append (h : Respacing s t) (front back : Text) :
    Respacing (front ++ s ++ back) (front ++ t ++ back) := by
  cases h with
  | gap s t filled filled' blank blank' =>
    simpa [List.append_assoc] using Respacing.gap (front ++ s) (t ++ back) filled filled' blank
      blank'
  | angle s t blank =>
    simpa [List.append_assoc] using Respacing.angle (front ++ s) (t ++ back) blank

/-- Inside of a longer text the rewritings are the same. -/
theorem Respaced.append (h : Respaced s t) (front back : Text) :
    Respaced (front ++ s ++ back) (front ++ t ++ back) := by
  induction h with
  | rel s t step => exact .rel _ _ (step.append front back)
  | refl s => exact .refl _
  | symm s t _ ih => exact .symm _ _ ih
  | trans s t u _ _ ih ih' => exact .trans _ _ _ ih ih'

theorem Respaced.squeeze_eq (h : Respaced s t) : squeeze s = squeeze t := by
  induction h with
  | rel s t step => exact step.squeezedAlike.first
  | refl s => rfl
  | symm s t _ ih => exact ih.symm
  | trans s t u _ _ ih ih' => exact ih.trans ih'

/-- The canonical spelling of a text whose blanks have been squeezed. -/
def renameStrings (t : Text) : Text :=
  Text.replace "std::basic_string<char>".toList "std::string".toList
    (Text.replace "std::basic_string<char, std::char_traits<char>, std::allocator<char>>".toList
      "std::string".toList t)

theorem canonical_eq (t : Text) : canonical t = renameStrings (squeeze t) := by
  rw [← closeAngles_join_words]
  rfl

theorem Respaced.canonical_eq (h : Respaced s t) : canonical s = canonical t := by
  rw [Declaration.canonical_eq, Declaration.canonical_eq, h.squeeze_eq]

/-- Blanks at the ends of a text say nothing either. -/
theorem canonical_between {gap gap' : Text} (blank : ∀ b ∈ gap, isBlank b = true)
    (blank' : ∀ b ∈ gap', isBlank b = true) (t : Text) :
      canonical (gap ++ t ++ gap') = canonical t := by
  have last := ((SqueezedAlike.of_blanks blank').append_left t).first
  rw [canonical_eq, canonical_eq, List.append_assoc, squeeze_blanks_append blank, last,
    List.append_nil]

/-! ## 3. What squeezing leaves -/

/-- The only blanks are single spaces between characters, and no `>` stands behind one. -/
structure Squeezed (t : Text) : Prop where
  space : ∀ c ∈ t, isBlank c = true → c = ' '
  tight : t.IsChain fun c d => isBlank c = true → isBlank d = false ∧ d ≠ '>'
  first : ∀ c ∈ t.head?, isBlank c = false
  last : ∀ c ∈ t.getLast?, isBlank c = false

theorem space_of_mem_squeezeFrom {gap : Bool} (mem : c ∈ squeezeFrom gap t)
    (blank : isBlank c = true) :
    c = ' ' := by
  fun_induction squeezeFrom gap t with
  | case1 => cases mem
  | case2 _ _ _ _ ih => exact ih mem
  | case3 _ d _ solid _ ih =>
    rcases List.mem_cons.mp mem with rfl | mem
    · rfl
    rcases List.mem_cons.mp mem with rfl | mem
    · exact absurd blank solid
    · exact ih mem
  | case4 _ d _ solid _ ih =>
    rcases List.mem_cons.mp mem with rfl | mem
    · exact absurd blank solid
    · exact ih mem

theorem isChain_squeezeFrom (gap : Bool) (t : Text) :
    (squeezeFrom gap t).IsChain fun c d => isBlank c = true → isBlank d = false ∧ d ≠ '>' := by
  fun_induction squeezeFrom gap t with
  | case1 => exact .nil
  | case2 _ _ _ _ ih => exact ih
  | case3 gap c t solid apart ih =>
    have behind : (c :: squeezeFrom false t).IsChain
        fun c d => isBlank c = true → isBlank d = false ∧ d ≠ '>' :=
      List.isChain_cons.mpr ⟨fun _ _ blank => absurd blank solid, ih⟩
    refine List.isChain_cons_cons.mpr ⟨fun _ => ⟨Bool.eq_false_iff.mpr solid, ?_⟩, behind⟩
    simpa using (Bool.and_eq_true_iff.mp apart).2
  | case4 gap c t solid _ ih =>
    exact List.isChain_cons.mpr ⟨fun _ _ blank => absurd blank solid, ih⟩

theorem solid_last_squeezeFrom {gap : Bool} (last : (squeezeFrom gap t).getLast? = some c) :
    isBlank c = false := by
  fun_induction squeezeFrom gap t with
  | case1 => cases last
  | case2 _ _ _ _ ih => exact ih last
  | case3 _ d _ solid _ ih =>
    rcases getLast?_of_cons last with ⟨none_behind, -⟩ | last
    · cases none_behind
    rcases getLast?_of_cons last with ⟨-, rfl⟩ | last
    · exact Bool.eq_false_iff.mpr solid
    · exact ih last
  | case4 _ d _ solid _ ih =>
    rcases getLast?_of_cons last with ⟨-, rfl⟩ | last
    · exact Bool.eq_false_iff.mpr solid
    · exact ih last

theorem squeezed_squeeze (t : Text) : Squeezed (squeeze t) where
  space _ := space_of_mem_squeezeFrom
  tight := isChain_squeezeFrom _ _
  first := by
    intro c first
    rcases trimStart_eq_nil_or t with trimmed | ⟨d, u, trimmed, solid⟩
    · rw [squeeze, trimmed] at first
      cases first
    · rw [squeeze, trimmed, squeezeFrom_solid solid] at first
      cases first
      exact solid
  last _ last := solid_last_squeezeFrom last

theorem squeezeFrom_of_tight (space : ∀ c ∈ t, isBlank c = true → c = ' ')
    (tight : t.IsChain fun c d => isBlank c = true → isBlank d = false ∧ d ≠ '>')
    (last : ∀ c ∈ t.getLast?, isBlank c = false) : squeezeFrom false t = t := by
  induction t with
  | nil => rfl
  | cons c t ih =>
    obtain ⟨next, rest⟩ := List.isChain_cons.mp tight
    have behind : squeezeFrom false t = t :=
      ih (fun d mem => space d (List.mem_cons_of_mem c mem)) rest fun d at_end =>
        last d (getLast?_cons_of at_end)
    cases blank : isBlank c with
    | false => rw [squeezeFrom_solid blank, behind]
    | true =>
      obtain rfl := space c List.mem_cons_self blank
      cases t with
      | nil => exact absurd blank (by simp [last ' ' rfl])
      | cons d t =>
        obtain ⟨solid, no_angle⟩ := next d rfl blank
        rw [squeezeFrom_solid solid] at behind
        rw [squeezeFrom_blank blank, squeezeFrom_gap solid, List.cons_inj_right d |>.mp behind]
        simp [spaced, no_angle]

/-- A squeezed text is squeezed already. -/
theorem Squeezed.squeeze_eq (h : Squeezed t) : squeeze t = t := by
  cases t with
  | nil => rfl
  | cons c t =>
    have solid : isBlank c = false := h.first c rfl
    rw [squeeze_solid solid, ← squeezeFrom_solid solid]
    exact squeezeFrom_of_tight h.space h.tight h.last

/-! ## 4. What replacing leaves -/

section Replacing

variable {old new piece front : Text}

/-- A text is replaced from the left: it is over, or its first character stays, or an occurrence of
the replaced piece is in front. -/
theorem replace_induction (filled : old ≠ []) {motive : Text → Prop} (nil : motive [])
    (char : ∀ c t, ¬ old <+: c :: t → motive t → motive (c :: t))
    (occurrence : ∀ rest, motive rest → motive (old ++ rest)) (t : Text) : motive t := by
  induction hn : t.length using Nat.strongRecOn generalizing t with
  | ind n ih =>
    subst hn
    obtain _ | ⟨c, t⟩ := t
    · exact nil
    by_cases start : old <+: c :: t
    · obtain ⟨rest, cut⟩ := start
      have shorter : rest.length < (c :: t).length := by
        have := List.length_pos_iff.mpr filled
        rw [← cut, List.length_append]
        omega
      exact cut ▸ occurrence rest (ih rest.length shorter rest rfl)
    · exact char c t start (ih t.length (Nat.lt_succ_self _) t rfl)

/-- An occurrence of the piece lies on one side of `new`, wherever that is written. -/
def Apart (piece new : Text) : Prop :=
  ∀ s t, piece <:+: s ++ new ++ t → piece <:+: s ∨ piece <:+: t

/-- An occurrence in two texts lies in one of them or reaches from the first into the second. -/
theorem infix_append_cases (inside : piece <:+: s ++ t) :
    piece <:+: s ∨ piece <:+: t ∨ ∃ u v, piece = u ++ v ∧ u ≠ [] ∧ v ≠ [] ∧ u <:+ s ∧ v <+: t := by
  obtain ⟨a, b, cut⟩ := inside
  rw [List.append_assoc] at cut
  rcases List.append_eq_append_iff.mp cut with ⟨v, rfl, behind⟩ | ⟨v, rfl, rfl⟩
  · rcases List.append_eq_append_iff.mp behind with ⟨w, rfl, rfl⟩ | ⟨w, rfl, rfl⟩
    · exact .inl ⟨a, w, by simp⟩
    · by_cases ends : v = []
      · subst ends
        exact .inr (.inl ⟨[], b, rfl⟩)
      by_cases starts : w = []
      · subst starts
        exact .inl ⟨a, [], by simp⟩
      · exact .inr (.inr ⟨v, w, rfl, ends, starts, List.suffix_append _ _, List.prefix_append _ _⟩)
  · exact .inr (.inl ⟨v, b, by simp⟩)

/-- Neither of two texts starts the other. -/
def Diverge (s t : Text) : Prop :=
  ¬ s <+: t ∧ ¬ t <+: s

instance (s t : Text) : Decidable (Diverge s t) :=
  inferInstanceAs (Decidable (_ ∧ _))

/-- It is enough to compare all ends of the one with the other. -/
theorem Apart.of_tails (reaches : ∀ v ∈ piece.tails, v ≠ [] → Diverge v new)
    (starts : ∀ u ∈ new.tails, u ≠ [] → Diverge u piece) : Apart piece new := by
  intro s t inside
  by_cases empty : piece = []
  · exact .inl (empty ▸ List.nil_infix)
  rw [List.append_assoc] at inside
  rcases infix_append_cases inside with inside | inside | ⟨u, v, rfl, -, filled, -, start⟩
  · exact .inl inside
  · rcases infix_append_cases inside with inside | inside | ⟨u, v, rfl, filled, -, suffix, -⟩
    · obtain ⟨u, start, suffix⟩ := List.infix_iff_prefix_suffix.mp inside
      have filled : u ≠ [] := by
        rintro rfl
        exact empty (List.prefix_nil.mp start)
      exact absurd start (starts u ((List.mem_tails _ _).mpr suffix) filled).2
    · exact .inr inside
    · exact absurd (List.prefix_append u v) (starts u ((List.mem_tails _ _).mpr suffix) filled).1
  · have ends := reaches v ((List.mem_tails _ _).mpr (List.suffix_append u v)) filled
    rcases List.prefix_or_prefix_of_prefix start (List.prefix_append new t) with short | long
    · exact absurd short ends.1
    · exact absurd long ends.2

/-- Replacing by a text that the piece stays apart from makes no occurrence of it. -/
theorem infix_of_infix_replace (filled : old ≠ []) (apart : Apart piece new)
    (inside : piece <:+: front ++ Text.replace old new t) : piece <:+: front ++ t := by
  induction t using replace_induction filled generalizing front with
  | nil => rwa [Source.replace_nil] at inside
  | char c t absent ih =>
    rw [Source.replace_cons absent, ← List.singleton_append, ← List.append_assoc] at inside
    have := ih inside
    rwa [List.append_assoc] at this
  | occurrence rest ih =>
    rw [Source.replace_append filled, ← List.append_assoc] at inside
    rcases apart _ _ inside with inside | inside
    · exact inside.trans (List.prefix_append _ _).isInfix
    · have behind : piece <:+: [] ++ rest := ih inside
      exact behind.trans ((List.suffix_append old rest).trans (List.suffix_append front _)).isInfix

theorem not_infix_replace_of_not_infix (filled : old ≠ []) (apart : Apart piece new)
    (absent : ¬ piece <:+: t) : ¬ piece <:+: Text.replace old new t := by
  intro inside
  have whole : piece <:+: [] ++ Text.replace old new t := inside
  exact absent (infix_of_infix_replace filled apart whole)

/-- An occurrence of the replaced piece starts in front of where the replacing started. -/
theorem starts_of_infix_replace (filled : old ≠ []) (apart : Apart old new)
    (inside : old <:+: front ++ Text.replace old new t) :
    ∃ a b, front ++ t = a ++ old ++ b ∧ a.length < front.length := by
  have length : 0 < old.length := List.length_pos_iff.mpr filled
  induction t using replace_induction filled generalizing front with
  | nil =>
    rw [Source.replace_nil] at inside
    obtain ⟨a, b, cut⟩ := inside
    have lengths := congrArg List.length cut
    simp only [List.length_append, List.length_nil] at lengths
    exact ⟨a, b, cut.symm, by omega⟩
  | char c t absent ih =>
    rw [Source.replace_cons absent, ← List.singleton_append, ← List.append_assoc] at inside
    obtain ⟨a, b, cut, short⟩ := ih inside
    rw [List.append_assoc, List.append_assoc] at cut
    refine ⟨a, b, by rw [List.append_assoc]; exact cut, ?_⟩
    -- an occurrence right behind the front would have been replaced
    by_contra far
    have same : front.length = a.length := by
      rw [List.length_append, List.length_singleton] at short
      omega
    obtain ⟨-, here⟩ := List.append_inj cut same
    exact absent ⟨b, here.symm⟩
  | occurrence rest ih =>
    rw [Source.replace_append filled, ← List.append_assoc] at inside
    rcases apart _ _ inside with ⟨a, b, cut⟩ | inside
    · have lengths := congrArg List.length cut
      simp only [List.length_append] at lengths
      exact ⟨a, b ++ (old ++ rest), by rw [← cut]; simp, by omega⟩
    · have behind : old <:+: [] ++ Text.replace old new rest := inside
      obtain ⟨a, b, -, short⟩ := ih behind
      exact absurd short (Nat.not_lt_zero _)

theorem not_infix_replace (filled : old ≠ []) (apart : Apart old new) (t : Text) :
    ¬ old <:+: Text.replace old new t := by
  intro inside
  have whole : old <:+: [] ++ Text.replace old new t := inside
  obtain ⟨a, b, -, short⟩ := starts_of_infix_replace filled apart whole
  exact absurd short (Nat.not_lt_zero _)

theorem mem_replace (filled : old ≠ []) (mem : c ∈ Text.replace old new t) : c ∈ t ∨ c ∈ new := by
  induction t using replace_induction filled with
  | nil =>
    rw [Source.replace_nil] at mem
    exact .inl mem
  | char d t absent ih =>
    rw [Source.replace_cons absent] at mem
    rcases List.mem_cons.mp mem with rfl | mem
    · exact .inl List.mem_cons_self
    · exact (ih mem).imp_left (List.mem_cons_of_mem d)
  | occurrence rest ih =>
    rw [Source.replace_append filled] at mem
    rcases List.mem_append.mp mem with mem | mem
    · exact .inr mem
    · exact (ih mem).imp_left (List.mem_append_right old)

theorem head_replace (filled : old ≠ []) (written : new ≠ [])
    (first : c ∈ (Text.replace old new t).head?) : c ∈ t.head? ∨ c ∈ new := by
  induction t using replace_induction filled with
  | nil =>
    rw [Source.replace_nil] at first
    exact .inl first
  | char d t absent _ =>
    rw [Source.replace_cons absent] at first
    exact .inl first
  | occurrence rest _ =>
    rw [Source.replace_append filled, List.head?_append_of_ne_nil _ written] at first
    exact .inr (List.mem_of_head? first)

theorem eq_nil_of_replace (filled : old ≠ []) (written : new ≠ [])
    (gone : Text.replace old new t = []) :
    t = [] := by
  induction t using replace_induction filled with
  | nil => rfl
  | char d t absent _ =>
    rw [Source.replace_cons absent] at gone
    cases gone
  | occurrence rest _ =>
    rw [Source.replace_append filled] at gone
    exact absurd (List.append_eq_nil_iff.mp gone).1 written

theorem last_replace (filled : old ≠ []) (written : new ≠ [])
    (last : c ∈ (Text.replace old new t).getLast?) : c ∈ t.getLast? ∨ c ∈ new := by
  induction t using replace_induction filled with
  | nil =>
    rw [Source.replace_nil] at last
    exact .inl last
  | char d t absent ih =>
    rw [Source.replace_cons absent] at last
    rcases getLast?_of_cons last with ⟨gone, rfl⟩ | last
    · rw [eq_nil_of_replace filled written gone]
      exact .inl rfl
    · exact (ih last).imp_left getLast?_cons_of
  | occurrence rest ih =>
    rw [Source.replace_append filled, List.getLast?_append, Option.mem_def,
      Option.or_eq_some_iff] at last
    rcases last with last | ⟨-, last⟩
    · refine (ih last).imp_left fun at_end => ?_
      rw [Option.mem_def, List.getLast?_append, at_end]
      rfl
    · exact .inr (List.mem_of_getLast? last)

/-- A text stays squeezed if what is replaced becomes a word. -/
theorem Squeezed.replace (h : Squeezed t) (filled : old ≠ []) (written : new ≠ [])
    (solid : ∀ c ∈ new, isBlank c = false ∧ c ≠ '>') : Squeezed (Text.replace old new t) where
  space c mem blank := by
    rcases mem_replace filled mem with mem | mem
    · exact h.space c mem blank
    · exact absurd blank (by simp [(solid c mem).1])
  tight := by
    have tight := h.tight
    clear h
    induction t using replace_induction filled with
    | nil => rwa [Source.replace_nil]
    | char c t absent ih =>
      obtain ⟨next, rest⟩ := List.isChain_cons.mp tight
      rw [Source.replace_cons absent]
      refine List.isChain_cons.mpr ⟨fun d first => ?_, ih rest⟩
      rcases head_replace filled written first with first | mem
      · exact next d first
      · exact fun _ => solid d mem
    | occurrence rest ih =>
      rw [Source.replace_append filled]
      refine List.isChain_append.mpr ⟨?_, ih (List.isChain_append.mp tight).2.1, ?_⟩
      · refine List.Pairwise.isChain (List.pairwise_of_forall_mem_list fun c mem _ _ blank => ?_)
        exact absurd blank (by simp [(solid c mem).1])
      · intro c last _ _ blank
        exact absurd blank (by simp [(solid c (List.mem_of_getLast? last)).1])
  first c first := by
    rcases head_replace filled written first with first | mem
    · exact h.first c first
    · exact (solid c mem).1
  last c last := by
    rcases last_replace filled written last with last | mem
    · exact h.last c last
    · exact (solid c mem).1

end Replacing

/-! ## 5. The normal form -/

/-- `std::string`, spelled out as a template. -/
def stringTemplates : List Text :=
  ["std::basic_string<char, std::char_traits<char>, std::allocator<char>>".toList,
    "std::basic_string<char>".toList]

/-- A text in normal spelling is squeezed, and no string in it is spelled out. -/
structure Normal (t : Text) : Prop extends Squeezed t where
  renamed : ∀ template ∈ stringTemplates, ¬ template <:+: t

/-- A string is spelled out neither behind nor in front of nor around its name. -/
theorem apart_string : ∀ template ∈ stringTemplates, Apart template "std::string".toList := by
  have diverge : ∀ template ∈ stringTemplates,
      (∀ v ∈ template.tails, v ≠ [] → Diverge v "std::string".toList) ∧
        ∀ u ∈ "std::string".toList.tails, u ≠ [] → Diverge u template := by
    decide +kernel
  intro template mem
  exact Apart.of_tails (diverge template mem).1 (diverge template mem).2

theorem Squeezed.renameStrings (h : Squeezed t) : Normal (renameStrings t) := by
  have long := apart_string _ (List.mem_cons_self)
  have short := apart_string _ (List.mem_cons_of_mem _ List.mem_cons_self)
  have solid : ∀ c ∈ "std::string".toList, isBlank c = false ∧ c ≠ '>' := by decide
  refine { toSqueezed := ?_, renamed := ?_ }
  · exact (h.replace (by decide) (by decide) solid).replace (by decide) (by decide) solid
  · intro template mem
    rcases List.mem_cons.mp mem with rfl | mem
    · -- the second replacing makes no occurrence of what the first one took away
      exact not_infix_replace_of_not_infix (by decide) long (not_infix_replace (by decide) long t)
    · obtain rfl := List.mem_singleton.mp mem
      exact not_infix_replace (by decide) short _

theorem normal_canonical (t : Text) : Normal (canonical t) :=
  canonical_eq t ▸ (squeezed_squeeze t).renameStrings

/-- A text in normal spelling is its own canonical spelling. -/
theorem Normal.canonical_eq (h : Normal t) : canonical t = t := by
  rw [Declaration.canonical_eq, h.squeeze_eq, renameStrings,
    Source.replace_eq_self (h.renamed _ List.mem_cons_self),
    Source.replace_eq_self (h.renamed _ (List.mem_cons_of_mem _ List.mem_cons_self))]

/-! ## 6. Signatures -/

theorem Respaced.append_append {s' t' : Text} (h : Respaced s t) (h' : Respaced s' t') :
    Respaced (s ++ s') (t ++ t') := by
  have front := h.append [] s'
  have back := h'.append t []
  rw [List.append_nil, List.append_nil] at back
  exact .trans _ _ _ front back

theorem Respaced.join {parts parts' : List Text} (h : List.Forall₂ Respaced parts parts')
    (sep : Text) :
    Respaced (Text.join sep parts) (Text.join sep parts') := by
  induction h with
  | nil => exact .refl _
  | @cons p p' ps ps' first rest ih =>
    cases rest with
    | nil =>
      have single (q : Text) : Text.join sep [q] = q := List.append_nil q
      rw [single, single]
      exact first
    | cons _ _ =>
      rw [Source.join_cons_cons, Source.join_cons_cons]
      exact (first.append_append (.refl sep)).append_append ih

/-- Signatures with the same name whose types differ in blanks that say nothing. -/
structure Signature.Alike (s s' : Signature) : Prop where
  returnType : Respaced s.returnType s'.returnType
  name : s.name = s'.name
  argTypes : List.Forall₂ Respaced s.argTypes s'.argTypes

theorem Signature.Alike.dedupKey_eq {s s' : Signature} (h : s.Alike s') :
    s.dedupKey = s'.dedupKey := by
  have args : Respaced (applied s.name s.argTypes) (applied s'.name s'.argTypes) := by
    rw [applied, applied, h.name]
    have list := (Respaced.join h.argTypes ", ".toList).append (s'.name ++ ['(']) [')']
    simpa [List.append_assoc] using list
  have whole := h.returnType.append_append (args.append [' '] [])
  rw [List.append_nil, List.append_nil] at whole
  exact whole.canonical_eq

/-- Blanks at the ends of an argument's type are not inside it, and they do count. -/
example : canonical "int f( int)".toList ≠ canonical "int f(int)".toList := by decide +kernel

end AccessorCatalog.Declaration

namespace AccessorCatalog

/-! ## 7. Methods with one key in a catalog -/

section Keys

variable {α : Type} {key : α → Text} {a b : α}

theorem exists_key_mem_firstOfKeys {as : List α} (mem : a ∈ as) :
    ∃ b ∈ firstOfKeys key as, key b = key a := by
  induction as with
  | nil => cases mem
  | cons first as ih =>
    by_cases same : key first = key a
    · exact ⟨first, List.mem_cons_self, same⟩
    · rcases List.mem_cons.mp mem with rfl | mem
      · exact absurd rfl same
      · obtain ⟨b, kept, eq⟩ := ih mem
        have other : key b ≠ key first := fun h => same (h.symm.trans eq)
        exact ⟨b, List.mem_cons_of_mem first (List.mem_filter.mpr ⟨kept, bne_iff_ne.mpr other⟩), eq⟩

/-- An element behind another one with its key is as good as not there. -/
theorem firstOfKeys_append_cons {front : List α} (mem : a ∈ front) (same : key a = key b)
    (behind : List α) :
    firstOfKeys key (front ++ b :: behind) = firstOfKeys key (front ++ behind) := by
  obtain ⟨kept, listed, eq⟩ : ∃ kept ∈ firstOfKeys key front, key kept = key a :=
    exists_key_mem_firstOfKeys mem
  have taken : ((firstOfKeys key front).any fun c => key c == key b) = true := by
    refine List.any_eq_true.mpr ⟨kept, listed, ?_⟩
    rw [eq, same, beq_self_eq_true]
  rw [← foldl_addFirst_nil, ← foldl_addFirst_nil, List.foldl_append, List.foldl_append,
    foldl_addFirst_nil, List.foldl_cons, addFirst, if_pos taken]

end Keys

namespace Survey

open Declaration

/-- The methods that the entry of a class lists if they are met in this order, with their keys. -/
def Knowledge.listed (k : Knowledge) (name : Text) (met : List (Text × MethodAccessor)) :
    List MethodAccessor :=
  let roots := (firstOfKeys Prod.fst met).filter fun m => k.lists m.2.returnType m.2.owner
  roots.map Prod.snd ++ k.chained name roots

theorem Knowledge.mem_listed {k : Knowledge} {name : Text} {key : Text} {m : MethodAccessor}
    {before behind : List (Text × MethodAccessor)} (others : ∀ other ∈ before, other.1 ≠ key)
    (leads : k.lists m.returnType m.owner = true) :
      m ∈ k.listed name (before ++ (key, m) :: behind) := by
  have first : (key, m) ∈ firstOfKeys Prod.fst (before ++ (key, m) :: behind) :=
    mem_firstOfKeys.mpr ⟨before, behind, rfl, others⟩
  exact List.mem_append_left _ (List.mem_map.mpr ⟨_, List.mem_filter.mpr ⟨first, leads⟩, rfl⟩)

/-- The methods that a class is met with, from the class outwards, with their keys. -/
def met (s : Survey) (name : Text) : List (Text × MethodAccessor) :=
  (s.knowledge.layers name (s.run (baseChain · name)).1.bases).flatMap OwnAccessors.methods

/-- Of two methods with signatures that are alike the entry of a class has nothing of the second
one, and it lists the first one, unless another one with the key is met earlier or the type leads
nowhere. -/
def KeepsFirst (s : Survey) (sig sig' : Signature) : Prop :=
  ∀ (name : Text) (m m' : MethodAccessor) (before between behind : List (Text × MethodAccessor)),
    (s.knowledge.info? name).isSome ∨ s.knowledge.classes.contains name →
    s.met name = before ++ (sig.dedupKey, m) :: between ++ (sig'.dedupKey, m') :: behind →
    ∃ e, (s.run (entry · name)).1 = some e ∧
      e.methods = s.knowledge.listed name (before ++ (sig.dedupKey, m) :: between ++ behind) ∧
      ((∀ other ∈ before, other.1 ≠ sig.dedupKey) → s.knowledge.lists m.returnType m.owner = true →
        m ∈ e.methods)

theorem keepsFirst_of_dedupKey_eq {s : Survey} (reached : s.Reached) {sig sig' : Signature}
    (same : sig.dedupKey = sig'.dedupKey) : s.KeepsFirst sig sig' := by
  intro name m m' before between behind known met
  obtain ⟨e, found, lists⟩ := Knowledge.exists_entry_listsNearest known
  have ran : (s.run (entry · name)).1 = some e := (reached.run_eq (answers_entry name)).trans found
  have methods : e.methods = s.knowledge.listed name (s.met name) := by
    rw [lists.methods, Survey.met, reached.run_eq (answers_baseChain name)]
    rfl
  have without : e.methods =
      s.knowledge.listed name (before ++ (sig.dedupKey, m) :: between ++ behind) := by
    have gone : firstOfKeys Prod.fst
          (before ++ (sig.dedupKey, m) :: between ++ (sig'.dedupKey, m') :: behind) =
        firstOfKeys Prod.fst (before ++ (sig.dedupKey, m) :: between ++ behind) :=
      firstOfKeys_append_cons (List.mem_append_right before List.mem_cons_self) same behind
    rw [methods, met, Knowledge.listed, gone]
    rfl
  refine ⟨e, ran, without, fun others leads => ?_⟩
  rw [without, List.append_assoc]
  exact Knowledge.mem_listed others leads

/-- **The canonical spelling is a normal form.**  It is its own canonical spelling, it does not
depend on how many blanks stand where some do, at the ends or in front of a `>`, and it has none of
that and no spelled-out string.  So signatures whose types differ in such blanks have one key, and
in the entry of a class only the first of them counts. -/
theorem canonical_normalForm :
    (∀ t, canonical (canonical t) = canonical t) ∧
      (∀ s t, Respaced s t → canonical s = canonical t) ∧
      (∀ gap t gap', (∀ b ∈ gap, Text.isBlank b = true) → (∀ b ∈ gap', Text.isBlank b = true) →
        canonical (gap ++ t ++ gap') = canonical t) ∧
      (∀ t, Normal (canonical t)) ∧
      (∀ sig sig' : Signature, sig.Alike sig' → sig.dedupKey = sig'.dedupKey) ∧
      ∀ s : Survey, s.Reached → ∀ sig sig' : Signature, sig.Alike sig' → s.KeepsFirst sig sig' := by
  refine ⟨?_, ?_, ?_, normal_canonical, ?_, ?_⟩
  · intro t
    exact (normal_canonical t).canonical_eq
  · intro s t respaced
    exact respaced.canonical_eq
  · intro gap t gap' blank blank'
    exact canonical_between blank blank' t
  · intro sig sig' alike
    exact alike.dedupKey_eq
  · intro s reached sig sig' alike
    exact keepsFirst_of_dedupKey_eq reached alike.dedupKey_eq

/-- One accessor, as an oracle can spell it. -/
def spacedHits : Signature := ⟨"std::vector<int >".toList, "hits".toList, [], []⟩

/-- The same accessor, as it can be spelled as well. -/
def tightHits : Signature := ⟨"std::vector<int>".toList, "hits".toList, [], "const".toList⟩

/-- A survey whose oracle says both. -/
def respelled : Survey :=
  start {} fun _ => .known ⟨[spacedHits, tightHits], [], []⟩

/-- What either makes of a class. -/
def hitsAccessor : MethodAccessor :=
  ⟨"Track".toList, "std::vector<int>".toList, "hits".toList, "hits()".toList, "hits()".toList, 0, 0⟩

theorem met_respelled : respelled.met "Track".toList =
    [] ++ (spacedHits.dedupKey, hitsAccessor) :: [] ++ [(tightHits.dedupKey, hitsAccessor)] := by
  have said : respelled.met "Track".toList =
      (OwnAccessors.ofInfo "Track".toList ⟨[spacedHits, tightHits], [], []⟩).methods :=
    List.append_nil _
  rw [said]
  decide +kernel

theorem canonical_normalForm_respelled :
    spacedHits.Alike tightHits ∧ ∃ e, (respelled.run (entry · "Track".toList)).1 = some e ∧
      e.methods =
        respelled.knowledge.listed "Track".toList [(spacedHits.dedupKey, hitsAccessor)] := by
  have alike : spacedHits.Alike tightHits := by
    have closer := @Respacing.angle "std::vector<int".toList [] [' '] (by decide)
    exact ⟨.symm _ _ (.rel _ _ closer), rfl, .nil⟩
  have reached : respelled.Reached := .start {} _ .empty false .empty
  have keeps := canonical_normalForm.2.2.2.2.2 respelled reached spacedHits tightHits alike
  obtain ⟨e, found, listed, -⟩ := keeps "Track".toList _ _ _ _ _ (.inl rfl) met_respelled
  exact ⟨alike, e, found, listed⟩

end Survey
end AccessorCatalog

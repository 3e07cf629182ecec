/-
# The canonical spelling of canonical text

What the library writes of a declaration is in canonical spacing already, apart from one thing: the
normalizer puts a space behind every decoration, and takes it away again in front of a comma, a
close or a template bracket, but not in front of `=` and `[`.  That is what `canonicalSpacing_eq`
says.

One pass puts the spaces there (`Continues.spaceDecorations_eq`).  The passes over commas, closes
and decorations take most of them away again (`DropsBefore.spread_eq`, `replace_spread`), and the
others find nothing to do (`Settled`).
-/
import AccessorCatalog.Proofs.Neighbours

namespace AccessorCatalog.Source

open Text (Pattern countWhile isBlank isWord replaceMatches replaceMatchesFrom)

variable {pattern : Pattern} {image : Text → Text} {s t : Text} {c d : Char}
variable {gap gap' : Char → Char → Text} {cls : Text} {x : Char}

/-! ## 1. Decorations -/

theorem eq_space_of_part (part : isWord c = true ∨ c ∈ signs) (blank : isBlank c = true) :
    c = ' ' := by
  rcases part with word | sign
  · rw [Text.isBlank_of_isWord word] at blank
    cases blank
  · have only : ∀ e ∈ signs, isBlank e = true → e = ' ' := by decide
    exact only c sign blank

theorem isBlank_of_star (star : isStar c = true) : isBlank c = false := by
  have form : c = '*' ∨ c = '&' := by simpa [isStar] using star
  rcases form with rfl | rfl <;> decide

theorem isStar_of_isWord (word : isWord c = true) : isStar c = false := by
  have star : c ≠ '*' := Text.ne_of_isWord word (by decide)
  have reference : c ≠ '&' := Text.ne_of_isWord word (by decide)
  simp [isStar, star, reference]

theorem isStar_of_stop (stop : d = ' ' ∨ d ∈ stops) : isStar d = false := by
  have none_star : isStar ' ' = false ∧ ∀ e ∈ stops, isStar e = false := by decide
  rcases stop with rfl | stop
  · exact none_star.1
  · exact none_star.2 d stop

/-- A decoration, as far as it goes, and what stands behind it. -/
theorem exists_decoration (chain : (c :: t).IsChain fun c d => fits c d = true)
    (star : isStar c = true) (last : ∀ e ∈ (c :: t).getLast?, isStar e = false) :
    ∃ run d u, c :: t = run ++ d :: u ∧ run ≠ [] ∧ decoration? (c :: t) = some run.length ∧
      (∀ e ∈ run, isStar e = true) ∧ (d = ' ' ∨ d ∈ stops) := by
  induction t generalizing c with
  | nil =>
    rw [last c rfl] at star
    cases star
  | cons d t ih =>
    obtain ⟨here, rest⟩ := List.isChain_cons_cons.mp chain
    have form : c = '*' ∨ c = '&' := by simpa [isStar] using star
    have behind : d = ' ' ∨ d ∈ stops → ∃ run e u, c :: d :: t = run ++ e :: u ∧ run ≠ [] ∧
        decoration? (c :: d :: t) = some run.length ∧ (∀ e ∈ run, isStar e = true) ∧
          (e = ' ' ∨ e ∈ stops) := by
      intro stop
      refine ⟨[c], d, t, rfl, by simp, ?_, by simpa using star, stop⟩
      have other : d ≠ '*' ∧ d ≠ '&' := by
        have no_star := isStar_of_stop stop
        simpa [isStar] using no_star
      rcases form with rfl | rfl
      · simp [decoration?, countWhile, other.1]
      · rw [decoration?]
        · rfl
        · rintro u ⟨⟩
          exact other.2 rfl
    rcases fits_star star here with space | stop | ⟨rfl, rfl⟩
    · exact behind (.inl space)
    · exact behind (.inr stop)
    · obtain ⟨run, e, u, cut, filled, length, stars, stop⟩ :=
        ih rest star (by simpa [List.getLast?_cons_cons] using last)
      refine ⟨'*' :: run, e, u, by rw [cut]; rfl, by simp, ?_, by simpa [star] using stars, stop⟩
      have counted : 1 + countWhile (· == '*') t = run.length := Option.some.inj length
      rw [decoration?, countWhile, List.takeWhile_cons_of_pos (by decide), List.length_cons,
        List.length_cons, ← counted, countWhile]
      exact congrArg some (by omega)

/-- A space between a decoration and a character of a class. -/
def behindStar (cls : Text) (c d : Char) : Text :=
  if isStar c && cls.contains d then [' '] else []

theorem behindStar_eq_nil (h : isStar c = false) : behindStar cls c d = [] := by
  simp [behindStar, h]

theorem behindStar_eq_space (h : behindStar cls c d ≠ []) :
    isStar c = true ∧ d ∈ cls ∧ behindStar cls c d = [' '] := by
  unfold behindStar at h ⊢
  split at h
  · next both =>
    rw [if_pos both]
    simpa using both
  · exact absurd rfl h

theorem behindStar_of_not_mem (other : d ∉ cls) (c : Char) : behindStar cls c d = [] := by
  simp [behindStar, other]

theorem gaps_behindStar (solid : ∀ d ∈ cls, isBlank d = false) :
    Gaps (behindStar cls) where
  one c d := by
    unfold behindStar
    split <;> simp
  behind d := ⟨behindStar_eq_nil (by decide), behindStar_eq_nil (by decide)⟩
  before c d blank := by
    have other : d ∉ cls := by
      intro mem
      rw [solid d mem] at blank
      cases blank
    simp [behindStar, other]

theorem decorated_forgetful : Forgetful decorated := fun _ _ _ => rfl

/-- Only a character in front of a decoration is taken. -/
theorem decorated_eq_none (no_star : ∀ d ∈ t.head?, isStar d = false)
    (behind_space : ∀ b u, t = b :: u → isBlank b = true →
      ∀ d ∈ u.head?, isBlank d = false ∧ isStar d = false) :
    decorated none (c :: t) = none := by
  have absent {u : Text} (no_star : ∀ d ∈ u.head?, isStar d = false) : decoration? u = none := by
    cases u with
    | nil => rfl
    | cons d u =>
      have other : d ≠ '*' ∧ d ≠ '&' := by simpa [isStar] using no_star d rfl
      simp [decoration?, other.1, other.2]
  rw [decorated]
  split
  · dsimp only
    cases t with
    | nil => rfl
    | cons b u =>
      cases blank : isBlank b with
      | false =>
        rw [countWhile, List.takeWhile_cons_of_neg (by simp [blank])]
        simp [absent no_star]
      | true =>
        have next := behind_space b u rfl blank
        have no_more : u.takeWhile isBlank = [] := by
          cases u with
          | nil => rfl
          | cons d u => rw [List.takeWhile_cons_of_neg (by simp [(next d rfl).1])]
        have gone : decoration? u = none := absent fun d first => (next d first).2
        simp [countWhile, blank, no_more, gone]
  · rfl

theorem decorated_eq_some {run : Text} (typed : isWord c = true ∨ c = '>')
    (filled : run ≠ []) (stars : ∀ e ∈ run, isStar e = true)
    (length : decoration? (run ++ t) = some run.length) :
    decorated none (c :: (run ++ t)) = some (1 + run.length + countWhile isBlank t) := by
  obtain ⟨e, run, rfl⟩ := List.exists_cons_of_ne_nil filled
  have no_gap : countWhile isBlank (e :: run ++ t) = 0 := by
    have solid := isBlank_of_star (stars e List.mem_cons_self)
    simp [countWhile, solid]
  have before : (isWord c || c == '>' || c == ']') = true := by
    rcases typed with word | rfl
    · simp [word]
    · rfl
  rw [decorated, if_pos before]
  dsimp only
  rw [no_gap, List.drop_zero, length, Option.map_some, Nat.zero_add, List.drop_left]

theorem behindStar_of_star (d_star : isStar d = true) (c : Char) : behindStar stops c d = [] := by
  have form : d = '*' ∨ d = '&' := by simpa [isStar] using d_star
  rcases form with rfl | rfl <;> simp [behindStar, stops]

theorem isBlank_of_typed (typed : isWord c = true ∨ c = '>') : isBlank c = false := by
  rcases typed with word | rfl
  · exact Text.isBlank_of_isWord word
  · decide

/-- The first pass of the normalizer: a space goes behind every decoration. -/
def spaceDecorations (t : Text) : Text :=
  replaceMatches decorated (fun m => solid m ++ [' ']) t

/-- Behind a decoration there is one space, which is the text's own or added. -/
theorem spread_decoration {run : Text} {f : Char} (filled : run ≠ [])
    (stars : ∀ e ∈ run, isStar e = true) (stop : f ∈ stops ∨ f = ' ') :
    spread (behindStar stops) (c :: (run ++ f :: t)) =
      c :: run ++ (if f = ' ' then [] else [' ']) ++ spread (behindStar stops) (f :: t) := by
  obtain ⟨init, l, cut⟩ := List.eq_nil_or_concat run |>.resolve_left filled
  rw [List.concat_eq_append] at cut
  have l_star : isStar l = true := stars l (by simp [cut])
  have parts : spread (behindStar stops) (c :: init ++ l :: f :: t) = spread (behindStar stops)
      (c :: init ++ [l]) ++ behindStar stops l f ++ spread (behindStar stops) (f :: t) :=
    spread_append (c :: init) l f t
  have whole : spread (behindStar stops) (c :: run) = c :: run :=
    spread_solid (fun d mem => behindStar_of_star (stars d mem)) c
  have gap : behindStar stops l f = if f = ' ' then [] else [' '] := by
    rcases stop with stop | rfl
    · have other : f ≠ ' ' := fun same => absurd (same ▸ stop) (by decide)
      simp [behindStar, l_star, stop, other]
    · simp [behindStar, stops]
  have written : c :: init ++ [l] = c :: run := by rw [cut]; rfl
  rw [written, whole, gap] at parts
  rw [← parts, cut]
  simp

theorem solid_decoration {run : Text} (typed : isWord c = true ∨ c = '>')
    (stars : ∀ e ∈ run, isStar e = true) :
    solid (c :: run) = c :: run := by
  refine solid_of_solid fun d mem => ?_
  rcases List.mem_cons.mp mem with rfl | mem
  · exact isBlank_of_typed typed
  · exact isBlank_of_star (stars d mem)

/-- What it does at a decoration with no space behind it. -/
theorem spaceDecorations_stop {run : Text} {f : Char} (typed : isWord c = true ∨ c = '>')
    (filled : run ≠ [])
    (stars : ∀ e ∈ run, isStar e = true) (length : decoration? (run ++ f :: t) = some run.length)
    (stop : f ∈ stops) (rest : spaceDecorations (f :: t) = spread (behindStar stops) (f :: t)) :
    spaceDecorations (c :: (run ++ f :: t)) = spread (behindStar stops) (c :: (run ++ f :: t)) := by
  have solid_stop : isBlank f = false := by
    have none_blank : ∀ e ∈ stops, isBlank e = false := by decide
    exact none_blank f stop
  have other : f ≠ ' ' := by
    rintro rfl
    cases solid_stop
  have taken : decorated none (c :: run ++ f :: t) = some (c :: run).length := by
    rw [List.cons_append, decorated_eq_some typed filled stars length, countWhile,
      List.takeWhile_cons_of_neg (by simp [solid_stop])]
    simp [Nat.add_comm]
  have step : spaceDecorations (c :: run ++ f :: t) =
      solid (c :: run) ++ [' '] ++ spaceDecorations (f :: t) :=
    decorated_forgetful.replaceMatches_append (by simp) taken
  rw [solid_decoration typed stars] at step
  rw [spread_decoration filled stars (.inl stop), if_neg other, ← rest]
  exact step

/-- At a decoration with a space behind it, it puts that space back. -/
theorem spaceDecorations_space {run : Text} (typed : isWord c = true ∨ c = '>') (filled : run ≠ [])
    (stars : ∀ e ∈ run, isStar e = true) (length : decoration? (run ++ ' ' :: t) = some run.length)
    (next : ∀ d ∈ t.head?, isBlank d = false)
    (rest : spaceDecorations t = spread (behindStar stops) t) :
    spaceDecorations (c :: (run ++ ' ' :: t)) =
      spread (behindStar stops) (c :: (run ++ ' ' :: t)) := by
  have taken : decorated none (c :: run ++ [' '] ++ t) = some (c :: run ++ [' ']).length := by
    have one : countWhile isBlank (' ' :: t) = 1 := by
      cases t with
      | nil => rfl
      | cons d t => simp [countWhile, next d rfl, show isBlank ' ' = true from rfl]
    rw [List.append_assoc, List.singleton_append, List.cons_append,
      decorated_eq_some typed filled stars length, one]
    simp [Nat.add_comm]
  have step : spaceDecorations (c :: run ++ [' '] ++ t) =
      solid (c :: run ++ [' ']) ++ [' '] ++ spaceDecorations t :=
    decorated_forgetful.replaceMatches_append (by simp) taken
  have image : solid (c :: run ++ [' ']) = c :: run := by
    have blank : isBlank ' ' = true := by decide
    rw [solid_append, solid_decoration typed stars]
    simp [solid, blank]
  have space : spread (behindStar stops) (' ' :: t) = ' ' :: spread (behindStar stops) t := by
    cases t with
    | nil => rfl
    | cons d t => rw [spread, behindStar_eq_nil (by decide)]; rfl
  rw [image] at step
  rw [spread_decoration filled stars (.inr rfl), if_pos rfl, space, ← rest, List.append_nil]
  simpa [List.append_assoc] using step

/-- Elsewhere it does nothing. -/
theorem spaceDecorations_cons (plain : isStar c = false) (nothing : decorated none (c :: t) = none)
    (rest : spaceDecorations t = spread (behindStar stops) t) :
    spaceDecorations (c :: t) = spread (behindStar stops) (c :: t) := by
  have step : spaceDecorations (c :: t) = c :: spaceDecorations t :=
    decorated_forgetful.replaceMatches_cons nothing
  rw [step, rest]
  cases t with
  | nil => rfl
  | cons d t => rw [spread, behindStar_eq_nil plain]; rfl

/-- Text in canonical spacing from somewhere on, not from the middle of a decoration. -/
structure Continues (t : Text) : Prop where
  part : ∀ c ∈ t, isWord c = true ∨ c ∈ signs
  chain : t.IsChain fun c d => fits c d = true
  first : ∀ c ∈ t.head?, isStar c = false
  last : ∀ c ∈ t.getLast?, c ≠ ' ' ∧ isStar c = false

theorem Continues.behind (h : Continues (s ++ t)) (filled : t ≠ [])
    (first : ∀ c ∈ t.head?, isStar c = false) :
    Continues t where
  part c mem := h.part c (List.mem_append_right s mem)
  chain := h.chain.suffix (List.suffix_append s t)
  first := first
  last c at_end := h.last c (by rwa [List.getLast?_append_of_ne_nil s filled])

/-- No decoration stands behind a character with another one behind it, nor behind that with a blank
between. -/
theorem Continues.undecorated (h : Continues (c :: d :: t)) (plain : isStar d = false) :
    decorated none (c :: d :: t) = none := by
  refine decorated_eq_none (by rintro _ ⟨⟩; exact plain) ?_
  rintro _ u ⟨⟩ blank e next
  obtain rfl := eq_space_of_part (h.part d (by simp)) blank
  obtain _ | ⟨e', u⟩ := t
  · cases next
  cases next
  have word := fits_space (List.isChain_cons_cons.mp (List.isChain_cons_cons.mp h.chain).2).1
  exact ⟨Text.isBlank_of_isWord word, isStar_of_isWord word⟩

/-- At a decoration the pass goes as it goes behind it. -/
theorem Continues.spaceDecorations_star (h : Continues (c :: d :: t)) (star : isStar d = true)
    (rest : ∀ s u, c :: d :: t = s ++ u → s ≠ [] → Continues u →
      spaceDecorations u = spread (behindStar stops) u) :
    spaceDecorations (c :: d :: t) = spread (behindStar stops) (c :: d :: t) := by
  obtain ⟨here, chain⟩ := List.isChain_cons_cons.mp h.chain
  have typed : isWord c = true ∨ c = '>' := by
    rcases fits_before_star star here with word | angle | ⟨rfl, -⟩
    · exact .inl word
    · exact .inr angle
    · cases h.first '*' rfl
  obtain ⟨run, f, u, cut, filled, length, stars, stop⟩ := exists_decoration chain star
    fun e at_end => (h.last e (by rwa [List.getLast?_cons_cons])).2
  rw [cut] at h chain length rest ⊢
  have no_star := isStar_of_stop stop
  rcases stop with rfl | stop
  · obtain _ | ⟨e, u⟩ := u
    · exact absurd rfl (h.last ' ' (by simp [List.getLast?_cons])).1
    have word : isWord e = true := by
      have next := chain.suffix (List.suffix_append run _)
      exact fits_space (List.isChain_cons_cons.mp next).1
    have parts : c :: (run ++ ' ' :: e :: u) = (c :: (run ++ [' '])) ++ e :: u := by simp
    refine spaceDecorations_space typed filled stars length ?_ (rest _ _ parts (by simp) ?_)
    · rintro _ ⟨⟩
      exact Text.isBlank_of_isWord word
    · rw [parts] at h
      refine h.behind (by simp) ?_
      rintro _ ⟨⟩
      exact isStar_of_isWord word
  · have parts : c :: (run ++ f :: u) = (c :: run) ++ f :: u := rfl
    refine spaceDecorations_stop typed filled stars length stop (rest _ _ parts (by simp) ?_)
    rw [parts] at h
    refine h.behind (by simp) ?_
    rintro _ ⟨⟩
    exact no_star

/-- **A space goes behind every decoration.**  Where there is none in the text, one is added. -/
theorem Continues.spaceDecorations_eq (h : Continues t) :
    spaceDecorations t = spread (behindStar stops) t := by
  -- a decoration takes many characters at once, so the induction is on the length
  induction hn : t.length using Nat.strongRecOn generalizing t with
  | ind n ih =>
    subst hn
    have rest (s u : Text) (cut : t = s ++ u) (filled : s ≠ []) (continues : Continues u) :
        spaceDecorations u = spread (behindStar stops) u := by
      refine ih u.length ?_ continues rfl
      rw [cut, List.length_append]
      exact Nat.lt_add_of_pos_left (List.length_pos_of_ne_nil filled)
    obtain _ | ⟨c, _ | ⟨d, t⟩⟩ := t
    · exact replaceMatches_nil
    · exact spaceDecorations_cons (h.first c rfl) (decorated_eq_none (by simp) (by simp))
        replaceMatches_nil
    cases star : isStar d with
    | true => exact h.spaceDecorations_star star rest
    | false =>
      have behind : Continues (d :: t) := by
        refine Continues.behind (s := [c]) h (by simp) ?_
        rintro _ ⟨⟩
        exact star
      exact spaceDecorations_cons (h.first c rfl) (h.undecorated star)
        (rest [c] _ rfl (by simp) behind)

theorem IsCanonical.continues (h : IsCanonical t) : Continues t where
  part := h.part
  chain := h.chain
  first c first := (h.first c first).2.2
  last c last := ⟨(h.last c last).1, (h.last c last).2.2⟩

/-! ## 2. Passes that take spaces away -/

theorem IsCanonical.fits_suffix (h : IsCanonical t) {u : Text} (inside : c :: d :: u <:+ t) :
    fits c d = true ∧ (d = ' ' → ∃ e v, u = e :: v ∧ isWord e = true) := by
  obtain ⟨here, rest⟩ := List.isChain_cons_cons.mp (h.chain.suffix inside)
  refine ⟨here, ?_⟩
  rintro rfl
  obtain _ | ⟨e, v⟩ := u
  · obtain ⟨s, rfl⟩ := inside
    exact absurd rfl (h.last ' ' (by simp)).1
  · exact ⟨e, v, rfl, fits_space (List.isChain_cons_cons.mp rest).1⟩

theorem IsCanonical.isBlank_eq_false (h : IsCanonical t) (mem : c ∈ t) (other : c ≠ ' ') :
    isBlank c = false :=
  Bool.eq_false_iff.mpr fun blank => other (eq_space_of_part (h.part c mem) blank)

/-- A pass that takes the space in front of a character away, and keeps everything else of a text in
which a space and a word follow every comma. -/
structure DropsBefore (x : Char) (pass : Text → Text) : Prop where
  nil : pass [] = []
  keep : ∀ c u, isBlank c = false → (c = ',' → ∃ e v, u = ' ' :: e :: v ∧ isWord e = true) →
    pass (c :: u) = c :: pass u
  space : ∀ d u, d ≠ x → isBlank d = false → pass (' ' :: d :: u) = ' ' :: pass (d :: u)
  drop : ∀ u, pass (' ' :: x :: u) = pass (x :: u)

/-- **Such a pass takes the gaps in front of the character away.** -/
theorem DropsBefore.spread_eq {pass : Text → Text} (h : DropsBefore x pass)
    (no_word : isWord x = false) (gaps : Gaps gap) (canonical : IsCanonical t) :
    pass (spread gap t) = spread (fun c d => if d = x then [] else gap c d) t := by
  refine spread_pass h.nil (fun c last => ?_) fun c d u inside => ?_
  · have at_end := canonical.last c last
    have solid := canonical.isBlank_eq_false (List.mem_of_getLast? last) at_end.1
    rw [h.keep c [] solid (fun comma => absurd comma at_end.2.1), h.nil]
  · obtain ⟨fit, next⟩ := canonical.fits_suffix inside
    have after_comma : c = ',' → ∃ e v, gap c d ++ spread gap (d :: u) = ' ' :: e :: v ∧
        isWord e = true := by
      rintro rfl
      obtain rfl := fits_comma fit
      obtain ⟨e, v, rfl, word⟩ := next rfl
      obtain ⟨rest, cut⟩ : ∃ rest, spread gap (e :: v) = e :: rest := spread_cons e v
      exact ⟨e, rest, by rw [spread, cut, (gaps.behind ' ').2, (gaps.behind e).1]; rfl, word⟩
    obtain ⟨rest, cut⟩ : ∃ rest, spread gap (d :: u) = d :: rest := spread_cons d u
    rw [cut] at after_comma ⊢
    by_cases c_space : c = ' '
    · subst c_space
      have word := fits_space fit
      have other : d ≠ x := Text.ne_of_isWord word no_word
      rw [(gaps.behind d).1, if_neg other, List.nil_append,
        h.space d rest other (Text.isBlank_of_isWord word), List.nil_append]
    · have c_solid := canonical.isBlank_eq_false (inside.subset List.mem_cons_self) c_space
      rw [h.keep c _ c_solid after_comma]
      rcases gaps.one c d with no_gap | space
      · rw [no_gap, ite_self]
        rfl
      · have solid : isBlank d = false := Bool.eq_false_iff.mpr fun blank => by
          rw [gaps.before c d blank] at space
          cases space
        rw [space, List.singleton_append]
        by_cases here : d = x
        · subst here
          rw [if_pos rfl, h.drop, List.nil_append]
        · rw [if_neg here, h.space d rest here solid, List.singleton_append]

theorem behindStar_without (unlisted : x ∉ cls) :
    (fun c d => if d = x then [] else behindStar (x :: cls) c d) = behindStar cls := by
  funext c d
  by_cases here : d = x
  · simp [behindStar, here, unlisted]
  · simp [behindStar, here]

theorem padded_eq_none {lead : Text} (blank : ∀ b ∈ lead, isBlank b = true)
    (solid : isBlank d = false)
    (other : d ≠ x) (u : Text) : padded [x] none (lead ++ d :: u) = none := by
  have count : countWhile isBlank (lead ++ d :: u) = lead.length := by
    rw [countWhile, takeWhile_append_stop solid, List.takeWhile_eq_self_iff.mpr blank]
  rw [padded, count, List.drop_left, Text.afterPrefix?, if_neg (Ne.symm other)]
  rfl

theorem padded_eq_some {lead gap : Text} (lead_blank : ∀ b ∈ lead, isBlank b = true)
    (solid : isBlank x = false) (gap_blank : ∀ b ∈ gap, isBlank b = true)
    (next : ∀ d ∈ t.head?, isBlank d = false) :
    padded [x] none (lead ++ x :: gap ++ t) = some (lead ++ x :: gap).length := by
  have count : countWhile isBlank (lead ++ x :: gap ++ t) = lead.length := by
    rw [countWhile, List.append_assoc, List.cons_append, takeWhile_append_stop solid,
      List.takeWhile_eq_self_iff.mpr lead_blank]
  have behind : countWhile isBlank (gap ++ t) = gap.length := by
    rw [countWhile, List.takeWhile_append_of_pos gap_blank]
    cases t with
    | nil => simp
    | cons d t => rw [List.takeWhile_cons_of_neg (by simp [next d rfl]), List.append_nil]
  rw [padded, count, List.append_assoc, List.drop_left, List.cons_append, Text.afterPrefix?,
    if_pos rfl, Text.afterPrefix?, Option.map_some, behind]
  simp [Nat.add_assoc, Nat.add_comm 1]

theorem padded_forgetful (piece : Text) : Forgetful (padded piece) := fun _ _ _ => rfl

/-- A text as a run of blanks and the rest. -/
theorem exists_blanks (t : Text) : ∃ gap rest, t = gap ++ rest ∧ (∀ b ∈ gap, isBlank b = true) ∧
    ∀ d ∈ rest.head?, isBlank d = false := by
  refine ⟨t.takeWhile isBlank, t.dropWhile isBlank, List.takeWhile_append_dropWhile.symm,
    fun _ => List.mem_takeWhile_imp, fun d first => ?_⟩
  have next := List.head?_dropWhile_not isBlank t
  rw [Option.mem_def.mp first] at next
  exact next

/-- The pass over commas: each has one space behind it and none in front. -/
def spaceCommas (t : Text) : Text :=
  replaceMatches (padded [',']) (fun _ => [',', ' ']) t

theorem dropsBefore_spaceCommas : DropsBefore ',' spaceCommas where
  nil := replaceMatches_nil
  keep c u solid after_comma := by
    have no_blank : ∀ b ∈ ([] : Text), isBlank b = true := by simp
    have space : ∀ b ∈ [' '], isBlank b = true := by decide
    by_cases comma : c = ','
    · obtain ⟨e, v, rfl, word⟩ := after_comma comma
      subst comma
      have e_solid := Text.isBlank_of_isWord word
      have taken := padded_eq_some no_blank solid space (t := e :: v) (by simpa using e_solid)
      have other : e ≠ ',' := Text.ne_of_isWord word (by decide)
      have step : spaceCommas ([] ++ [',', ' '] ++ e :: v) = [',', ' '] ++ spaceCommas (e :: v) :=
        (padded_forgetful _).replaceMatches_append (by simp) taken
      have behind : spaceCommas (' ' :: e :: v) = ' ' :: spaceCommas (e :: v) :=
        (padded_forgetful _).replaceMatches_cons (padded_eq_none space e_solid other v)
      rw [behind]
      exact step
    · exact (padded_forgetful _).replaceMatches_cons (padded_eq_none no_blank solid comma u)
  space d u other solid := by
    have space : ∀ b ∈ [' '], isBlank b = true := by decide
    exact (padded_forgetful _).replaceMatches_cons (padded_eq_none space solid other u)
  drop u := by
    obtain ⟨gap, rest, rfl, blank, next⟩ := exists_blanks u
    have taken (lead : Text) (lead_blank : ∀ b ∈ lead, isBlank b = true) :
        spaceCommas (lead ++ ',' :: gap ++ rest) = [',', ' '] ++ spaceCommas rest :=
      (padded_forgetful _).replaceMatches_append (by simp)
        (padded_eq_some lead_blank (by decide) blank next)
    exact (taken [' '] (by decide)).trans (taken [] (by simp)).symm

/-- The pass over closes: none has a blank in front. -/
def closeParentheses (t : Text) : Text :=
  replaceMatches (blankBefore [')']) (fun _ => [')']) t

theorem dropsBefore_closeParentheses : DropsBefore ')' closeParentheses where
  nil := replaceMatches_nil
  keep c u solid _ := by
    have nothing : blankBefore [')'] none (c :: u) = none := by
      simp [blankBefore, countWhile, solid]
    exact Forgetful.replaceMatches_cons (fun _ _ _ => rfl) nothing
  space d u other solid := by
    have blank : isBlank ' ' = true := by decide
    have nothing : blankBefore [')'] none (' ' :: d :: u) = none := by
      simp [blankBefore, countWhile, solid, blank, Text.afterPrefix?, Ne.symm other]
    exact Forgetful.replaceMatches_cons (fun _ _ _ => rfl) nothing
  drop u := by
    have taken : blankBefore [')'] none ([' ', ')'] ++ u) = some [' ', ')'].length := rfl
    have nothing : blankBefore [')'] none (')' :: u) = none := rfl
    have step : closeParentheses ([' ', ')'] ++ u) = [')'] ++ closeParentheses u :=
      Forgetful.replaceMatches_append (fun _ _ _ => rfl) (by simp) taken
    have behind : closeParentheses (')' :: u) = ')' :: closeParentheses u :=
      Forgetful.replaceMatches_cons (fun _ _ _ => rfl) nothing
    rw [behind]
    exact step

/-! ## 3. Passes that find nothing to do -/

/-- Where a space may stand: in front of a word or of a character of a class, and behind anything
but an opening bracket, a sign or another space. -/
def Near (cls : Text) (c d : Char) : Prop :=
  (c = ' ' → isWord d = true ∨ d ∈ cls) ∧ (d = ' ' → c ∉ [' ', '(', '<', '[', '=', '-'])

/-- A text of which every space stands there. -/
structure Settled (cls s : Text) : Prop where
  part : ∀ c ∈ s, isWord c = true ∨ c ∈ signs
  near : s.IsChain (Near cls)

theorem IsCanonical.settled (h : IsCanonical t) (solid : ∀ d ∈ cls, isBlank d = false) :
    Settled cls (spread (behindStar cls) t) where
  part c mem := by
    rcases mem_spread (gaps_behindStar solid).spaces mem with mem | rfl
    · exact h.part c mem
    · exact .inr (by decide)
  near := by
    refine isChain_spread (h.chain.imp fun c d fit => ?_)
    by_cases gap : behindStar cls c d = []
    · rw [gap]
      refine List.isChain_cons_cons.mpr ⟨⟨?_, ?_⟩, .singleton d⟩
      · rintro rfl
        exact .inl (fits_space fit)
      · rintro rfl
        exact fits_before_space fit
    · obtain ⟨star, stop, space⟩ := behindStar_eq_space gap
      rw [space]
      have form : c = '*' ∨ c = '&' := by simpa [isStar] using star
      refine List.isChain_cons_cons.mpr ⟨⟨?_, ?_⟩, List.isChain_cons_cons.mpr
        ⟨⟨fun _ => .inr stop, ?_⟩, .singleton d⟩⟩
      · rintro rfl
        cases star
      · intro _
        rcases form with rfl | rfl <;> decide
      · rintro rfl
        exact absurd (solid ' ' stop) (by decide)

namespace Settled

theorem eq_space (h : Settled cls s) {b : Char} (mem : b ∈ s) (blank : isBlank b = true) :
    b = ' ' :=
  eq_space_of_part (h.part b mem) blank

/-- No blanks stand in front of a sign that is not of the class. -/
theorem gap_before (h : Settled cls s) {lead rest : Text} (inside : lead ++ x :: rest <:+: s)
    (blank : ∀ b ∈ lead, isBlank b = true) (no_word : isWord x = false) (unlisted : x ∉ cls) :
    lead = [] := by
  obtain rfl | ⟨front, b, rfl⟩ := List.eq_nil_or_concat lead
  · rfl
  · rw [List.concat_eq_append] at blank inside
    obtain rfl := h.eq_space (inside.subset (by simp)) (blank b (by simp))
    have chain := List.IsChain.infix h.near inside
    rw [List.append_assoc, List.singleton_append] at chain
    have next := (List.isChain_cons_cons.mp (chain.suffix (List.suffix_append front _))).1
    rcases next.1 rfl with word | listed
    · rw [no_word] at word
      cases word
    · exact absurd listed unlisted

/-- Nor behind a sign that has none behind it. -/
theorem gap_behind (h : Settled cls s) {lead gap : Text} (inside : lead ++ x :: gap <:+: s)
    (blank : ∀ b ∈ gap, isBlank b = true) (sign : x ∈ [' ', '(', '<', '[', '=', '-']) :
      gap = [] := by
  cases gap with
  | nil => rfl
  | cons b gap =>
    obtain rfl := h.eq_space (inside.subset (by simp)) (blank b List.mem_cons_self)
    have chain := ( List.IsChain.infix h.near inside).suffix (List.suffix_append lead _)
    exact absurd sign ((List.isChain_cons_cons.mp chain).1.2 rfl)

theorem openAngles_eq (h : Settled cls s) (unlisted : '<' ∉ cls) :
    replaceMatches (padded ['<']) (fun _ => ['<']) s = s := by
  refine replaceMatches_eq_self (padded_takes (by simp)) (fun taken inside form => ?_) none
  obtain ⟨lead, gap, rfl, lead_blank, gap_blank⟩ := form
  rw [List.append_assoc, List.singleton_append] at inside
  rw [h.gap_before inside lead_blank (by decide) unlisted,
    h.gap_behind inside gap_blank (by decide)]
  rfl

theorem unequal_eq (h : Settled cls s) :
    replaceMatches (padded ['!', '=']) (fun _ => ['!', '=']) s = s := by
  refine replaceMatches_eq_self (padded_takes (by simp)) (fun taken inside form => ?_) none
  obtain ⟨lead, gap, rfl, -⟩ := form
  rcases h.part '!' (inside.subset (by simp)) with word | sign
  · exact absurd word (by decide)
  · exact absurd sign (by decide)

theorem spacedSign_eq (h : Settled cls s) (unlisted : '-' ∉ cls) :
    replaceMatches spacedSign solid s = s := by
  refine replaceMatches_eq_self spacedSign_takes (fun taken inside form => ?_) none
  obtain ⟨c, gap, sign, gap', d, rfl, c_solid, d_solid, sign_form, gap_blank, gap_blank'⟩ := form
  have minus : sign = '-' := by
    have part := h.part sign (inside.subset (by simp))
    simp only [List.mem_cons, List.not_mem_nil, or_false] at sign_form
    rcases sign_form with rfl | rfl | rfl
    · exact absurd part (by decide)
    · exact absurd part (by decide)
    · rfl
  subst minus
  have before : gap = [] := by
    have tail : gap ++ '-' :: (gap' ++ [d]) <:+: c :: (gap ++ ['-'] ++ gap' ++ [d]) :=
      ⟨[c], [], by simp⟩
    exact h.gap_before (tail.trans inside) gap_blank (by decide) unlisted
  have behind : gap' = [] := by
    have front : c :: gap ++ '-' :: gap' <:+: c :: (gap ++ ['-'] ++ gap' ++ [d]) :=
      ⟨[], [d], by simp⟩
    exact h.gap_behind (front.trans inside) gap_blank' (by decide)
  rw [before, behind]
  refine solid_of_solid fun e mem => ?_
  have form : e = c ∨ e = '-' ∨ e = d := by simpa using mem
  rcases form with rfl | rfl | rfl
  · exact c_solid
  · decide
  · exact d_solid

theorem openParentheses_eq (h : Settled cls s) :
    replaceMatches (blankBehind ['(']) (fun _ => ['(']) s = s := by
  refine replaceMatches_eq_self (blankBehind_takes (by simp)) (fun taken inside form => ?_) none
  obtain ⟨gap, rfl, blank⟩ := form
  have open_bracket : [] ++ '(' :: gap <:+: s := inside
  rw [h.gap_behind open_bracket blank (by decide)]
  rfl

end Settled

theorem joinAssignmentsFrom_other (other : c ≠ '=') (done u : Text) :
    joinAssignmentsFrom done (c :: u) = joinAssignmentsFrom (c :: done) u := by
  rw [joinAssignmentsFrom, if_neg other]

/-- An `=` stays as it is behind a solid character, and behind a decoration with a space. -/
theorem joinAssignmentsFrom_sign {done u : Text}
    (before : (∀ c ∈ done.head?, isBlank c = false) ∨
      ∃ c rest, done = ' ' :: c :: rest ∧ isStar c = true)
    (behind : ∀ d ∈ u.head?, d ≠ ' ') :
    joinAssignmentsFrom done ('=' :: u) = joinAssignmentsFrom ('=' :: done) u := by
  have no_gap : u.dropWhile (· == ' ') = u := by
    cases u with
    | nil => rfl
    | cons d u => rw [List.dropWhile_cons_of_neg (by simpa using behind d rfl)]
  rw [joinAssignmentsFrom, if_pos rfl]
  dsimp only
  rcases before with solid | ⟨c, rest, rfl, star⟩
  · have kept : done.dropWhile isBlank = done := by
      cases done with
      | nil => rfl
      | cons c done => rw [List.dropWhile_cons_of_neg (by simp [solid c rfl])]
    rw [kept, no_gap, ite_self]
  · have form : c = '*' ∨ c = '&' := by simpa [isStar] using star
    have solid : isBlank c = false := isBlank_of_star star
    have kept : (' ' :: c :: rest).dropWhile isBlank = c :: rest := by
      rw [List.dropWhile_cons_of_pos (by decide), List.dropWhile_cons_of_neg (by simp [solid])]
    have operator : partOfOperator (some c) u.head? = true := by
      rcases form with rfl | rfl <;> simp [partOfOperator]
    rw [kept, List.head?_cons, operator, if_pos rfl]

/-- No space stands behind an `=`. -/
theorem spread_behind_sign {u : Text} (chain : ('=' :: t).IsChain fun c d => fits c d = true)
    (cut : spread (behindStar cls) ('=' :: t) = '=' :: u) : ∀ e ∈ u.head?, e ≠ ' ' := by
  rintro e first rfl
  cases t with
  | nil =>
    rw [spread] at cut
    cases cut
    cases first
  | cons e t =>
    rw [spread, behindStar_eq_nil (by decide)] at cut
    obtain ⟨v, cut'⟩ : ∃ v, spread (behindStar cls) (e :: t) = e :: v := spread_cons e t
    rw [cut', List.nil_append] at cut
    cases cut
    cases first
    exact fits_before_space (List.isChain_cons_cons.mp chain).1 (by decide)

theorem joinAssignmentsFrom_spread (part : ∀ e ∈ c :: t, isWord e = true ∨ e ∈ signs)
    (chain : (c :: t).IsChain fun c d => fits c d = true) (done : Text) :
    joinAssignmentsFrom (c :: done) (spread (behindStar cls) (c :: t)).tail =
      done.reverse ++ spread (behindStar cls) (c :: t) := by
  induction t generalizing c done with
  | nil =>
    rw [spread, List.tail_cons, joinAssignmentsFrom, List.reverse_cons]
  | cons d t ih =>
    obtain ⟨fit, rest⟩ := List.isChain_cons_cons.mp chain
    have part_rest : ∀ e ∈ d :: t, isWord e = true ∨ e ∈ signs := fun e mem =>
      part e (List.mem_cons_of_mem c mem)
    obtain ⟨u, cut⟩ : ∃ u, spread (behindStar cls) (d :: t) = d :: u := spread_cons d t
    have behind (done : Text) := ih part_rest rest done
    rw [cut, List.tail_cons] at behind
    rw [spread, List.tail_cons, cut]
    by_cases gap : behindStar cls c d = []
    · rw [gap, List.nil_append]
      have step :
          joinAssignmentsFrom (c :: done) (d :: u) = joinAssignmentsFrom (d :: c :: done) u := by
        by_cases sign : d = '='
        · subst sign
          refine joinAssignmentsFrom_sign (.inl ?_) (spread_behind_sign rest cut)
          rintro _ ⟨⟩
          refine Bool.eq_false_iff.mpr fun blank => ?_
          obtain rfl := eq_space_of_part (part c List.mem_cons_self) blank
          exact absurd (fits_space fit) (by decide)
        · exact joinAssignmentsFrom_other sign _ _
      rw [step, behind]
      simp
    · obtain ⟨star, -, space⟩ := behindStar_eq_space gap
      rw [space, List.singleton_append, joinAssignmentsFrom_other (by decide)]
      have step : joinAssignmentsFrom (' ' :: c :: done) (d :: u) =
          joinAssignmentsFrom (d :: ' ' :: c :: done) u := by
        by_cases sign : d = '='
        · subst sign
          exact joinAssignmentsFrom_sign (.inr ⟨c, done, rfl, star⟩) (spread_behind_sign rest cut)
        · exact joinAssignmentsFrom_other sign _ _
      rw [step, behind]
      simp

/-- Assignments are joined already. -/
theorem IsCanonical.joinAssignments_spread (h : IsCanonical t) (cls : Text) :
    joinAssignments (spread (behindStar cls) t) = spread (behindStar cls) t := by
  unfold joinAssignments
  cases t with
  | nil => rw [spread, joinAssignmentsFrom]; rfl
  | cons c t =>
    obtain ⟨u, cut⟩ : ∃ u, spread (behindStar cls) (c :: t) = c :: u := spread_cons c t
    have whole : joinAssignmentsFrom [c] (spread (behindStar cls) (c :: t)).tail = _ :=
      joinAssignmentsFrom_spread h.part h.chain []
    rw [cut, List.tail_cons] at whole
    rw [cut, joinAssignmentsFrom_other (h.first c rfl).2.1, whole]
    rfl

/-! ## 4. Closed decorations -/

variable {old new : Text}

@[simp] theorem replace_nil : Text.replace old new [] = [] := by
  simp [Text.replace, Text.splitPiece, Text.join]

theorem replace_append (filled : old ≠ []) (t : Text) :
    Text.replace old new (old ++ t) = new ++ Text.replace old new t := by
  obtain ⟨c, more, rfl⟩ := List.exists_cons_of_ne_nil filled
  have here : Text.afterPrefix? (c :: more) (c :: (more ++ t)) = some t :=
    Text.afterPrefix?_eq_some.mpr rfl
  rw [List.cons_append, Text.replace, Text.splitPiece, here]
  dsimp only
  rw [List.drop_left, Text.join_nil_cons _ (splitPiece_ne_nil _ _)]
  rfl

theorem replace_cons (absent : ¬ old <+: c :: t) :
    Text.replace old new (c :: t) = c :: Text.replace old new t := by
  obtain _ | ⟨d, more⟩ := old
  · exact absurd List.nil_prefix absent
  have not_here : Text.afterPrefix? (d :: more) (c :: t) = none := by
    rw [Option.eq_none_iff_forall_not_mem]
    intro rest found
    exact absent ⟨rest, (Text.afterPrefix?_eq_some.mp found).symm⟩
  rw [Text.replace, Text.splitPiece, not_here]
  dsimp only
  rw [Text.join_consFirst _ _ (splitPiece_ne_nil _ _)]
  rfl

theorem replace_eq_self (absent : ¬ old <:+: t) : Text.replace old new t = t := by
  induction t with
  | nil => exact replace_nil
  | cons c t ih =>
    rw [replace_cons fun start => absent start.isInfix,
      ih fun inside => absent (inside.trans (List.suffix_cons c t).isInfix)]

/-- The gaps without those between two characters. -/
def closed (d x : Char) (gap : Char → Char → Text) (c e : Char) : Text :=
  if c = d ∧ e = x then [] else gap c e

theorem Gaps.closed (gaps : Gaps gap) (d x : Char) : Gaps (closed d x gap) where
  one c e := by
    unfold Source.closed
    split
    · exact .inl rfl
    · exact gaps.one c e
  behind e := by
    unfold Source.closed
    split_ifs <;> simp [gaps.behind e]
  before c e blank := by
    unfold Source.closed
    split
    · rfl
    · exact gaps.before c e blank

/-- **Replacing two characters with a space between them by the two** takes that gap away. -/
theorem replace_spread (canonical : IsCanonical t) (gaps : Gaps gap) {d x : Char}
    (d_solid : d ≠ ' ') (no_word : isWord x = false) (other : x ≠ d) :
    Text.replace [d, ' ', x] [d, x] (spread gap t) = spread (closed d x gap) t := by
  have keep {c : Char} {u : Text} (absent : ¬ [d, ' ', x] <+: c :: u) :
      Text.replace [d, ' ', x] [d, x] (c :: u) = c :: Text.replace [d, ' ', x] [d, x] u :=
    replace_cons absent
  refine spread_pass replace_nil (fun c _ => ?_) fun c e u inside => ?_
  · rw [keep (by simp), replace_nil]
  · obtain ⟨fit, next⟩ := canonical.fits_suffix inside
    obtain ⟨v, cut⟩ : ∃ v, spread gap (e :: u) = e :: v := spread_cons e u
    rcases gaps.one c e with no_gap | space
    · have still : closed d x gap c e = [] := by
        rw [closed, no_gap, ite_self]
      rw [no_gap, still]
      refine keep fun start => ?_
      -- a space of the text itself has a word behind it
      obtain rfl : e = ' ' := by
        rw [cut] at start
        simp at start
        exact start.2.1.symm
      obtain ⟨f, w, rfl, word⟩ := next rfl
      obtain ⟨rest, cut'⟩ : ∃ rest, spread gap (f :: w) = f :: rest := spread_cons f w
      rw [spread, (gaps.behind f).1, cut'] at start
      simp at start
      rw [start.2] at no_word
      exact absurd (word.symm.trans no_word) (by decide)
    · rw [space, cut, List.singleton_append]
      by_cases here : c = d ∧ e = x
      · obtain ⟨rfl, rfl⟩ := here
        have gone : closed c e gap c e = [] := if_pos ⟨rfl, rfl⟩
        have behind :
            Text.replace [c, ' ', e] [c, e] (e :: v) = e :: Text.replace [c, ' ', e] [c, e] v :=
          keep (by simp [Ne.symm other])
        rw [gone, behind]
        exact replace_append (by simp) v
      · have stays : closed d x gap c e = [' '] := by rw [closed, if_neg here, space]
        rw [stays, keep fun start => here ?_, keep fun start => ?_]
        · rfl
        · simp at start
          exact d_solid start.1
        · simp at start
          exact ⟨start.1.symm, start.2.symm⟩

/-- The spaces between a decoration and a template bracket go.  Those in front of a close and a
comma are gone already. -/
theorem closeDecorations_spread (h : IsCanonical t) :
    closeDecorations (spread (behindStar ['>', '=', '[']) t) =
      spread (behindStar ['=', '[']) t := by
  have step {gap : Char → Char → Text} (gaps : Gaps gap) (d x : Char) (d_solid : d ≠ ' ')
      (no_word : isWord x = false) (other : x ≠ d) :
      Text.replace [d, ' ', x] [d, x] (spread gap t) = spread (closed d x gap) t :=
    replace_spread h gaps d_solid no_word other
  have gaps : Gaps (behindStar ['>', '=', '[']) := gaps_behindStar (by decide)
  have passes (u : Text) : closeDecorations u =
      Text.replace ['&', ' ', ','] ['&', ','] (Text.replace ['*', ' ', ','] ['*', ',']
        (Text.replace ['&', ' ', '>'] ['&', '>'] (Text.replace ['*', ' ', '>'] ['*', '>']
          (Text.replace ['&', ' ', ')'] ['&', ')']
            (Text.replace ['*', ' ', ')'] ['*', ')'] u))))) := rfl
  have gaps₁ := gaps.closed '*' ')'
  have gaps₂ := gaps₁.closed '&' ')'
  have gaps₃ := gaps₂.closed '*' '>'
  have gaps₄ := gaps₃.closed '&' '>'
  have gaps₅ := gaps₄.closed '*' ','
  rw [passes, step gaps '*' ')' (by decide) (by decide) (by decide),
    step gaps₁ '&' ')' (by decide) (by decide) (by decide),
    step gaps₂ '*' '>' (by decide) (by decide) (by decide),
    step gaps₃ '&' '>' (by decide) (by decide) (by decide),
    step gaps₄ '*' ',' (by decide) (by decide) (by decide),
    step gaps₅ '&' ',' (by decide) (by decide) (by decide)]
  congr 1
  funext c d
  by_cases listed : d = '>' ∨ d = ')' ∨ d = ','
  · rcases listed with rfl | rfl | rfl
    · by_cases star : c = '*' <;> simp [closed, behindStar, isStar, star]
    · simp [closed, behindStar]
    · simp [closed, behindStar]
  · simp only [not_or] at listed
    simp [closed, behindStar, isStar, listed]

/-! ## 5. The whole -/

theorem IsCanonical.isSpaced (h : IsCanonical t) : Text.IsSpaced t where
  space c mem := eq_space_of_part (h.part c mem)
  single := by
    refine List.IsChain.imp_of_mem_imp (fun c d c_mem d_mem fit blank => ?_) h.chain
    obtain rfl := eq_space_of_part (h.part c c_mem) blank
    exact Text.isBlank_of_isWord (fits_space fit)
  first c first := h.isBlank_eq_false (List.mem_of_head? first) (h.first c first).1
  last c last := h.isBlank_eq_false (List.mem_of_getLast? last) (h.last c last).1

/-- **On text in canonical spacing, the normalizer puts a space between a decoration and `=` or
`[`**, and does nothing else. -/
theorem IsCanonical.canonicalSpacing_eq (h : IsCanonical t) :
    canonicalSpacing t = spread (behindStar ['=', '[']) t := by
  have blanks : replaceMatches blankRun (fun _ => [' ']) t = t :=
    h.isSpaced.replaceMatches_blankRun none
  have decorations : replaceMatches decorated (fun m => solid m ++ [' ']) t =
      spread (behindStar [',', ')', '>', '=', '[']) t :=
    h.continues.spaceDecorations_eq
  have commas : replaceMatches (padded [',']) (fun _ => [',', ' '])
        (spread (behindStar [',', ')', '>', '=', '[']) t) =
      spread (behindStar [')', '>', '=', '[']) t := by
    have dropped := dropsBefore_spaceCommas.spread_eq (by decide)
      (gaps_behindStar (by decide : ∀ d ∈ [',', ')', '>', '=', '['], isBlank d = false)) h
    rwa [behindStar_without (by decide)] at dropped
  have settled : Settled [')', '>', '=', '['] (spread (behindStar [')', '>', '=', '[']) t) :=
    h.settled (by decide)
  have closes : replaceMatches (blankBefore [')']) (fun _ => [')'])
      (spread (behindStar [')', '>', '=', '[']) t) = spread (behindStar ['>', '=', '[']) t := by
    have dropped := dropsBefore_closeParentheses.spread_eq (by decide)
      (gaps_behindStar (by decide : ∀ d ∈ [')', '>', '=', '['], isBlank d = false)) h
    rwa [behindStar_without (by decide)] at dropped
  unfold canonicalSpacing
  dsimp only
  rw [blanks, decorations, commas, settled.openAngles_eq (by decide), settled.unequal_eq,
    settled.spacedSign_eq (by decide), settled.openParentheses_eq, closes, h.joinAssignments_spread,
    closeDecorations_spread h]
  refine Text.trim_of_edges (fun c first => ?_) fun c last => ?_
  · rw [head_spread] at first
    exact h.isSpaced.first c first
  · rw [getLast_spread] at last
    exact h.isSpaced.last c last

end AccessorCatalog.Source

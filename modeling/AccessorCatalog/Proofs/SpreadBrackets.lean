/-
# Brackets set apart

Before a declaration is cut into words, a space goes in front of every opening bracket, and then all
but the one in front of the arguments are taken away again.  For a declaration in canonical spacing
that has one pair of parentheses, `declarator_eq` says what is left: the text as it was, with a
space in front of its parenthesis and between a decoration and the `=` behind it.

The passes in between look for marks (`emptyCall_eq_self`), operators (`joinOperatorName_eq_self`)
and blanks in front of a close (`gapWithClose_eq_self`), of which there are none.
-/
import AccessorCatalog.Declaration.Method
import AccessorCatalog.Proofs.CanonicalText

namespace AccessorCatalog.Declaration

open Text (Pattern countWhile isBlank isWord replaceMatches replaceMatchesFrom)
open Source

variable {s t : Text} {c d bracket : Char} {gap gap' : Char → Char → Text}

/-! ## 1. Passes that find nothing -/

theorem isWord_of_atBoundary (boundary : Text.atBoundary (some c) (d :: t) = true)
    (word : isWord d = true) :
    isWord c = false := by
  cases before : isWord c with
  | false => rfl
  | true => simp [Text.atBoundary, Text.isWordAt, before, word] at boundary

/-- A character that occurs once cuts a text in one way. -/
theorem eq_of_append_once {front rest : Text} (no_front : c ∉ front) (no_rest : c ∉ rest)
    (cut : front ++ c :: rest = s ++ c :: t) : front = s := by
  rcases List.append_eq_append_iff.mp cut with ⟨e, rfl, behind⟩ | ⟨e, rfl, behind⟩
  · obtain _ | ⟨d, e⟩ := e
    · exact (List.append_nil front).symm
    · obtain ⟨rfl, rfl⟩ := List.cons.inj behind
      exact absurd (by simp) no_rest
  · obtain _ | ⟨d, e⟩ := e
    · exact List.append_nil s
    · obtain ⟨rfl, -⟩ := List.cons.inj behind
      exact absurd (by simp) no_front

/-- A word is no end of another one that starts behind something else than a word character. -/
theorem eq_of_append_word {name keyword pre e : Text} (word : ∀ c ∈ name, isWord c = true)
    (apart : ∀ c ∈ (pre ++ e).getLast?, isWord c = false) (cut : name = e ++ keyword) :
      name = keyword := by
  obtain rfl | ⟨e, f, rfl⟩ := List.eq_nil_or_concat e
  · exact cut
  · have no_word :=
      apart f (by rw [List.concat_eq_append, ← List.append_assoc]; exact List.getLast?_concat)
    rw [word f (by rw [cut]; simp)] at no_word
    cases no_word

/-- Two words that end at one place are one word. -/
theorem eq_of_words_end {name keyword pre : Text} (word : ∀ c ∈ name, isWord c = true)
    (letters : ∀ c ∈ keyword, isWord c = true) (apart : ∀ c ∈ pre.getLast?, isWord c = false)
    (apart' : ∀ c ∈ s.getLast?, isWord c = false) (same : pre ++ name = s ++ keyword) :
      name = keyword := by
  rcases List.append_eq_append_iff.mp same with ⟨e, rfl, cut⟩ | ⟨e, rfl, cut⟩
  · exact eq_of_append_word word apart' cut
  · exact (eq_of_append_word letters apart cut).symm

/-- In front of the only parenthesis stands a name that is not the keyword. -/
theorem emptyCall_eq_self {keyword pre name rest : Text} (filled : keyword ≠ [])
    (letters : ∀ c ∈ keyword, isWord c = true) (some_name : name ≠ [])
    (word : ∀ c ∈ name, isWord c = true)
    (apart : ∀ c ∈ pre.getLast?, isWord c = false) (other : name ≠ keyword) (no_open : '(' ∉ pre)
    (once : '(' ∉ rest) (image : Text → Text) :
    replaceMatches (emptyCall keyword) image (pre ++ name ++ '(' :: rest) =
      pre ++ name ++ '(' :: rest := by
  refine Text.replaceMatches_eq_self_of_none none fun s c u cut => ?_
  rw [Option.eq_none_iff_forall_not_mem]
  intro n found
  rw [Option.mem_def, emptyCall, Option.ite_none_right_eq_some] at found
  obtain ⟨boundary, found⟩ := found
  obtain ⟨v, keyword_at, found⟩ := Option.bind_eq_some_iff.mp found
  have start := Text.afterPrefix?_eq_some.mp keyword_at
  obtain ⟨gap, w, rfl, blank, length⟩ := exists_run isBlank v
  simp only [length, List.drop_left] at found
  obtain _ | ⟨e, w⟩ := w
  · cases found
  obtain rfl : e = '(' := by
    by_contra no_open
    simp [no_open] at found
  -- there is one parenthesis only, and so the keyword and the name end at one place
  have no_word_open : '(' ∉ name := fun mem => Text.ne_of_isWord (word _ mem) (by decide) rfl
  have parts : pre ++ name ++ '(' :: rest = s ++ keyword ++ gap ++ '(' :: w := by
    rw [cut, start]
    simp
  have same := eq_of_append_once (by simp [no_open, no_word_open]) once parts
  obtain ⟨front, l, ends⟩ := List.eq_nil_or_concat name |>.resolve_left some_name
  obtain rfl | ⟨gap, b, rfl⟩ := List.eq_nil_or_concat gap
  case inr =>
    rw [ends] at same
    simp only [List.concat_eq_append, ← List.append_assoc] at same
    obtain ⟨-, last⟩ := List.append_inj' same rfl
    have l_blank := blank b (by simp)
    rw [← List.singleton_inj.mp last, Text.isBlank_of_isWord (word l (by simp [ends]))] at l_blank
    cases l_blank
  rw [List.append_nil] at same
  have apart' : ∀ d ∈ s.getLast?, isWord d = false := by
    intro d last
    obtain ⟨k, keyword, rfl⟩ := List.exists_cons_of_ne_nil filled
    obtain ⟨rfl, -⟩ := List.cons.inj start
    rw [Text.lastOf, Option.mem_def.mp last, Option.some_or] at boundary
    exact isWord_of_atBoundary boundary (letters c List.mem_cons_self)
  exact other (eq_of_words_end word letters apart apart' same)

/-- A blank has no close behind it. -/
theorem gapWithClose_eq_self (apart : t.IsChain fun c d => isGap c = true → d ≠ bracket)
    (image : Text → Text) : replaceMatches (gapWithClose bracket) image t = t := by
  refine Text.replaceMatches_eq_self_of_none none fun s c u cut => ?_
  obtain ⟨gap, w, whole, blank, length⟩ := exists_run isGap (c :: u)
  rw [gapWithClose, length]
  split
  · rfl
  · next n some_gap =>
    refine if_neg fun close => ?_
    rw [whole, ← Nat.succ_eq_add_one, ← some_gap, List.drop_left] at close
    obtain _ | ⟨e, w⟩ := w
    · cases close
    obtain rfl := Option.some.inj close
    obtain ⟨gap, b, rfl⟩ :=
      List.eq_nil_or_concat gap |>.resolve_left (by rintro rfl; cases some_gap)
    rw [cut, whole, List.concat_eq_append] at apart
    have chain := apart.suffix (List.suffix_append s _)
    rw [List.append_assoc, List.singleton_append] at chain
    have next := (List.isChain_cons_cons.mp (chain.suffix (List.suffix_append gap _))).1
    exact next (blank b (by simp)) rfl

theorem IsCanonical.eq_space_of_gap (h : IsCanonical t) (mem : c ∈ t) (blank : isGap c = true) :
    c = ' ' := by
  refine eq_space_of_part (h.part c mem) ?_
  have form : c = ' ' ∨ c = '\t' := by simpa [isGap] using blank
  rcases form with rfl | rfl <;> decide

/-- A close that no gap stands in front of has no blank there. -/
theorem gapWithClose_spread (canonical : IsCanonical t) (spaces : ∀ c d, ∀ e ∈ gap c d, e = ' ')
    (before : ∀ c, gap c bracket = []) (no_word : isWord bracket = false) (solid : ' ' ≠ bracket)
    (image : Text → Text) :
    replaceMatches (gapWithClose bracket) image (spread gap t) = spread gap t := by
  refine gapWithClose_eq_self (isChain_spread ?_) image
  refine List.IsChain.imp_of_mem_imp (fun c d c_mem _ fit => ?_) canonical.chain
  have along {g : Text} (all : ∀ e ∈ g, e = ' ') (some_gap : g ≠ [] → d ≠ bracket) {c : Char}
      (no_gap : g = [] → isGap c = true → d ≠ bracket) :
      (c :: (g ++ [d])).IsChain fun c d => isGap c = true → d ≠ bracket := by
    induction g generalizing c with
    | nil => exact List.isChain_cons_cons.mpr ⟨no_gap rfl, .singleton d⟩
    | cons e g ih =>
      obtain rfl := all e List.mem_cons_self
      have other := some_gap (by simp)
      exact List.isChain_cons_cons.mpr ⟨fun _ => solid,
        ih (fun e mem => all e (List.mem_cons_of_mem _ mem)) (fun _ => other) fun _ _ => other⟩
  refine along (spaces c d) (fun some_gap => ?_) fun _ blank => ?_
  · rintro rfl
    exact some_gap (before c)
  · obtain rfl := IsCanonical.eq_space_of_gap canonical c_mem blank
    exact Text.ne_of_isWord (fits_space fit) no_word

/-! ## 2. Operators -/

/-- In a spread text, a space between two characters was there, in front of a word, or is a gap. -/
theorem space_of_spread {a b : Char} (chain : t.IsChain fun c d => fits c d = true)
    (gaps : Gaps gap)
    (inside : [a, ' ', b] <:+: spread gap t) : isWord b = true ∨ gap a b ≠ [] := by
  induction t with
  | nil => simp [spread] at inside
  | cons c t ih =>
    cases t with
    | nil => simp [spread, List.infix_cons_iff] at inside
    | cons d t =>
      obtain ⟨-, rest⟩ := List.isChain_cons_cons.mp chain
      obtain ⟨u, cut⟩ : ∃ u, spread gap (d :: t) = d :: u := spread_cons d t
      rw [spread] at inside
      rcases gaps.one c d with no_gap | space
      · rw [no_gap, List.nil_append] at inside
        rcases List.infix_cons_iff.mp inside with start | behind
        · -- the space is one of the text
          rw [cut] at start
          obtain ⟨-, second⟩ := List.cons_prefix_cons.mp start
          obtain ⟨rfl, third⟩ := List.cons_prefix_cons.mp second
          obtain _ | ⟨e, t⟩ := t
          · rw [spread] at cut
            obtain ⟨-, rfl⟩ := List.cons.inj cut
            simp at third
          · obtain ⟨v, cut'⟩ : ∃ v, spread gap (e :: t) = e :: v := spread_cons e t
            rw [spread, (gaps.behind e).1, List.nil_append, cut'] at cut
            obtain ⟨-, rfl⟩ := List.cons.inj cut
            obtain ⟨rfl, -⟩ := List.cons_prefix_cons.mp third
            exact .inl (fits_space (List.isChain_cons_cons.mp rest).1)
        · exact ih rest behind
      · rw [space, List.singleton_append] at inside
        rcases List.infix_cons_iff.mp inside with start | inside
        · rw [cut] at start
          obtain ⟨rfl, second⟩ := List.cons_prefix_cons.mp start
          obtain ⟨-, third⟩ := List.cons_prefix_cons.mp second
          obtain ⟨rfl, -⟩ := List.cons_prefix_cons.mp third
          exact .inr (by rw [space]; simp)
        · rcases List.infix_cons_iff.mp inside with start | behind
          · -- a gap has no space behind it
            rw [cut] at start
            obtain ⟨-, second⟩ := List.cons_prefix_cons.mp start
            obtain ⟨rfl, -⟩ := List.cons_prefix_cons.mp second
            rw [gaps.before c ' ' (by decide)] at space
            cases space
          · exact ih rest behind

/-- No operator symbol has a blank in front. -/
theorem joinOperatorName_eq_self (canonical : IsCanonical t) :
    joinOperatorName (spread (behindStar ['=', '[']) t) = spread (behindStar ['=', '[']) t := by
  have listed : ∀ d ∈ ['=', '['], isBlank d = false := by decide
  have settled := canonical.settled listed
  refine replaceMatches_eq_self operatorSymbol_takes (fun taken inside form => ?_) none
  obtain ⟨gap, c, symbol, gap', rfl, no_word, solid, in_symbol, blank, blank'⟩ := form
  have no_gap' : gap' = [] := by
    have tail : gap' ++ '(' :: [] <:+:
        "operator".toList ++ (gap ++ c :: symbol) ++ (gap' ++ ['(']) :=
      (List.suffix_append _ _).isInfix
    exact settled.gap_before (tail.trans inside) blank' (by decide) (by decide)
  have no_gap : gap = [] := by
    obtain _ | ⟨b, gap⟩ := gap
    · rfl
    obtain rfl := settled.eq_space (inside.subset (by simp)) (blank b List.mem_cons_self)
    have keyword : "operator".toList = "operato".toList ++ ['r'] := rfl
    rw [keyword] at inside
    obtain _ | ⟨b, gap⟩ := gap
    · have part : ['r', ' ', c] <:+:
          "operato".toList ++ ['r'] ++ ([' '] ++ c :: symbol) ++ (gap' ++ ['(']) :=
        ⟨"operato".toList, symbol ++ (gap' ++ ['(']), by simp⟩
      rcases space_of_spread canonical.chain (gaps_behindStar listed) (part.trans inside)
        with word | gap
      · rw [no_word] at word
        cases word
      · exact absurd (behindStar_eq_nil rfl) gap
    · have part : [] ++ ' ' :: [b] <:+:
          "operato".toList ++ ['r'] ++ (' ' :: b :: gap ++ c :: symbol) ++ (gap' ++ ['(']) :=
        ⟨"operato".toList ++ ['r'], gap ++ c :: symbol ++ (gap' ++ ['(']), by simp⟩
      have b_blank : ∀ e ∈ [b], isBlank e = true := by simpa using blank b (by simp)
      exact absurd (settled.gap_behind (part.trans inside) b_blank (by decide)) (by simp)
  rw [no_gap, no_gap']
  refine solid_of_solid fun e mem => ?_
  have letters : ∀ e ∈ "operator".toList ++ ['('], isBlank e = false := by decide
  simp only [List.nil_append, List.mem_append, List.mem_cons] at mem
  rcases mem with (mem | rfl | mem) | mem
  · exact letters e (List.mem_append_left _ mem)
  · exact solid
  · exact in_symbol e mem
  · exact letters e (List.mem_append_right _ (by simpa using mem))

/-! ## 3. Opening brackets -/

theorem openWithGap_forgetful : Forgetful (openWithGap bracket) := fun _ _ _ => rfl

/-- The gaps with one more space in front of a bracket. -/
def widened (bracket : Char) (gap : Char → Char → Text) (c d : Char) : Text :=
  gap c d ++ if d = bracket then [' '] else []

theorem spaces_widened (spaces : ∀ c d, ∀ e ∈ gap c d, e = ' ') :
    ∀ c d, ∀ e ∈ widened bracket gap c d, e = ' ' := by
  intro c d e mem
  rcases List.mem_append.mp mem with mem | mem
  · exact spaces c d e mem
  · split at mem
    · exact List.mem_singleton.mp mem
    · cases mem

/-- **A space goes in front of every opening bracket.** -/
theorem openWithGap_spread
    (tight : t.IsChain fun c d => c = bracket → gap c d = [] ∧ isGap d = false)
    (spaces : ∀ c d, ∀ e ∈ gap c d, e = ' ') (solid : ' ' ≠ bracket)
    (first : ∀ c ∈ t.head?, c ≠ bracket) (last : ∀ c ∈ t.getLast?, c ≠ bracket) :
    replaceMatches (openWithGap bracket) (fun _ => [' ', bracket]) (spread gap t) =
      spread (widened bracket gap) t := by
  have keep {c : Char} (other : c ≠ bracket) (u : Text) :
      replaceMatches (openWithGap bracket) (fun _ => [' ', bracket]) (c :: u) =
        c :: replaceMatches (openWithGap bracket) (fun _ => [' ', bracket]) u :=
    openWithGap_forgetful.replaceMatches_cons (by rw [openWithGap, if_neg other])
  have keep_spaces {g : Text} (all : ∀ e ∈ g, e = ' ') (u : Text) :
      replaceMatches (openWithGap bracket) (fun _ => [' ', bracket]) (g ++ u) =
        g ++ replaceMatches (openWithGap bracket) (fun _ => [' ', bracket]) u := by
    induction g with
    | nil => rfl
    | cons e g ih =>
      obtain rfl := all e List.mem_cons_self
      rw [List.cons_append, keep solid, ih fun e mem => all e (List.mem_cons_of_mem _ mem)]
      rfl
  let lead (d : Char) : Text := if d = bracket then [' '] else []
  suffices whole : replaceMatches (openWithGap bracket) (fun _ => [' ', bracket]) (spread gap t) =
      t.head?.elim [] lead ++ spread (fun c d => gap c d ++ lead d) t by
    rw [whole]
    cases t with
    | nil => rfl
    | cons c t =>
      have none_first : lead c = [] := if_neg (first c rfl)
      exact congrArg (· ++ spread (widened bracket gap) (c :: t)) none_first
  refine spread_pass_lead lead replaceMatches_nil (fun c at_end => ?_) fun c d u inside => ?_
  · rw [keep (last c at_end), replaceMatches_nil, show lead c = [] from if_neg (last c at_end)]
    rfl
  · by_cases opens : c = bracket
    · subst opens
      obtain ⟨no_gap, next⟩ := (List.isChain_cons_cons.mp (tight.suffix inside)).1 rfl
      obtain ⟨v, cut⟩ : ∃ v, spread gap (d :: u) = d :: v := spread_cons d u
      have found : openWithGap c none ([c] ++ d :: v) = some [c].length := by
        simp [openWithGap, countWhile, next]
      rw [no_gap, cut, show lead c = [' '] from if_pos rfl]
      exact openWithGap_forgetful.replaceMatches_append (by simp) found
    · rw [keep opens, keep_spaces (spaces c d), show lead c = [] from if_neg opens]
      rfl

/-! ## 4. Single blanks -/

/-- Gaps of several spaces become gaps of one. -/
theorem singleBlanks_spread (canonical : IsCanonical t) (spaces : ∀ c d, ∀ e ∈ gap c d, e = ' ')
    (beside : ∀ c d, fits c d = true → gap c d ≠ [] → c ≠ ' ' ∧ isBlank d = false) :
    singleBlanks (spread gap t) = spread (fun c d => if gap c d = [] then [] else [' ']) t := by
  have forgetful : Forgetful blankRun := fun _ _ _ => rfl
  have keep {c : Char} (solid : isBlank c = false) (u : Text) :
      singleBlanks (c :: u) = c :: singleBlanks u :=
    forgetful.replaceMatches_cons (Text.blankRun_solid solid none u)
  have run {g : Text} {d : Char} (filled : g ≠ []) (all : ∀ e ∈ g, e = ' ')
      (solid : isBlank d = false) (u : Text) :
      singleBlanks (g ++ d :: u) = ' ' :: singleBlanks (d :: u) := by
    refine Text.replaceMatches_blankRun_gap (fun b mem => ?_) filled solid none u
    rw [all b mem]
    decide
  have empty : singleBlanks [] = [] := replaceMatches_nil
  refine spread_pass empty (fun c last => ?_) fun c d u inside => ?_
  · rw [keep (canonical.isSpaced.last c last), empty]
  · obtain ⟨fit, -⟩ := canonical.fits_suffix inside
    have c_mem : c ∈ t := inside.subset List.mem_cons_self
    obtain ⟨v, cut⟩ : ∃ v, spread gap (d :: u) = d :: v := spread_cons d u
    rw [cut]
    by_cases no_gap : gap c d = []
    · rw [if_pos no_gap, no_gap, List.nil_append, List.nil_append]
      by_cases space : c = ' '
      · subst space
        exact run (g := [' ']) (by simp) (by simp) (Text.isBlank_of_isWord (fits_space fit)) v
      · exact keep (canonical.isBlank_eq_false c_mem space) _
    · obtain ⟨c_solid, d_solid⟩ := beside c d fit no_gap
      rw [if_neg no_gap, keep (canonical.isBlank_eq_false c_mem c_solid),
        run no_gap (spaces c d) d_solid]
      rfl

/-! ## 5. The declarator -/

/-- The gaps with a space in front of the brackets of a class. -/
def opened (opens : Text) (gap : Char → Char → Text) (c d : Char) : Text :=
  if d ∈ opens ∧ c ≠ ' ' ∧ c ≠ ',' then [' '] else gap c d

theorem gaps_opened {opens : Text} (gaps : Gaps gap) (solid : ∀ d ∈ opens, isBlank d = false) :
    Gaps (opened opens gap) where
  one c d := by
    unfold opened
    split
    · exact .inr rfl
    · exact gaps.one c d
  behind d := by simp [opened, gaps.behind]
  before c d blank := by
    have other : d ∉ opens := by
      intro mem
      rw [solid d mem] at blank
      cases blank
    simp [opened, other, gaps.before c d blank]

theorem fits_open (h : fits c '(' = true) : isWord c = true := by
  by_contra no_word
  have solid : c ≠ ' ' := by
    rintro rfl
    exact absurd (fits_space h) (by decide)
  have no_comma : c ≠ ',' := by
    rintro rfl
    exact absurd (fits_comma h) (by decide)
  have no_star : isStar c = false := Bool.eq_false_iff.mpr fun star => by
    rcases fits_star star h with space | stop | ⟨-, star⟩
    · exact absurd space (by decide)
    · exact absurd stop (by decide)
    · exact absurd star (by decide)
  rw [fits, if_neg solid, if_neg no_comma, if_neg (by simp [no_star])] at h
  exact no_word h

theorem fits_square (h : fits c '[' = true) : c ≠ ' ' ∧ c ≠ ',' := by
  constructor
  · rintro rfl
    exact absurd (fits_space h) (by decide)
  · rintro rfl
    exact absurd (fits_comma h) (by decide)

/-- Behind an opening bracket of a canonical text there is no blank and no parenthesis. -/
theorem tight_behind_open (canonical : IsCanonical t) (listed : bracket ∈ ['(', '[']) :
    t.IsChain fun c d => c = bracket → isGap d = false ∧ d ≠ '(' := by
  refine List.IsChain.imp_of_mem_imp (fun c d _ d_mem fit => ?_) canonical.chain
  rintro rfl
  have opens : ∀ e ∈ ['(', '['], e ∈ [' ', '(', '<', '[', '=', '-'] ∧ isWord e = false := by decide
  constructor
  · refine Bool.eq_false_iff.mpr fun blank => ?_
    obtain rfl := IsCanonical.eq_space_of_gap canonical d_mem blank
    exact fits_before_space fit (opens c listed).1
  · rintro rfl
    have no_word := (opens c listed).2
    rw [fits_open fit] at no_word
    cases no_word

/-- The pass over an opening bracket, where nothing stands behind one. -/
theorem openWithGap_canonical (canonical : IsCanonical t) (listed : bracket ∈ ['(', '['])
    (first : ∀ c ∈ t.head?, c ∉ ['(', '[']) (last : ∀ c ∈ t.getLast?, c ∉ ['(', '['])
    (still : ∀ d, d ≠ '(' → gap bracket d = []) (spaces : ∀ c d, ∀ e ∈ gap c d, e = ' ') :
    replaceMatches (openWithGap bracket) (fun _ => [' ', bracket]) (spread gap t) =
      spread (widened bracket gap) t := by
  have solid : ' ' ≠ bracket := by
    rintro rfl
    exact absurd listed (by decide)
  refine openWithGap_spread ((tight_behind_open canonical listed).imp fun c d next => ?_)
    spaces solid (fun c mem opens => first c mem (by rwa [opens]))
    fun c mem opens => last c mem (by rwa [opens])
  rintro rfl
  obtain ⟨no_gap, no_open⟩ := next rfl
  exact ⟨still d no_open, no_gap⟩

/-- One space in front of every opening bracket is left of those that the passes put there. -/
theorem singleBlanks_widened (canonical : IsCanonical t) :
    singleBlanks (spread (widened '[' (widened '(' (behindStar ['=', '[']))) t) =
      spread (opened ['(', '['] (behindStar ['='])) t := by
  have gaps : Gaps (behindStar ['=', '[']) := gaps_behindStar (by decide)
  have other {c d : Char} (no_open : d ≠ '(') (no_square : d ≠ '[') :
      widened '[' (widened '(' (behindStar ['=', '['])) c d = behindStar ['='] c d := by
    simp [widened, behindStar, no_open, no_square]
  rw [singleBlanks_spread canonical (spaces_widened (spaces_widened gaps.spaces))
    fun c d fit some_gap => ?_]
  · refine spread_congr (canonical.chain.imp fun c d fit => ?_)
    by_cases no_open : d = '('
    · subst no_open
      have word := fits_open fit
      have solid : c ≠ ' ' ∧ c ≠ ',' :=
        ⟨Text.ne_of_isWord word (by decide), Text.ne_of_isWord word (by decide)⟩
      simp [widened, opened, solid]
    · by_cases no_square : d = '['
      · subst no_square
        simp [widened, opened, fits_square fit]
      · rw [other no_open no_square]
        rcases (gaps_behindStar (by decide) : Gaps (behindStar ['='])).one c d with gap | gap
        · simp [gap, opened, no_open, no_square]
        · simp [gap, opened, no_open, no_square]
  · by_cases no_open : d = '('
    · subst no_open
      exact ⟨Text.ne_of_isWord (fits_open fit) (by decide), by decide⟩
    · by_cases no_square : d = '['
      · subst no_square
        exact ⟨(fits_square fit).1, by decide⟩
      · rw [other no_open no_square] at some_gap
        obtain ⟨star, stop, -⟩ := behindStar_eq_space some_gap
        obtain rfl := List.mem_singleton.mp stop
        refine ⟨?_, by decide⟩
        rintro rfl
        cases star

/-- **The passes over brackets**: one space goes in front of every opening bracket. -/
theorem spreadBrackets_eq (canonical : IsCanonical t)
    (no_throw : replaceMatches (emptyCall "throw".toList) (fun _ => throwMark) t = t)
    (no_call : replaceMatches (emptyCall "operator".toList) (fun _ => callOperatorMark) t = t)
    (first : ∀ c ∈ t.head?, c ∉ ['(', '[']) (last : ∀ c ∈ t.getLast?, c ∉ ['(', '[']) :
    spreadBrackets t = spread (opened ['(', '['] (behindStar ['='])) t := by
  have gaps : Gaps (behindStar ['=', '[']) := gaps_behindStar (by decide)
  have spaces : ∀ c d, ∀ e ∈ widened '(' (behindStar ['=', '[']) c d, e = ' ' :=
    spaces_widened gaps.spaces
  have parentheses := openWithGap_canonical canonical (by decide : '(' ∈ ['(', '[']) first last
    (fun d _ => behindStar_eq_nil rfl) gaps.spaces
  have squares := openWithGap_canonical canonical (by decide : '[' ∈ ['(', '[']) first last
    (fun d no_open => by simp [widened, no_open, behindStar, isStar]) spaces
  have closes : replaceMatches (gapWithClose ')') (fun _ => [')', ' '])
        (spread (widened '(' (behindStar ['=', '['])) t) =
      spread (widened '(' (behindStar ['=', '['])) t :=
    gapWithClose_spread canonical spaces (fun c => by simp [widened, behindStar])
      (by decide) (by decide) _
  have closes' : replaceMatches (gapWithClose ']') (fun _ => [']', ' '])
        (spread (widened '[' (widened '(' (behindStar ['=', '[']))) t) =
      spread (widened '[' (widened '(' (behindStar ['=', '[']))) t :=
    gapWithClose_spread canonical (spaces_widened spaces) (fun c => by simp [widened, behindStar])
      (by decide) (by decide) _
  unfold spreadBrackets
  dsimp only
  rw [no_throw, no_call, canonical.canonicalSpacing_eq, joinOperatorName_eq_self canonical,
    parentheses, closes, squares, closes', singleBlanks_widened canonical]
  refine Text.trim_of_edges (fun c first => ?_) fun c last => ?_
  · rw [head_spread] at first
    exact canonical.isSpaced.first c first
  · rw [getLast_spread] at last
    exact canonical.isSpaced.last c last

/-! ## 6. The text in front of the last close -/

theorem cutLast?_append (absent : c ∉ t) : Text.cutLast? [c] (s ++ c :: t) = some (s, t) := by
  have nowhere : ¬ [c] <:+: t.reverse ++ [c].dropLast := fun found =>
    absent (by simpa using found.subset (List.mem_singleton.mpr rfl))
  have cut := Text.cutFirst?_append nowhere s.reverse
  have turned : (s ++ c :: t).reverse = t.reverse ++ [c] ++ s.reverse := by simp
  have one : [c].reverse = [c] := rfl
  rw [Text.cutLast?, turned, one, cut]
  simp

theorem dropsBefore_replace {x : Char} (solid : isBlank x = false) :
    DropsBefore x (Text.replace [' ', x] [x]) where
  nil := replace_nil
  keep c u c_solid _ := by
    refine replace_cons fun start => ?_
    obtain ⟨rfl, -⟩ := List.cons_prefix_cons.mp start
    cases c_solid
  space d u other _ := by
    refine replace_cons fun start => ?_
    obtain ⟨-, behind⟩ := List.cons_prefix_cons.mp start
    exact other (List.cons_prefix_cons.mp behind).1.symm
  drop u := by
    have taken : Text.replace [' ', x] [x] ([' ', x] ++ u) = [x] ++ Text.replace [' ', x] [x] u :=
      replace_append (by simp) u
    have kept : Text.replace [' ', x] [x] (x :: u) = x :: Text.replace [' ', x] [x] u := by
      refine replace_cons fun start => ?_
      obtain ⟨rfl, -⟩ := List.cons_prefix_cons.mp start
      cases solid
    rw [kept]
    exact taken

theorem IsCanonical.of_append (h : IsCanonical (s ++ t))
    (last : ∀ c ∈ s.getLast?, c ≠ ' ' ∧ c ≠ ',' ∧ isStar c = false) : IsCanonical s where
  part c mem := h.part c (List.mem_append_left t mem)
  chain := (List.isChain_append.mp h.chain).1
  first c first := h.first c (by rw [Option.mem_def] at first ⊢; rw [List.head?_append, first]; rfl)
  last := last

/-- A declaration in canonical spacing with one pair of parentheses, which stands behind a name. -/
structure IsApplied (pre name args tail : Text) : Prop where
  canonical : IsCanonical (pre ++ name ++ '(' :: (args ++ ')' :: tail))
  filled : name ≠ []
  word : ∀ c ∈ name, isWord c = true
  unmarked : name ≠ "throw".toList ∧ name ≠ "operator".toList
  apart : ∀ c ∈ pre.getLast?, isWord c = false
  pre_plain : ∀ c ∈ pre, c ∉ ['(', '[', '=']
  args_plain : '(' ∉ args
  tail_plain : ∀ c ∈ tail, c ∉ ['(', ')', '[', '=']

namespace IsApplied

variable {pre name args tail : Text}

theorem head_plain (h : IsApplied pre name args tail) : ∀ d ∈ pre ++ name, d ∉ ['(', '[', '='] := by
  intro d mem
  rcases List.mem_append.mp mem with mem | mem
  · exact h.pre_plain d mem
  · have no_word : ∀ e ∈ ['(', '[', '='], isWord e = false := by decide
    intro listed
    exact Text.ne_of_isWord (h.word d mem) (no_word d listed) rfl

/-- No bracket opens the text. -/
theorem head_no_bracket (h : IsApplied pre name args tail) (rest : Text) :
    ∀ c ∈ (pre ++ name ++ rest).head?, c ∉ ['(', '['] := by
  intro c first opens
  have inside : c ∈ pre ++ name := by
    obtain ⟨d, front, cut⟩ := List.exists_cons_of_ne_nil
      (List.append_ne_nil_of_right_ne_nil pre h.filled)
    rw [cut] at first ⊢
    cases first
    exact List.mem_cons_self
  have listed : ∀ e ∈ ['(', '['], e ∈ ['(', '[', '='] := by decide
  exact h.head_plain c inside (listed c opens)

/-- No bracket opens behind the last close. -/
theorem last_no_bracket (h : IsApplied pre name args tail) (front : Text) :
    ∀ c ∈ (front ++ ')' :: tail).getLast?, c ∉ ['(', '['] := by
  intro c last opens
  have inside : c ∈ ')' :: tail := by
    rw [List.getLast?_append_cons] at last
    exact List.mem_of_getLast? last
  rcases List.mem_cons.mp inside with rfl | mem
  · exact absurd opens (by decide)
  · have listed : ∀ e ∈ ['(', '['], e ∈ ['(', ')', '[', '='] := by decide
    exact h.tail_plain c mem (listed c opens)

/-- The last close ends the arguments. -/
theorem cutLast?_spreadBrackets (h : IsApplied pre name args tail) :
    Text.cutLast? [')'] (spreadBrackets (pre ++ name ++ '(' :: (args ++ ')' :: tail))) =
      some (spread (opened ['(', '['] (behindStar ['='])) (pre ++ name ++ '(' :: args), tail) := by
  have once : '(' ∉ args ++ ')' :: tail := by
    have no_tail : '(' ∉ tail := fun mem => h.tail_plain '(' mem (by decide)
    simp [h.args_plain, no_tail]
  have no_open : '(' ∉ pre := fun mem => h.pre_plain '(' mem (by decide)
  have unmarked {keyword : Text} (filled : keyword ≠ []) (letters : ∀ c ∈ keyword, isWord c = true)
      (other : name ≠ keyword) (image : Text → Text) :
      replaceMatches (emptyCall keyword) image (pre ++ name ++ '(' :: (args ++ ')' :: tail)) =
        pre ++ name ++ '(' :: (args ++ ')' :: tail) :=
    emptyCall_eq_self filled letters h.filled h.word h.apart other no_open once image
  have parts : pre ++ name ++ '(' :: (args ++ ')' :: tail) =
      pre ++ name ++ '(' :: args ++ ')' :: tail := by simp
  have last : ∀ c ∈ (pre ++ name ++ '(' :: (args ++ ')' :: tail)).getLast?, c ∉ ['(', '['] := by
    rw [parts]
    exact h.last_no_bracket _
  have none_behind : ∀ d ∈ tail, ∀ c, opened ['(', '['] (behindStar ['=']) c d = [] := by
    intro d mem c
    have plain := h.tail_plain d mem
    simp only [List.mem_cons, List.not_mem_nil, or_false, not_or] at plain
    simp [opened, behindStar, plain]
  rw [spreadBrackets_eq h.canonical (unmarked (by decide) (by decide) h.unmarked.1 _)
    (unmarked (by decide) (by decide) h.unmarked.2 _) (h.head_no_bracket _) last, parts,
    spread_append_of ?_, spread_solid none_behind]
  · exact cutLast?_append fun mem => h.tail_plain ')' mem (by decide)
  · rintro c - _ ⟨⟩
    simp [opened, behindStar]

/-- Up to the last close the text is in canonical spacing, too. -/
theorem canonical_closed (h : IsApplied pre name args tail) :
    IsCanonical (pre ++ name ++ '(' :: (args ++ [')'])) := by
  have parts : pre ++ name ++ '(' :: (args ++ ')' :: tail) =
      pre ++ name ++ '(' :: (args ++ [')']) ++ tail := by simp
  have whole := h.canonical
  rw [parts] at whole
  refine IsCanonical.of_append whole fun c last => ?_
  obtain rfl : c = ')' := by simpa [List.getLast?_cons] using last.symm
  decide

/-- With the gap in front of the parenthesis, nothing else changes in front of it, and what is
inside has the gaps it has by itself. -/
theorem spread_opened (h : IsApplied pre name args tail) :
    spread (opened ['('] (behindStar ['='])) (pre ++ name ++ '(' :: (args ++ [')'])) =
      pre ++ name ++ ' ' :: '(' :: (spread (behindStar ['=']) args ++ [')']) := by
  -- the name ends in front of the parenthesis, and the only gap there is the one that stays
  obtain ⟨front, l, cut⟩ := List.eq_nil_or_concat name |>.resolve_left h.filled
  rw [List.concat_eq_append] at cut
  have before : opened ['('] (behindStar ['=']) l '(' = [' '] := by
    have word := h.word l (by simp [cut])
    have solid : l ≠ ' ' := Text.ne_of_isWord word (by decide)
    have no_comma : l ≠ ',' := Text.ne_of_isWord word (by decide)
    simp [opened, solid, no_comma]
  have head : spread (opened ['('] (behindStar ['='])) (pre ++ front ++ [l]) = pre ++ name := by
    have whole : pre ++ front ++ [l] = pre ++ name := by rw [cut, List.append_assoc]
    rw [whole]
    refine spread_eq_self fun d mem c => ?_
    have plain := h.head_plain d mem
    simp only [List.mem_cons, List.not_mem_nil, or_false, not_or] at plain
    simp [opened, behindStar, plain]
  have plain :
      ∀ d ∈ args ++ [')'], ∀ c, opened ['('] (behindStar ['=']) c d = behindStar ['='] c d := by
    intro d mem c
    have no_open : d ≠ '(' := by
      rintro rfl
      rcases List.mem_append.mp mem with mem | mem
      · exact h.args_plain mem
      · exact absurd mem (by decide)
    simp [opened, no_open]
  have args_same : spread (opened ['('] (behindStar ['='])) args = spread (behindStar ['=']) args :=
    spread_congr (Text.isChain_of_forall fun c _ d mem => plain d (List.mem_append_left _ mem) c)
  have first : ∀ c ∈ ['('].getLast?, ∀ d ∈ (args ++ [')']).head?,
      opened ['('] (behindStar ['=']) c d = [] := by
    rintro _ ⟨⟩ d first
    rw [plain d (List.mem_of_head? first)]
    exact behindStar_eq_nil rfl
  have close :
      ∀ c ∈ args.getLast?, ∀ d ∈ [')'].head?, opened ['('] (behindStar ['=']) c d = [] := by
    rintro c - _ ⟨⟩
    simp [opened, behindStar]
  have inside : spread (opened ['('] (behindStar ['='])) ('(' :: (args ++ [')'])) =
      '(' :: (spread (behindStar ['=']) args ++ [')']) := by
    have parts : '(' :: (args ++ [')']) = ['('] ++ (args ++ [')']) := rfl
    rw [parts, spread_append_of first, spread_append_of close, args_same]
    rfl
  have whole :
      pre ++ name ++ '(' :: (args ++ [')']) = pre ++ front ++ l :: '(' :: (args ++ [')']) := by
    rw [cut]
    simp
  rw [whole, spread_append, before, head, inside]
  simp

/-- **What is cut into words**: the text up to the last close, with a space in front of the
parenthesis and between a decoration and the `=` behind it. -/
theorem declarator_eq (h : IsApplied pre name args tail) :
    Text.replace " <".toList ['<'] (Text.replace " [".toList ['[']
      (spread (opened ['(', '['] (behindStar ['='])) (pre ++ name ++ '(' :: args) ++ [')'])) =
      pre ++ name ++ ' ' :: '(' :: (spread (behindStar ['=']) args ++ [')']) := by
  have gaps : Gaps (behindStar ['=']) := gaps_behindStar (by decide)
  have joined :
      spread (opened ['(', '['] (behindStar ['='])) (pre ++ name ++ '(' :: args) ++ [')'] =
        spread (opened ['(', '['] (behindStar ['='])) (pre ++ name ++ '(' :: (args ++ [')'])) := by
    have parts : pre ++ name ++ '(' :: (args ++ [')']) = (pre ++ name ++ '(' :: args) ++ [')'] := by
      simp
    rw [parts, spread_append_of (t := [')']) (by rintro c - _ ⟨⟩; simp [opened, behindStar])]
    rfl
  have no_squares : (fun c d => if d = '[' then [] else opened ['(', '['] (behindStar ['=']) c d) =
      opened ['('] (behindStar ['=']) := by
    funext c d
    by_cases square : d = '[' <;> simp [opened, behindStar, square]
  have no_angles : (fun c d => if d = '<' then [] else opened ['('] (behindStar ['=']) c d) =
      opened ['('] (behindStar ['=']) := by
    funext c d
    by_cases angle : d = '<' <;> simp [opened, behindStar, angle]
  have squares := (dropsBefore_replace (by decide : isBlank '[' = false)).spread_eq (by decide)
    (gaps_opened gaps (by decide) : Gaps (opened ['(', '['] (behindStar ['=']))) h.canonical_closed
  have angles := (dropsBefore_replace (by decide : isBlank '<' = false)).spread_eq (by decide)
    (gaps_opened gaps (by decide) : Gaps (opened ['('] (behindStar ['=']))) h.canonical_closed
  rw [no_squares] at squares
  rw [no_angles] at angles
  have square : " [".toList = [' ', '['] := rfl
  have angle : " <".toList = [' ', '<'] := rfl
  rw [joined, square, squares, angle, angles, h.spread_opened]

end IsApplied
end AccessorCatalog.Declaration

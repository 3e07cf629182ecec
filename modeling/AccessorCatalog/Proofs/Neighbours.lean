/-
# Texts known by their neighbours

A text in canonical spacing is described by its neighbours: which character may stand in front of
which (`fits`, `IsCanonical`).  A pass over such a text is then described by the spaces that it puts
between neighbours, `spread`, and what one pass does to the spaces of another is seen behind a
single character (`spread_pass`).
-/
import AccessorCatalog.Proofs.TidyTypes

namespace AccessorCatalog.Source

open Text (Pattern countWhile isBlank isWord replaceMatches replaceMatchesFrom)

/-! ## 1. Passes that do not look back -/

variable {pattern : Pattern} {image : Text → Text} {s t : Text} {c d : Char}

@[simp] theorem replaceMatches_nil : replaceMatches pattern image [] = [] :=
  Text.replaceMatchesFrom_nil _ _ _

/-- A pattern that does not ask for the character in front. -/
def Forgetful (pattern : Pattern) : Prop :=
  ∀ b b' t, pattern b t = pattern b' t

theorem Forgetful.replaceMatches_cons (h : Forgetful pattern)
    (nothing : pattern none (c :: t) = none) :
    replaceMatches pattern image (c :: t) = c :: replaceMatches pattern image t := by
  rw [replaceMatches, Text.replaceMatches_cons_none nothing,
    Text.replaceMatchesFrom_before h _ _ none]
  rfl

theorem Forgetful.replaceMatches_append (h : Forgetful pattern) (filled : s ≠ [])
    (found : pattern none (s ++ t) = some s.length) :
    replaceMatches pattern image (s ++ t) = image s ++ replaceMatches pattern image t := by
  obtain ⟨c, s, rfl⟩ := List.exists_cons_of_ne_nil filled
  rw [List.cons_append] at found ⊢
  rw [replaceMatches, Text.replaceMatches_cons_some found, List.length_cons, Nat.add_sub_cancel,
    List.take_left, List.drop_left, Text.replaceMatchesFrom_before h _ _ none]
  rfl

/-! ## 2. Neighbours -/

/-- A character of a decoration. -/
def isStar (c : Char) : Bool :=
  c == '*' || c == '&'

/-- The characters that stand behind a decoration without a space. -/
def stops : Text :=
  [',', ')', '>', '=', '[']

/-- The characters of a declaration that are no word characters. -/
def signs : Text :=
  [' ', '*', '&', ',', '<', '>', '(', ')', '[', ']', '=', ':', '.', '-']

/-- Whether a character may stand in front of another. -/
def fits (c d : Char) : Bool :=
  if c = ' ' then isWord d
  else if c = ',' then d == ' '
  else if isStar c then d == ' ' || stops.contains d || (c == '*' && d == '*')
  else if isStar d then isWord c || c == '>'
  else if d = ' ' then !(['(', '<', '[', '=', '-'].contains c)
  else if d = '(' then isWord c
  else true

/-- A text in canonical spacing. -/
structure IsCanonical (t : Text) : Prop where
  part : ∀ c ∈ t, isWord c = true ∨ c ∈ signs
  chain : t.IsChain fun c d => fits c d = true
  first : ∀ c ∈ t.head?, c ≠ ' ' ∧ c ≠ '=' ∧ isStar c = false
  last : ∀ c ∈ t.getLast?, c ≠ ' ' ∧ c ≠ ',' ∧ isStar c = false

theorem fits_space (h : fits ' ' d = true) : isWord d = true := h

theorem fits_comma (h : fits ',' d = true) : d = ' ' := by
  simpa [fits] using h

theorem fits_star (star : isStar c = true) (h : fits c d = true) :
    d = ' ' ∨ d ∈ stops ∨ c = '*' ∧ d = '*' := by
  have form : c = '*' ∨ c = '&' := by simpa [isStar] using star
  rcases form with rfl | rfl <;> simpa [fits, isStar, or_assoc] using h

theorem fits_before_star (star : isStar d = true) (h : fits c d = true) :
    isWord c = true ∨ c = '>' ∨ c = '*' ∧ d = '*' := by
  have form : d = '*' ∨ d = '&' := by simpa [isStar] using star
  unfold fits at h
  split at h
  · rcases form with rfl | rfl <;> exact absurd h (by decide)
  · split at h
    · rcases form with rfl | rfl <;> exact absurd h (by decide)
    · split at h
      · rcases form with rfl | rfl
        · exact .inr (.inr (by simpa [stops] using h))
        · exact absurd h (by simp [stops])
      · exact (by simpa using h : isWord c = true ∨ c = '>').imp_right .inl

theorem fits_before_space (h : fits c ' ' = true) : c ∉ [' ', '(', '<', '[', '=', '-'] := by
  intro mem
  simp only [List.mem_cons, List.not_mem_nil, or_false] at mem
  rcases mem with rfl | rfl | rfl | rfl | rfl | rfl <;> exact absurd h (by decide)

/-! ## 3. Spaces between neighbours -/

/-- The text with a gap between every two neighbours, as a function of the two. -/
def spread (gap : Char → Char → Text) : Text → Text
  | [] => []
  | [c] => [c]
  | c :: d :: t => c :: (gap c d ++ spread gap (d :: t))

variable {gap gap' : Char → Char → Text}

theorem spread_cons (c : Char) (t : Text) : ∃ rest, spread gap (c :: t) = c :: rest := by
  cases t with
  | nil => exact ⟨[], rfl⟩
  | cons d t => exact ⟨_, rfl⟩

/-- Gaps count only between characters that are neighbours. -/
theorem spread_congr (same : t.IsChain fun c d => gap c d = gap' c d) :
    spread gap t = spread gap' t := by
  induction t with
  | nil => rfl
  | cons c t ih =>
    cases t with
    | nil => rfl
    | cons d t =>
      have ⟨here, rest⟩ := List.isChain_cons_cons.mp same
      rw [spread, spread, here, ih rest]

theorem spread_append (t : Text) (c d : Char) (u : Text) :
    spread gap (t ++ c :: d :: u) = spread gap (t ++ [c]) ++ gap c d ++ spread gap (d :: u) := by
  induction t with
  | nil => simp [spread]
  | cons b t ih =>
    cases t with
    | nil => simp [spread]
    | cons e t =>
      simp only [List.cons_append, spread] at ih ⊢
      rw [ih]
      simp

/-- Where no gap is between them, two texts are spread apart from each other. -/
theorem spread_append_of (joint : ∀ c ∈ s.getLast?, ∀ d ∈ t.head?, gap c d = []) :
    spread gap (s ++ t) = spread gap s ++ spread gap t := by
  obtain rfl | ⟨init, c, rfl⟩ := List.eq_nil_or_concat s
  · rfl
  · rw [List.concat_eq_append] at joint ⊢
    cases t with
    | nil => simp [spread]
    | cons d u =>
      have none_there : gap c d = [] := joint c (by simp) d rfl
      rw [List.append_assoc, List.singleton_append, spread_append, none_there, List.append_nil]

/-- Where no gap stands in front of any character but the first, the text stays as it is. -/
theorem spread_solid (solid : ∀ d ∈ t, ∀ c, gap c d = []) (c : Char) :
    spread gap (c :: t) = c :: t := by
  induction t generalizing c with
  | nil => rfl
  | cons d t ih =>
    rw [spread, solid d List.mem_cons_self, ih fun e mem => solid e (List.mem_cons_of_mem d mem)]
    rfl

/-- Without gaps the text stays as it is. -/
theorem spread_eq_self (solid : ∀ d ∈ t, ∀ c, gap c d = []) : spread gap t = t := by
  cases t with
  | nil => rfl
  | cons c t => exact spread_solid (fun d mem => solid d (List.mem_cons_of_mem c mem)) c

/-- **A pass is known from what it does behind one character**: it puts something in front of the
character and turns the gap behind it into another one. -/
theorem spread_pass_lead {pass : Text → Text} (lead : Char → Text) (nil : pass [] = [])
    (single : ∀ c, t.getLast? = some c → pass [c] = lead c ++ [c])
    (step : ∀ c d u, c :: d :: u <:+ t → pass (c :: (gap c d ++ spread gap (d :: u))) =
      lead c ++ c :: (gap' c d ++ pass (spread gap (d :: u)))) :
    pass (spread gap t) =
      (t.head?.elim [] lead) ++ spread (fun c d => gap' c d ++ lead d) t := by
  induction t with
  | nil => exact nil
  | cons c t ih =>
    cases t with
    | nil => exact single c rfl
    | cons d t =>
      have rest := ih (fun e last => single e (by rwa [List.getLast?_cons_cons]))
        fun e f u inside => step e f u (inside.trans (List.suffix_cons c (d :: t)))
      rw [spread, step c d t List.suffix_rfl, rest, spread]
      simp

/-- The same for a pass that puts nothing in front of a character. -/
theorem spread_pass {pass : Text → Text} (nil : pass [] = [])
    (single : ∀ c, t.getLast? = some c → pass [c] = [c])
    (step : ∀ c d u, c :: d :: u <:+ t →
      pass (c :: (gap c d ++ spread gap (d :: u))) =
        c :: (gap' c d ++ pass (spread gap (d :: u)))) :
    pass (spread gap t) = spread gap' t := by
  have whole : pass (spread gap t) = t.head?.elim [] (fun _ => []) ++
      spread (fun c d => gap' c d ++ []) t := spread_pass_lead (fun _ => []) nil single step
  simp only [List.append_nil] at whole
  rw [whole]
  cases t <;> rfl

/-- A gap is one space at most, and none is beside a blank or behind a comma. -/
structure Gaps (gap : Char → Char → Text) : Prop where
  one : ∀ c d, gap c d = [] ∨ gap c d = [' ']
  behind : ∀ d, gap ' ' d = [] ∧ gap ',' d = []
  before : ∀ c d, isBlank d = true → gap c d = []

theorem Gaps.spaces (gaps : Gaps gap) (c d : Char) : ∀ e ∈ gap c d, e = ' ' := by
  rcases gaps.one c d with none_there | space
  · simp [none_there]
  · simp [space]

/-- What holds between neighbours of the text and along the gap between them holds between
neighbours of the spread text. -/
theorem isChain_spread {R : Char → Char → Prop}
    (near : t.IsChain fun c d => (c :: (gap c d ++ [d])).IsChain R) : (spread gap t).IsChain R := by
  induction t with
  | nil => exact .nil
  | cons c t ih =>
    cases t with
    | nil => exact .singleton c
    | cons d t =>
      have ⟨here, rest⟩ := List.isChain_cons_cons.mp near
      have behind := ih rest
      obtain ⟨u, cut⟩ : ∃ u, spread gap (d :: t) = d :: u := spread_cons d t
      rw [cut] at behind
      have whole : (c :: gap c d ++ [d] ++ u).IsChain R :=
        List.IsChain.append_overlap here behind (by simp)
      rw [spread, cut]
      simpa using whole

theorem mem_spread (spaces : ∀ c d, ∀ e ∈ gap c d, e = ' ') {e : Char} (mem : e ∈ spread gap t) :
    e ∈ t ∨ e = ' ' := by
  induction t with
  | nil => cases mem
  | cons c t ih =>
    cases t with
    | nil => exact .inl mem
    | cons d t =>
      rw [spread, List.mem_cons, List.mem_append] at mem
      rcases mem with rfl | mem | mem
      · exact .inl List.mem_cons_self
      · exact .inr (spaces c d e mem)
      · exact (ih mem).imp_left (List.mem_cons_of_mem c)

theorem head_spread (t : Text) : (spread gap t).head? = t.head? := by
  cases t with
  | nil => rfl
  | cons c t =>
    obtain ⟨u, cut⟩ : ∃ u, spread gap (c :: t) = c :: u := spread_cons c t
    rw [cut]
    rfl

theorem getLast_spread (t : Text) : (spread gap t).getLast? = t.getLast? := by
  induction t with
  | nil => rfl
  | cons c t ih =>
    cases t with
    | nil => rfl
    | cons d t =>
      rw [spread, List.getLast?_cons_cons, List.getLast?_cons, List.getLast?_append, ih]
      cases last : (d :: t).getLast? with
      | none => simp at last
      | some e => rfl

end AccessorCatalog.Source

/-
# Canonical spacing keeps the program

Every pass of the normalizer takes a stretch of text and writes it again with other blanks.
`lexemes_normalize` says that nothing else happens: a normalized header and its program text have
the same lexemes.  No pass drops a lexeme, adds one, moves one, joins two or cuts one in two.

For each pattern the file says which stretches it takes (`decorated_takes`, `operatorSymbol_takes`,
...). What they have in common is that the blanks which may go stand beside a separator, and so
`sameLexemes_padded` covers all of them.
-/
import AccessorCatalog.Proofs.Lexemes

namespace AccessorCatalog.Source

open Text (Pattern countWhile isBlank isWord)

/-! ## 1. Stretches and blanks -/

theorem Takes.mono {pattern : Pattern} {form form' : Text → Prop} (h : Takes pattern form)
    (weaker : ∀ taken, form taken → form' taken) : Takes pattern form' := by
  intro before t n found
  obtain ⟨taken, rest, cut, length, some_taken, holds⟩ := h before t n found
  exact ⟨taken, rest, cut, length, some_taken, weaker taken holds⟩

/-- A pass that writes whatever it takes as it stands changes nothing. -/
theorem replaceMatches_eq_self {pattern : Pattern} {form : Text → Prop} {image : Text → Text}
    (takes : Takes pattern form) {t : Text}
    (same : ∀ taken, taken <:+: t → form taken → image taken = taken) (before : Option Char) :
    Text.replaceMatchesFrom pattern image before t = t := by
  fun_induction Text.replaceMatchesFrom pattern image before t with
  | case1 => rfl
  | case2 before c t n found taken ih =>
    have cut : c :: t = taken ++ t.drop (n - 1) := by
      rw [List.cons_append, List.take_append_drop]
    rw [same taken ⟨[], t.drop (n - 1), cut.symm⟩ (takes.form found), cut, ih fun other inside =>
      same other (cut ▸ inside.trans (List.suffix_append taken _).isInfix)]
  | case3 before c t found ih =>
    rw [ih fun other inside => same other (inside.trans (List.suffix_cons c t).isInfix)]

/-- A run of characters of a class, as long as it is counted. -/
theorem exists_run (p : Char → Bool) (t : Text) :
    ∃ run rest, t = run ++ rest ∧ (∀ c ∈ run, p c = true) ∧ countWhile p t = run.length :=
  ⟨t.takeWhile p, t.dropWhile p, (List.takeWhile_append_dropWhile).symm,
    fun _ => List.mem_takeWhile_imp, rfl⟩

theorem solid_of_blank {gap : Text} (blank : ∀ b ∈ gap, isBlank b = true) : solid gap = [] := by
  rw [solid, List.filter_eq_nil_iff]
  intro b mem
  simp [blank b mem]

theorem solid_of_solid {t : Text} (no_blank : ∀ c ∈ t, isBlank c = false) : solid t = t := by
  rw [solid, List.filter_eq_self]
  intro c mem
  simp [no_blank c mem]

/-- **Blanks around separators may come and go.** -/
theorem sameLexemes_padded {piece lead gap : Text} (some_piece : piece ≠ [])
    (seps : ∀ c ∈ piece, isWord c = false) (lead_blank : ∀ b ∈ lead, isBlank b = true)
    (gap_blank : ∀ b ∈ gap, isBlank b = true) : SameLexemes (lead ++ piece ++ gap) piece := by
  have behind : SameLexemes (piece ++ gap) piece := by
    obtain ⟨front, d, rfl⟩ := List.eq_nil_or_concat piece |>.resolve_left some_piece
    have last := sameLexemes_blanks_behind (seps d (by simp)) gap_blank
    simpa using last.append_left front
  have before : SameLexemes (lead ++ piece) piece := by
    obtain ⟨c, piece, rfl⟩ := List.exists_cons_of_ne_nil some_piece
    have first := sameLexemes_blanks_before (seps c List.mem_cons_self) lead_blank
    simpa using first.append_right piece
  rw [List.append_assoc]
  exact (behind.append_left lead).trans before

/-! ## 2. What the patterns around one symbol take -/

theorem blankRun_takes :
    Takes blankRun fun taken => taken ≠ [] ∧ ∀ b ∈ taken, isBlank b = true := by
  intro before t n found
  obtain ⟨run, rest, rfl, blank, length⟩ := exists_run isBlank t
  simp only [blankRun, length] at found
  split at found
  · cases found
  · next m some_run =>
    have filled : run ≠ [] := List.ne_nil_of_length_eq_add_one some_run
    exact ⟨run, rest, rfl, some_run.trans (Option.some.inj found), filled, filled, blank⟩

theorem padded_takes {piece : Text} (some_piece : piece ≠ []) :
    Takes (padded piece) fun taken => ∃ lead gap, taken = lead ++ piece ++ gap ∧
      (∀ b ∈ lead, isBlank b = true) ∧ ∀ b ∈ gap, isBlank b = true := by
  intro before t n found
  obtain ⟨lead, behind, rfl, lead_blank, lead_length⟩ := exists_run isBlank t
  simp only [padded, lead_length, List.drop_left] at found
  obtain ⟨rest, piece_at, rfl⟩ := Option.map_eq_some_iff.mp found
  obtain rfl := Text.afterPrefix?_eq_some.mp piece_at
  obtain ⟨gap, rest, rfl, gap_blank, gap_length⟩ := exists_run isBlank rest
  exact ⟨lead ++ piece ++ gap, rest, by simp, by simp [gap_length, Nat.add_assoc],
    by simp [some_piece], lead, gap, rfl, lead_blank, gap_blank⟩

theorem blankBehind_takes {piece : Text} (some_piece : piece ≠ []) :
    Takes (blankBehind piece) fun taken => ∃ gap, taken = piece ++ gap ∧
      ∀ b ∈ gap, isBlank b = true := by
  intro before t n found
  unfold blankBehind at found
  split at found
  · next rest piece_at =>
    obtain rfl := Text.afterPrefix?_eq_some.mp piece_at
    obtain ⟨gap, rest, rfl, gap_blank, gap_length⟩ := exists_run isBlank rest
    rw [gap_length] at found
    split at found
    · cases found
    · next m some_gap =>
      cases found
      exact ⟨piece ++ gap, rest, by simp, by simp [some_gap], by simp [some_piece], gap, rfl,
        gap_blank⟩
  · cases found

theorem blankBefore_takes {piece : Text} (some_piece : piece ≠ []) :
    Takes (blankBefore piece) fun taken => ∃ lead, taken = lead ++ piece ∧
      ∀ b ∈ lead, isBlank b = true := by
  intro before t n found
  obtain ⟨lead, behind, rfl, lead_blank, lead_length⟩ := exists_run isBlank t
  simp only [blankBefore, lead_length] at found
  split at found
  · cases found
  · next m some_lead =>
    rw [← Nat.succ_eq_add_one, ← some_lead, List.drop_left] at found
    obtain ⟨rest, piece_at, rfl⟩ := Option.map_eq_some_iff.mp found
    obtain rfl := Text.afterPrefix?_eq_some.mp piece_at
    exact ⟨lead ++ piece, rest, by simp, by simp, by simp [some_piece], lead, rfl, lead_blank⟩

/-! ## 3. What the patterns around decorations and signs take -/

/-- A decoration is made of stars and ampersands. -/
theorem decoration_eq_some {t : Text} {n : Nat} (h : decoration? t = some n) :
    ∃ deco rest, t = deco ++ rest ∧ deco.length = n ∧ deco ≠ [] ∧
      ∀ c ∈ deco, c = '*' ∨ c = '&' := by
  unfold decoration? at h
  split at h
  · next t =>
    cases h
    obtain ⟨stars, rest, rfl, star, length⟩ := exists_run (· == '*') t
    refine ⟨'*' :: stars, rest, rfl, by simp [length]; omega, by simp, fun c mem => .inl ?_⟩
    rcases List.mem_cons.mp mem with rfl | mem
    · rfl
    · simpa using star c mem
  · next rest =>
    cases h
    exact ⟨['&', '&'], rest, rfl, rfl, by simp, by simp⟩
  · next rest _ =>
    cases h
    exact ⟨['&'], rest, rfl, rfl, by simp, by simp⟩
  · cases h

/-- What ends a type in front of a decoration is no blank. -/
theorem isBlank_of_ends {c : Char} (others : List Char) (h : isWord c = true ∨ c ∈ others)
    (no_blank : others.all (fun d => !isBlank d) = true) : isBlank c = false := by
  rcases h with word | mem
  · cases blank : isBlank c with
    | false => rfl
    | true => rw [Text.isWord_of_isBlank blank] at word; cases word
  · simpa using List.all_eq_true.mp no_blank c mem

theorem decorated_takes : Takes decorated fun taken => ∃ c gap deco gap',
    taken = c :: (gap ++ deco ++ gap') ∧ isBlank c = false ∧ deco ≠ [] ∧
      (∀ d ∈ deco, d = '*' ∨ d = '&') ∧ (∀ b ∈ gap, isBlank b = true) ∧
        ∀ b ∈ gap', isBlank b = true := by
  intro before t n found
  obtain _ | ⟨c, t⟩ := t
  · cases found
  obtain ⟨gap, behind, rfl, gap_blank, gap_length⟩ := exists_run isBlank t
  simp only [decorated, gap_length, List.drop_left, List.drop_length_add_append,
    Option.ite_none_right_eq_some] at found
  obtain ⟨typed, m, deco_at, length⟩ := found.imp_right Option.map_eq_some_iff.mp
  obtain ⟨deco, rest, rfl, rfl, some_deco, stars⟩ := decoration_eq_some deco_at
  obtain ⟨gap', rest, rfl, gap_blank', gap_length'⟩ := exists_run isBlank rest
  have no_blank : isBlank c = false :=
    isBlank_of_ends ['>', ']'] (by simpa [or_assoc] using typed) (by decide)
  refine ⟨c :: (gap ++ deco ++ gap'), rest, by simp, ?_, by simp, c, gap, deco, gap', rfl, no_blank,
    some_deco, stars, gap_blank, gap_blank'⟩
  simp only [List.drop_left, gap_length'] at length
  simp only [List.length_cons, List.length_append]
  omega

theorem spacedSign_takes : Takes spacedSign fun taken => ∃ c gap sign gap' d,
    taken = c :: (gap ++ [sign] ++ gap' ++ [d]) ∧ isBlank c = false ∧ isBlank d = false ∧
      sign ∈ ['+', '/', '-'] ∧ (∀ b ∈ gap, isBlank b = true) ∧ ∀ b ∈ gap', isBlank b = true := by
  intro before t n found
  obtain _ | ⟨c, t⟩ := t
  · cases found
  obtain ⟨gap, behind, rfl, gap_blank, gap_length⟩ := exists_run isBlank t
  simp only [spacedSign, gap_length, Option.ite_none_right_eq_some] at found
  obtain ⟨operand, found⟩ := found
  split at found
  · cases found
  rename_i m some_gap
  rw [← Nat.succ_eq_add_one, ← some_gap, List.drop_left] at found
  obtain _ | ⟨sign, behind⟩ := behind
  · cases found
  obtain ⟨gap', rest, rfl, gap_blank', gap_length'⟩ := exists_run isBlank behind
  simp only [gap_length', List.drop_left, Option.ite_none_right_eq_some] at found
  obtain ⟨is_sign, found⟩ := found
  obtain _ | ⟨d, rest⟩ := rest
  · cases found
  simp only [Option.ite_none_right_eq_some, Option.some.injEq] at found
  obtain ⟨operand', length⟩ := found
  have c_solid : isBlank c = false :=
    isBlank_of_ends [')'] (by simpa using operand) (by decide)
  have d_solid : isBlank d = false :=
    isBlank_of_ends ['('] (by simpa using operand') (by decide)
  refine ⟨c :: (gap ++ [sign] ++ gap' ++ [d]), rest, by simp, ?_, by simp, c, gap, sign, gap', d,
    rfl, c_solid, d_solid, by simpa [or_assoc] using is_sign, gap_blank, gap_blank'⟩
  simp only [List.length_cons, List.length_append, List.length_nil]
  omega

theorem operatorSymbol_takes : Takes operatorSymbol fun taken => ∃ gap c symbol gap',
    taken = "operator".toList ++ (gap ++ c :: symbol) ++ (gap' ++ ['(']) ∧ isWord c = false ∧
      isBlank c = false ∧ (∀ d ∈ symbol, isBlank d = false) ∧ (∀ b ∈ gap, isBlank b = true) ∧
        ∀ b ∈ gap', isBlank b = true := by
  intro before t n found
  simp only [operatorSymbol, Option.ite_none_right_eq_some] at found
  replace found := found.2
  split at found
  case h_2 => cases found
  rename_i t word
  obtain rfl := Text.afterPrefix?_eq_some.mp word
  obtain ⟨gap, behind, rfl, gap_blank, gap_length⟩ := exists_run isBlank t
  rw [gap_length] at found
  split at found
  · cases found
  rename_i m some_gap
  rw [← Nat.succ_eq_add_one, ← some_gap, List.drop_left] at found
  obtain _ | ⟨c, behind⟩ := behind
  · cases found
  obtain ⟨symbol, behind, rfl, in_symbol, symbol_length⟩ :=
    exists_run (fun c => !isBlank c && c != '(') behind
  obtain ⟨gap', rest, rfl, gap_blank', gap_length'⟩ := exists_run isBlank behind
  simp only [symbol_length, gap_length', List.drop_left, List.drop_length_add_append,
    Option.ite_none_left_eq_some] at found
  obtain ⟨symbolic, found⟩ := found
  split at found
  case h_2 => cases found
  rename_i rest
  cases found
  simp only [Bool.or_eq_true, not_or, Bool.not_eq_true] at symbolic
  refine ⟨"operator".toList ++ (gap ++ c :: symbol) ++ (gap' ++ ['(']), rest, by simp, ?_, by simp,
    gap, c, symbol, gap', rfl, symbolic.1.1, symbolic.1.2, fun d mem => ?_, gap_blank, gap_blank'⟩
  · simp only [List.length_cons, List.length_append, List.length_nil,
      show "operator".toList.length = 8 from rfl]
    omega
  · have := in_symbol d mem
    simp_all

/-! ## 4. What the patterns of the layout take -/

theorem closeWithSemicolon_takes : Takes closeWithSemicolon fun taken => ∃ gap,
    taken = '\x7d' :: (gap ++ [';']) ∧ ∀ b ∈ gap, isBlank b = true := by
  intro before t n found
  unfold closeWithSemicolon at found
  split at found
  · next t =>
    obtain ⟨gap, behind, rfl, gap_blank, gap_length⟩ := exists_run isBlank t
    simp only [gap_length, List.drop_left] at found
    split at found
    · next rest =>
      cases found
      exact ⟨'\x7d' :: (gap ++ [';']), rest, by simp, by simp; omega, by simp, gap, rfl, gap_blank⟩
    · cases found
  · cases found

theorem accessLabel_takes : Takes accessLabel fun taken => ∃ word gap colons,
    taken = word ++ gap ++ colons ∧ word ∈ accessWords ∧ colons ≠ [] ∧ (∀ c ∈ colons, c = ':') ∧
      ∀ b ∈ gap, isBlank b = true := by
  intro before t n found
  simp only [accessLabel, Option.ite_none_right_eq_some] at found
  obtain ⟨word, mem, behind_word⟩ := List.exists_of_findSome?_eq_some found.2
  obtain ⟨rest, word_at, colon⟩ := Option.bind_eq_some_iff.mp behind_word
  obtain rfl := Text.afterPrefix?_eq_some.mp word_at
  obtain ⟨gap, behind, rfl, gap_blank, gap_length⟩ := exists_run isBlank rest
  simp only [gap_length, List.drop_left] at colon
  split at colon
  · next rest =>
    cases colon
    exact ⟨word ++ gap ++ [':', ':'], rest, by simp, by simp; omega, by simp, word, gap, [':', ':'],
      rfl, mem, by simp, by simp, gap_blank⟩
  · next rest _ =>
    cases colon
    exact ⟨word ++ gap ++ [':'], rest, by simp, by simp; omega, by simp, word, gap, [':'], rfl, mem,
      by simp, by simp, gap_blank⟩
  · cases colon

/-! ## 5. The passes -/

theorem sameLexemes_joinAssignmentsFrom (behind t : Text) :
    SameLexemes (joinAssignmentsFrom behind t) (behind.reverse ++ t) := by
  fun_induction joinAssignmentsFrom behind t with
  | case1 behind => simpa using SameLexemes.refl behind.reverse
  | case2 behind t kept part ih => simpa using ih
  | case3 behind t kept part ih =>
    -- the blanks on both sides of the sign go, and the sign is a separator
    let lead := (behind.takeWhile isBlank).reverse
    let gap := t.takeWhile (· == ' ')
    have lead_blank : ∀ b ∈ lead, isBlank b = true := fun b mem =>
      List.mem_takeWhile_imp (List.mem_reverse.mp mem)
    have gap_blank : ∀ b ∈ gap, isBlank b = true := fun b mem => by
      have space := List.mem_takeWhile_imp mem
      rw [beq_iff_eq.mp space]
      decide
    have sign : SameLexemes (lead ++ ['='] ++ gap) ['='] :=
      sameLexemes_padded (by simp) (separators_of_any (by decide)) lead_blank gap_blank
    have whole : behind.reverse ++ '=' :: t =
        kept.reverse ++ (lead ++ ['='] ++ gap) ++ t.dropWhile (· == ' ') := by
      have before : behind.reverse = kept.reverse ++ lead := by
        rw [← List.reverse_append, List.takeWhile_append_dropWhile]
      rw [before]
      simp only [gap, List.append_assoc, List.cons_append, List.nil_append,
        List.takeWhile_append_dropWhile]
    rw [whole]
    rw [List.reverse_cons] at ih
    exact ih.trans ((sign.append_left kept.reverse).append_right _).symm
  | case4 behind c t other ih => simpa using ih

theorem sameLexemes_joinAssignments (t : Text) : SameLexemes (joinAssignments t) t :=
  sameLexemes_joinAssignmentsFrom [] t

theorem sameLexemes_replaceAll {pairs : List (String × String)}
    (same : ∀ p ∈ pairs, SameLexemes p.2.toList p.1.toList) (t : Text) :
    SameLexemes (pairs.foldl (fun t (old, new) => Text.replace old.toList new.toList t) t) t := by
  induction pairs generalizing t with
  | nil => exact .refl t
  | cons p pairs ih =>
    have rest := ih fun q mem => same q (List.mem_cons_of_mem p mem)
    exact (rest _).trans (sameLexemes_replace (same p List.mem_cons_self) t)

theorem sameLexemes_closeDecorations (t : Text) : SameLexemes (closeDecorations t) t := by
  have close {d : Char} (sep : isWord d = false) (c : Char) : SameLexemes [d, c] [d, ' ', c] := by
    have space : SameLexemes [d, ' '] [d] :=
      sameLexemes_blanks_behind sep (List.all_eq_true.mp (by decide))
    exact (space.append_right [c]).symm
  refine sameLexemes_replaceAll (fun p mem => ?_) t
  simp only [List.mem_cons, List.not_mem_nil, or_false] at mem
  rcases mem with rfl | rfl | rfl | rfl | rfl | rfl <;> exact close (by decide) _

/-- A run of blanks is as good as one. -/
theorem sameLexemes_blankRun (t : Text) :
    SameLexemes (Text.replaceMatches blankRun (fun _ => [' ']) t) t := by
  refine sameLexemes_replaceMatches (blankRun_takes.mono fun taken ⟨filled, blank⟩ => ?_) t
  obtain ⟨b, run, rfl⟩ := List.exists_cons_of_ne_nil filled
  have b_blank := blank b List.mem_cons_self
  have run_blank : ∀ b' ∈ run, isBlank b' = true :=
    fun b' mem => blank b' (List.mem_cons_of_mem b mem)
  exact (sameLexemes_blank (by decide) b_blank).trans
    (sameLexemes_blanks_behind (Text.isWord_of_isBlank b_blank) run_blank).symm

theorem sameLexemes_decorated (t : Text) :
    SameLexemes (Text.replaceMatches decorated (fun m => solid m ++ [' ']) t) t := by
  refine sameLexemes_replaceMatches (decorated_takes.mono ?_) t
  rintro taken ⟨c, gap, deco, gap', rfl, no_blank, some_deco, stars, gap_blank, gap_blank'⟩
  have seps : ∀ d ∈ deco, isWord d = false := fun d mem => by
    rcases stars d mem with rfl | rfl <;> decide
  have deco_solid : ∀ d ∈ deco, isBlank d = false := fun d mem => by
    rcases stars d mem with rfl | rfl <;> decide
  have image : solid (c :: (gap ++ deco ++ gap')) ++ [' '] = c :: ([] ++ deco ++ [' ']) := by
    simp [solid_cons, no_blank, solid_of_blank gap_blank, solid_of_blank gap_blank',
      solid_of_solid deco_solid]
  have written : SameLexemes ([] ++ deco ++ [' ']) deco :=
    sameLexemes_padded some_deco seps (by simp) (List.all_eq_true.mp (by decide))
  have taken := sameLexemes_padded some_deco seps gap_blank gap_blank'
  rw [image]
  exact (written.trans taken.symm).cons c

/-- A piece of separators loses the blanks around it, or gets others. -/
theorem sameLexemes_padded_piece {piece : Text} (gap : Text) (some_piece : piece ≠ [])
    (seps : ∀ c ∈ piece, isWord c = false) (gap_blank : ∀ b ∈ gap, isBlank b = true) (t : Text) :
    SameLexemes (Text.replaceMatches (padded piece) (fun _ => piece ++ gap) t) t := by
  refine sameLexemes_replaceMatches ((padded_takes some_piece).mono ?_) t
  rintro taken ⟨lead, gap', rfl, lead_blank, gap_blank'⟩
  have written : SameLexemes ([] ++ piece ++ gap) piece :=
    sameLexemes_padded some_piece seps (by simp) gap_blank
  exact written.trans (sameLexemes_padded some_piece seps lead_blank gap_blank').symm

theorem sameLexemes_spacedSign (t : Text) :
    SameLexemes (Text.replaceMatches spacedSign solid t) t := by
  refine sameLexemes_replaceMatches (spacedSign_takes.mono ?_) t
  rintro taken ⟨c, gap, sign, gap', d, rfl, c_solid, d_solid, is_sign, gap_blank, gap_blank'⟩
  have signs : sign = '+' ∨ sign = '/' ∨ sign = '-' := by simpa using is_sign
  have sign_sep : isWord sign = false := by
    rcases signs with rfl | rfl | rfl <;> decide
  have sign_solid : isBlank sign = false := by
    rcases signs with rfl | rfl | rfl <;> decide
  have image : solid (c :: (gap ++ [sign] ++ gap' ++ [d])) = c :: ([sign] ++ [d]) := by
    simp [solid_cons, c_solid, d_solid, sign_solid, solid_of_blank gap_blank,
      solid_of_blank gap_blank']
  have middle : SameLexemes (gap ++ [sign] ++ gap') [sign] :=
    sameLexemes_padded (by simp) (by simpa using sign_sep) gap_blank gap_blank'
  rw [image]
  exact (middle.symm.append_right [d]).cons c

theorem sameLexemes_blankBehind {piece : Text} (some_piece : piece ≠ [])
    (seps : ∀ c ∈ piece, isWord c = false) (t : Text) :
    SameLexemes (Text.replaceMatches (blankBehind piece) (fun _ => piece) t) t := by
  refine sameLexemes_replaceMatches ((blankBehind_takes some_piece).mono ?_) t
  rintro taken ⟨gap, rfl, gap_blank⟩
  have taken : SameLexemes ([] ++ piece ++ gap) piece :=
    sameLexemes_padded some_piece seps (by simp) gap_blank
  exact taken.symm

theorem sameLexemes_blankBefore {piece : Text} (some_piece : piece ≠ [])
    (seps : ∀ c ∈ piece, isWord c = false) (t : Text) :
    SameLexemes (Text.replaceMatches (blankBefore piece) (fun _ => piece) t) t := by
  refine sameLexemes_replaceMatches ((blankBefore_takes some_piece).mono ?_) t
  rintro taken ⟨lead, rfl, lead_blank⟩
  have taken : SameLexemes (lead ++ piece ++ []) piece :=
    sameLexemes_padded some_piece seps lead_blank (by simp)
  rw [List.append_nil] at taken
  exact taken.symm

/-- **Canonical spacing keeps the lexemes.** -/
theorem lexemes_canonicalSpacing (t : Text) : lexemes (canonicalSpacing t) = lexemes t := by
  unfold canonicalSpacing
  rw [lexemes_trim]
  refine SameLexemes.lexemes_eq ?_
  exact (sameLexemes_closeDecorations _).trans <|
    (sameLexemes_joinAssignments _).trans <|
    (sameLexemes_blankBefore (by simp) (separators_of_any (by decide)) _).trans <|
    (sameLexemes_blankBehind (by simp) (separators_of_any (by decide)) _).trans <|
    (sameLexemes_spacedSign _).trans <|
    (sameLexemes_padded_piece [] (by simp) (separators_of_any (by decide)) (by simp) _).trans <|
    (sameLexemes_padded_piece [] (by simp) (separators_of_any (by decide)) (by simp) _).trans <|
    (sameLexemes_padded_piece [' '] (by simp) (separators_of_any (by decide))
      (List.all_eq_true.mp (by decide)) _).trans <|
    (sameLexemes_decorated _).trans (sameLexemes_blankRun t)

theorem sameLexemes_joinOperatorName (t : Text) : SameLexemes (joinOperatorName t) t := by
  refine sameLexemes_replaceMatches (operatorSymbol_takes.mono ?_) t
  rintro taken ⟨gap, c, symbol, gap', rfl, sep, no_blank, in_symbol, gap_blank, gap_blank'⟩
  have word : solid "operator".toList = "operator".toList := by decide
  have image : solid ("operator".toList ++ (gap ++ c :: symbol) ++ (gap' ++ ['('])) =
      "operator".toList ++ (c :: symbol) ++ ['('] := by
    rw [solid_append, solid_append, solid_append, solid_append, word, solid_of_blank gap_blank,
      solid_of_blank gap_blank', solid_cons, no_blank, solid_of_solid in_symbol]
    rfl
  have symbol_same : SameLexemes (gap ++ c :: symbol) (c :: symbol) := by
    simpa using (sameLexemes_blanks_before sep gap_blank).append_right symbol
  have parenthesis := sameLexemes_blanks_before (c := '(') (by decide) gap_blank'
  rw [image]
  exact ((symbol_same.append_left _).append parenthesis).symm

/-! ## 6. The layout -/

theorem sameLexemes_breakLines (t : Text) : SameLexemes (breakLines t) t := by
  have behind {c : Char} (sep : isWord c = false) : SameLexemes [c, '\n'] [c] :=
    sameLexemes_blanks_behind sep (List.all_eq_true.mp (by decide))
  have around {c : Char} (sep : isWord c = false) : SameLexemes ['\n', c, '\n'] [c] :=
    have line_end : ∀ b ∈ ['\n'], isBlank b = true := List.all_eq_true.mp (by decide)
    (sameLexemes_padded (by simp) (by simpa using sep) line_end line_end :
      SameLexemes (['\n'] ++ [c] ++ ['\n']) [c])
  unfold breakLines
  induction t with
  | nil => exact .refl []
  | cons c t ih =>
    rw [List.flatMap_cons]
    refine (SameLexemes.append ?_ ih : SameLexemes _ ([c] ++ t))
    split
    · next opens =>
      rw [opens]
      exact behind (by decide)
    · split
      · next ends =>
        rw [ends]
        exact behind (by decide)
      · split
        · next closes =>
          rw [closes]
          exact around (by decide)
        · exact .refl [c]

theorem sameLexemes_closeWithSemicolon (t : Text) :
    SameLexemes (Text.replaceMatches closeWithSemicolon (fun _ => ['\x7d', ';']) t) t := by
  refine sameLexemes_replaceMatches (closeWithSemicolon_takes.mono ?_) t
  rintro taken ⟨gap, rfl, gap_blank⟩
  have close := sameLexemes_blanks_behind (c := '\x7d') (by decide) gap_blank
  exact (close.append_right [';']).symm

theorem sameLexemes_endLabel (t : Text) :
    SameLexemes (Text.replaceMatches accessLabel endLabel t) t := by
  refine sameLexemes_replaceMatches (accessLabel_takes.mono ?_) t
  rintro taken ⟨word, gap, colons, rfl, mem, some_colons, all_colons, gap_blank⟩
  unfold endLabel
  split
  · exact .refl _
  · have seps : ∀ c ∈ colons, isWord c = false := fun c mem => by rw [all_colons c mem]; decide
    have colons_solid : ∀ c ∈ colons, isBlank c = false := fun c mem => by
      rw [all_colons c mem]
      decide
    have word_solid : solid word = word := by
      have all : ∀ word ∈ accessWords, solid word = word := by decide
      exact all word mem
    have image : solid (word ++ gap ++ colons) ++ ['\n'] = word ++ ([] ++ colons ++ ['\n']) := by
      simp [word_solid, solid_of_blank gap_blank, solid_of_solid colons_solid]
    have written : SameLexemes ([] ++ colons ++ ['\n']) colons :=
      sameLexemes_padded some_colons seps (by simp) (List.all_eq_true.mp (by decide))
    have taken : SameLexemes (gap ++ colons ++ []) colons :=
      sameLexemes_padded some_colons seps gap_blank (by simp)
    rw [List.append_nil] at taken
    rw [image, List.append_assoc word gap]
    exact (written.trans taken.symm).append_left word

/-- **Normalizing changes no lexeme**: a normalized header is its program text in other blanks. -/
theorem lexemes_normalize (t : Text) : lexemes (normalize t) = lexemes (programText t) := by
  unfold normalize
  dsimp only
  rw [lexemes_join_trimmedLines, (sameLexemes_endLabel _).lexemes_eq,
    (sameLexemes_closeWithSemicolon _).lexemes_eq, (sameLexemes_breakLines _).lexemes_eq,
    (sameLexemes_joinOperatorName _).lexemes_eq, lexemes_canonicalSpacing]

end AccessorCatalog.Source

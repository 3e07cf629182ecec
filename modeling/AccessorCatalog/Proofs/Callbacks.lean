/-
# Decoding with callbacks comes to an end

An argument that is a callback is decoded as a method again, with a mark in place of its name.  The
mark is longer than a short name, and blanks come in where brackets are, so the new text can be
longer than the field that it comes from.  What gets fewer are the opening parentheses: no pass adds
one, the list of arguments gives up the one that opens it, and the mark takes the place of another.

`Calls` says which texts are decoded on the way, and `Ends` how a run over them ends, both without a
budget.

* `count_of_calls`: a text that is decoded on the way has fewer parentheses;
* `ends_iff`: every run ends, and with what `decodeMethod` gives;
* `Ends.cause_of_error`: an error names the text, among those decoded on the way, that gives no
  signature;
* `decodeMethod_ends`: all of it, with the bound on the depth.
-/
import Mathlib.Logic.Relation
import AccessorCatalog.Declaration.Method
import AccessorCatalog.Proofs.Columns
import AccessorCatalog.Proofs.Fallible
import AccessorCatalog.Proofs.Spacing
import AccessorCatalog.Proofs.Spelling

namespace AccessorCatalog

variable {c : Char}

/-! ## 1. Counting along passes -/

namespace Source

/-- A character that is a lexeme by itself occurs as often as the lexeme. -/
theorem count_lexemes (sep : Text.isWord c = false) (solid : Text.isBlank c = false) (t : Text) :
    (lexemes t).count [c] = t.count c := by
  induction t using lexemes.induct with
  | case1 => rw [lexemes_nil]; rfl
  | case2 d t word ih =>
    have other : d ≠ c := Text.ne_of_isWord word sep
    have run : c ∉ t.takeWhile Text.isWord := fun mem =>
      Text.ne_of_isWord (List.mem_takeWhile_imp mem) sep rfl
    have behind : t.count c = (t.dropWhile Text.isWord).count c := by
      conv_lhs => rw [← List.takeWhile_append_dropWhile (p := Text.isWord) (l := t)]
      rw [List.count_append, List.count_eq_zero_of_not_mem run, Nat.zero_add]
    rw [lexemes, if_pos word, List.count_cons_of_ne (by simp [other]), ih,
      List.count_cons_of_ne other, behind]
  | case3 d t no_word blank ih =>
    have other : d ≠ c := by
      rintro rfl
      rw [solid] at blank
      cases blank
    rw [lexemes, if_neg no_word, if_pos blank, ih, List.count_cons_of_ne other]
  | case4 d t no_word no_blank ih =>
    rw [lexemes, if_neg no_word, if_neg no_blank, List.count_cons, List.count_cons, ih]
    simp

theorem count_canonicalSpacing (t : Text) : (canonicalSpacing t).count '(' = t.count '(' := by
  rw [← count_lexemes (by decide) (by decide), lexemes_canonicalSpacing,
    count_lexemes (by decide) (by decide)]

theorem count_joinOperatorName (t : Text) : (joinOperatorName t).count '(' = t.count '(' := by
  rw [← count_lexemes (by decide) (by decide), (sameLexemes_joinOperatorName t).lexemes_eq,
    count_lexemes (by decide) (by decide)]

end Source

namespace Text

variable {pattern : Pattern} {image : Text → Text}

theorem count_trim_le (t : Text) : (trim t).count c ≤ t.count c :=
  (Source.trim_isInfix t).sublist.count_le c

/-- A pass adds no character that the images of what it takes have no more of. -/
theorem count_replaceMatches_le (le : ∀ before d t n, pattern before (d :: t) = some n →
      (image (d :: t.take (n - 1))).count c ≤ (d :: t.take (n - 1)).count c) (t : Text) :
    (replaceMatches pattern image t).count c ≤ t.count c := by
  unfold replaceMatches
  generalize (none : Option Char) = before
  fun_induction replaceMatchesFrom pattern image before t with
  | case1 => exact le_rfl
  | case2 before d t n found taken ih =>
    have cut : d :: t = taken ++ t.drop (n - 1) := by
      rw [List.cons_append, List.take_append_drop]
    rw [cut, List.count_append, List.count_append]
    exact Nat.add_le_add (le before d t n found) ih
  | case3 before d t found ih =>
    rw [List.count_cons, List.count_cons]
    exact Nat.add_le_add_right ih _

theorem count_replaceMatches_of_absent (absent : ∀ taken, c ∉ image taken) (t : Text) :
    (replaceMatches pattern image t).count c ≤ t.count c := by
  refine count_replaceMatches_le (fun before d t n _ => ?_) t
  rw [List.count_eq_zero_of_not_mem (absent _)]
  exact Nat.zero_le _

theorem count_le_countPieces {piece : Text} {pieces : List Text} (mem : piece ∈ pieces) :
    piece.count c ≤ countPieces c pieces := by
  induction pieces with
  | nil => cases mem
  | cons first pieces ih =>
    rw [countPieces_cons]
    rcases List.mem_cons.mp mem with rfl | mem
    · exact Nat.le_add_right _ _
    · exact (ih mem).trans (Nat.le_add_left _ _)

theorem countPieces_append (front behind : List Text) :
    countPieces c (front ++ behind) = countPieces c front + countPieces c behind := by
  induction front with
  | nil => simp
  | cons piece front ih =>
    rw [List.cons_append, countPieces_cons, countPieces_cons, ih, Nat.add_assoc]

theorem countPieces_words (solid : isBlank c = false) (t : Text) :
    countPieces c (words t) = t.count c := by
  rw [words, countPieces_filter_not_isEmpty, countPieces_splitWhere solid]

end Text

namespace Declaration

open Relation (ReflTransGen)

/-- The passes over brackets add no parenthesis. -/
theorem count_spreadBrackets_le (t : Text) : (spreadBrackets t).count '(' ≤ t.count '(' := by
  have absent {pattern : Text.Pattern} {piece : Text} (no_open : '(' ∉ piece) (t : Text) :
      (Text.replaceMatches pattern (fun _ => piece) t).count '(' ≤ t.count '(' :=
    Text.count_replaceMatches_of_absent (fun _ => no_open) t
  have opening (t : Text) :
      (Text.replaceMatches (openWithGap '(') (fun _ => [' ', '(']) t).count '(' ≤
      t.count '(' := by
    refine Text.count_replaceMatches_le (fun before d t n found => ?_) t
    -- what is taken starts with the parenthesis that is written again
    have first : d = '(' := by
      by_contra other
      simp [openWithGap, other] at found
    rw [first, List.count_cons_self]
    exact Nat.le_add_left 1 _
  unfold spreadBrackets singleBlanks
  exact (Text.count_trim_le _).trans <|
    (absent (by decide) _).trans <|
    (absent (by decide) _).trans <|
    (absent (by decide) _).trans <|
    (absent (by decide) _).trans <|
    (opening _).trans <|
    (Source.count_joinOperatorName _).le.trans <|
    (Source.count_canonicalSpacing _).le.trans <|
    (absent (by decide) _).trans <|
    absent (by decide) _

/-! ## 2. A declaration taken apart -/

/-- What a declaration is made of: the words in front of its argument list, the fields of the list,
and the text behind it. -/
structure Parts where
  head : List Text
  fields : List Text
  tail : Text

/-- The parts of a declaration, if it has an argument list and a word in front of it. -/
def parts? (text : Text) : Option Parts :=
  match Text.cutLast? [')'] (spreadBrackets text) with
  | none => none
  | some (declarator, tail) =>
    let declarator := Text.replace " [".toList ['['] (declarator ++ [')'])
    let declarator := Text.replace " <".toList ['<'] declarator
    match splitAtArguments? none (Text.words declarator) with
    | none => none
    | some ([], _) => none
    | some (head, list) =>
      let inside := insideParentheses list
      some ⟨head, if inside.isEmpty then [] else splitArguments inside, tail⟩

/-- The method of a declaration, from its parts and its decoded arguments. -/
def Parts.method (text : Text) (parts : Parts) (args : List Argument) :
    Except ParseError Signature :=
  let args := if isVoidList args then [] else args
  let (type, name) := splitReturnAndName (withoutSpecifiers parts.head)
  let name := Text.replace callOperatorMark "operator()".toList name
  if name.isEmpty then .error (.undecodable text)
  else .ok ⟨tidyType type, name, args, readQualifier parts.tail⟩

variable {decode decode' : Text → Except ParseError Signature} {text field called : Text}
  {parts : Parts} {e : ParseError}

/-- A declaration is taken apart, its fields are decoded, and the method is put together. -/
theorem decodeMethodWith_eq (decode : Text → Except ParseError Signature) (text : Text) :
    decodeMethodWith decode text =
      match parts? text with
      | none => .error (.undecodable text)
      | some parts => parts.fields.mapM (decodeArgument decode) >>= parts.method text := by
  unfold decodeMethodWith parts?
  cases Text.cutLast? [')'] (spreadBrackets text) with
  | none => rfl
  | some cut =>
    obtain ⟨declarator, tail⟩ := cut
    dsimp only
    generalize splitAtArguments? none _ = found
    rcases found with _ | ⟨_ | ⟨word, head⟩, list⟩ <;> rfl

/-- The argument list starts with the word that has the parenthesis in front. -/
theorem eq_of_splitAtArguments? {before : Option Text} {words head list : List Text}
    (found : splitAtArguments? before words = some (head, list)) :
    words = head ++ list ∧ ∃ word behind, list = ('(' :: word) :: behind := by
  induction words generalizing before head with
  | nil => cases found
  | cons word words ih =>
    unfold splitAtArguments? at found
    dsimp only at found
    split_ifs at found with opens
    · cases found
      obtain ⟨rest, start⟩ := List.isPrefixOf_iff_prefix.mp (Bool.and_eq_true_iff.mp opens).1
      exact ⟨rfl, rest, words, by rw [← start]; rfl⟩
    · obtain ⟨⟨front, behind⟩, later, ends⟩ := Option.map_eq_some_iff.mp found
      cases ends
      obtain ⟨rfl, opened⟩ := ih later
      exact ⟨rfl, opened⟩

theorem count_splitArguments_le {args : Text} (mem : field ∈ splitArguments args) :
    field.count '(' ≤ args.count '(' := by
  obtain ⟨piece, inside, rfl⟩ := List.mem_map.mp mem
  calc
    (Text.trim piece).count '(' ≤ piece.count '(' := Text.count_trim_le piece
    _ ≤ countPieces '(' (Text.splitTop ',' args) := Text.count_le_countPieces inside
    _ = (Text.join [','] (Text.splitTop ',' args)).count '(' := (count_join (by decide) _).symm
    _ = args.count '(' := by rw [Text.join_splitTop]

/-- The list of arguments gives up the parenthesis that opens it. -/
theorem count_insideParentheses_lt (word : Text) (behind : List Text) :
    (insideParentheses (('(' :: word) :: behind)).count '(' <
      countPieces '(' (('(' :: word) :: behind) := by
  have inside : insideParentheses (('(' :: word) :: behind) =
      Text.trim (Text.join [' '] (word :: behind)).dropLast := by
    have opened := Text.join_consFirst [' '] '(' (List.cons_ne_nil word behind)
    rw [Text.consFirst] at opened
    rw [insideParentheses, opened, List.drop_one, List.tail_cons]
  calc
    (insideParentheses (('(' :: word) :: behind)).count '('
        ≤ (Text.join [' '] (word :: behind)).dropLast.count '(' := by
          rw [inside]
          exact Text.count_trim_le _
    _ ≤ (Text.join [' '] (word :: behind)).count '(' := (List.dropLast_sublist _).count_le '('
    _ = countPieces '(' (word :: behind) := count_join (by decide) _
    _ < countPieces '(' (('(' :: word) :: behind) := by
          rw [countPieces_cons, countPieces_cons, List.count_cons_self]
          omega

/-- What is between the parentheses of a declaration has fewer of them than the whole, and the
fields are cut out of it. -/
theorem exists_of_parts? (found : parts? text = some parts) :
    ∃ inside, inside.count '(' < text.count '(' ∧
      parts.fields = if inside.isEmpty then [] else splitArguments inside := by
  unfold parts? at found
  split at found
  · cases found
  next declarator tail cut =>
  dsimp only at found
  split at found
  · cases found
  · cases found
  next head list _ split =>
  cases found
  obtain ⟨words, word, behind, rfl⟩ := eq_of_splitAtArguments? split
  refine ⟨_, ?_, rfl⟩
  calc
    (insideParentheses (('(' :: word) :: behind)).count '('
        < countPieces '(' (('(' :: word) :: behind) := count_insideParentheses_lt word behind
    _ ≤ countPieces '(' (head ++ ('(' :: word) :: behind) := by
          rw [Text.countPieces_append]
          exact Nat.le_add_left _ _
    _ = (declarator ++ [')']).count '(' := by
          rw [← words, Text.countPieces_words (by decide), count_replace (by decide) (by decide),
            count_replace (by decide) (by decide)]
    _ ≤ (spreadBrackets text).count '(' := by
          rw [Text.eq_of_cutLast? cut]
          exact (List.sublist_append_left _ tail).count_le '('
    _ ≤ text.count '(' := count_spreadBrackets_le text

theorem count_field (found : parts? text = some parts) (mem : field ∈ parts.fields) :
    field.count '(' < text.count '(' := by
  obtain ⟨inside, fewer, fields⟩ := exists_of_parts? found
  rw [fields] at mem
  split_ifs at mem
  · cases mem
  · exact (count_splitArguments_le mem).trans_lt fewer

/-- Without a parenthesis there is no argument list. -/
theorem parts?_eq_none (none_open : text.count '(' = 0) : parts? text = none := by
  cases found : parts? text with
  | none => rfl
  | some parts =>
    obtain ⟨inside, fewer, -⟩ := exists_of_parts? found
    omega

/-! ## 3. Callbacks -/

/-- What a field declares, without its default value. -/
def declared (field : Text) : Text :=
  (splitDefault
    (Text.replaceMatches decorationBeforeName (fun m => m.take 1 ++ ' ' :: m.drop 1) field)).1

/-- The text that is decoded for a field, if the field declares a callback. -/
def called? (field : Text) : Option Text :=
  (callback? (declared field)).map Prod.snd

theorem decodeArgument_congr
    (agree : ∀ called, called? field = some called → decode called = decode' called) :
    decodeArgument decode field = decodeArgument decode' field := by
  unfold called? declared at agree
  unfold decodeArgument
  dsimp only
  split
  · next name called found => rw [agree called (by rw [found]; rfl)]
  · rfl

theorem called_of_error (error : decodeArgument decode field = .error e) :
    ∃ called, called? field = some called ∧ decode called = .error e := by
  unfold decodeArgument at error
  dsimp only at error
  split at error
  · next name called found =>
    rcases bind_eq_error_iff.mp error with failed | ⟨s, -, done⟩
    · exact ⟨called, by rw [called?, declared, found]; rfl, failed⟩
    · cases done
  · cases error

/-- The name of a callback stands in parentheses. -/
theorem exists_of_callbackName? {t name rest : Text} (found : callbackName? t = some (name, rest)) :
    ∃ u, t = '(' :: u ∧ rest <:+ u := by
  have behind {head t rest : Text} (start : Text.afterPrefix? head t = some rest) : rest <:+ t :=
    ⟨head, (Text.afterPrefix?_eq_some.mp start).symm⟩
  have trimmed (t : Text) : Text.trimStart t <:+ t := List.dropWhile_suffix Text.isBlank
  have starred {v w x : Text} {n : Nat} (star : Text.afterPrefix? ['*'] (Text.trimStart v) = some w)
      (closed : Text.afterPrefix? [')'] (Text.trimStart ((Text.trimStart w).drop n)) = some x) :
        x <:+ v :=
    (behind closed).trans <| (trimmed _).trans <| (List.drop_suffix n _).trans <|
      (trimmed w).trans <| (behind star).trans (trimmed v)
  simp only [callbackName?, bind, Option.bind_eq_some_iff] at found
  obtain ⟨u, opened, found⟩ := found
  refine ⟨u, Text.afterPrefix?_eq_some.mp opened, ?_⟩
  split at found
  · simp only [Option.bind_some, Option.bind_eq_some_iff] at found
    obtain ⟨w, star, x, closed, named⟩ := found
    split_ifs at named
    cases named
    exact (starred star closed).trans (trimmed u)
  · simp only [Option.bind_eq_some_iff] at found
    obtain ⟨v, inScope, w, star, x, closed, named⟩ := found
    split_ifs at named
    cases named
    exact (starred star closed).trans <| (behind inScope).trans <|
      (List.drop_suffix _ _).trans (trimmed u)

theorem count_declared_le (field : Text) : (declared field).count '(' ≤ field.count '(' := by
  have spaced : (Text.replaceMatches decorationBeforeName
      (fun m => m.take 1 ++ ' ' :: m.drop 1) field).count '(' ≤ field.count '(' := by
    refine Text.count_replaceMatches_le (fun before d t n _ => le_of_eq ?_) field
    rw [List.count_append, List.count_cons_of_ne (by decide), ← List.count_append,
      List.take_append_drop]
  refine le_trans ?_ spaced
  unfold declared splitDefault
  split
  · next left value cut =>
    rw [Text.eq_of_cutFirst? cut, List.append_assoc, List.count_append]
    exact (Text.count_trim_le left).trans (Nat.le_add_right _ _)
  · exact Text.count_trim_le _

/-- The mark of a callback takes the place of a parenthesis. -/
theorem count_callback {decl name : Text} (found : callback? decl = some (name, called)) :
    called.count '(' < decl.count '(' := by
  have no_mark : callbackMark.count '(' = 0 := by decide
  unfold callback? at found
  split at found
  · cases found
  next n _ =>
  split at found
  next name rest named =>
    split at found
    next args _ =>
      split_ifs at found
      cases found
      obtain ⟨behind, opened, inside⟩ := exists_of_callbackName? named
      calc
        (decl.take (n + 1) ++ callbackMark ++ rest).count '('
            = (decl.take (n + 1)).count '(' + rest.count '(' := by
              rw [List.count_append, List.count_append, no_mark, Nat.add_zero]
        _ ≤ (decl.take (n + 1)).count '(' + behind.count '(' :=
              Nat.add_le_add_left (inside.sublist.count_le '(') _
        _ < (decl.take (n + 1)).count '(' + (decl.drop (n + 1)).count '(' := by
              rw [opened, List.count_cons_self]
              omega
        _ = decl.count '(' := by rw [← List.count_append, List.take_append_drop]
    next => cases found
  next => cases found

theorem count_called (calls : called? field = some called) :
    called.count '(' < field.count '(' := by
  obtain ⟨⟨name, inner⟩, found, rfl⟩ := Option.map_eq_some_iff.mp calls
  exact (count_callback found).trans_le (count_declared_le field)

/-! ## 4. Runs -/

/-- The fields of the argument list of a declaration. -/
def fields (text : Text) : List Text :=
  (parts? text).elim [] Parts.fields

/-- One text may be decoded on the way to decoding another, for one of its fields. -/
def Calls (text called : Text) : Prop :=
  ∃ field ∈ fields text, called? field = some called

instance (text called : Text) : Decidable (Calls text called) :=
  inferInstanceAs (Decidable (∃ field ∈ fields text, called? field = some called))

/-- Decoding a text has ended with a result: decoding each text that it calls has ended, and from
what that gave comes the result. -/
inductive Ends : Text → Except ParseError Signature → Prop
  | intro {text : Text} {decode : Text → Except ParseError Signature}
      (ended : ∀ called, Calls text called → Ends called (decode called)) :
      Ends text (decodeMethodWith decode text)

/-- **A text that is decoded on the way has fewer parentheses.** -/
theorem count_of_calls (calls : Calls text called) : called.count '(' < text.count '(' := by
  obtain ⟨field, mem, calls⟩ := calls
  unfold fields at mem
  cases found : parts? text with
  | none =>
    rw [found] at mem
    cases mem
  | some parts =>
    rw [found] at mem
    exact (count_called calls).trans (count_field found mem)

/-- Decoding asks only about the texts that are called. -/
theorem decodeMethodWith_congr
    (agree : ∀ called, Calls text called → decode called = decode' called) :
    decodeMethodWith decode text = decodeMethodWith decode' text := by
  unfold Calls fields at agree
  rw [decodeMethodWith_eq, decodeMethodWith_eq]
  cases found : parts? text with
  | none => rfl
  | some parts =>
    rw [found] at agree
    dsimp only
    have same :
        ∀ field ∈ parts.fields, decodeArgument decode field = decodeArgument decode' field :=
      fun field mem => decodeArgument_congr fun called calls => agree called ⟨field, mem, calls⟩
    rw [mapM_congr same]

/-- A budget that covers the parentheses is enough. -/
theorem ends_decodeMethodWithin {depth : Nat} (enough : text.count '(' ≤ depth) :
    Ends text (decodeMethodWithin depth text) := by
  induction depth generalizing text with
  | zero =>
    -- the budget is used up, but without a parenthesis there is no list of arguments to ask about
    have none_open : text.count '(' = 0 := Nat.le_zero.mp enough
    have refused : decodeMethodWith (decodeMethodWithin 0) text = decodeMethodWithin 0 text := by
      rw [decodeMethodWith_eq, parts?_eq_none none_open, decodeMethodWithin]
    rw [← refused]
    refine .intro ?_
    intro called calls
    have fewer := count_of_calls calls
    omega
  | succ depth ih =>
    refine .intro ?_
    intro called calls
    have fewer := count_of_calls calls
    exact ih (by omega)

theorem Ends.unique {result result' : Except ParseError Signature} (h : Ends text result)
    (h' : Ends text result') : result = result' := by
  induction h generalizing result' with
  | intro _ ih =>
    cases h' with
    | intro ended =>
      refine decodeMethodWith_congr ?_
      intro called calls
      exact ih called calls (ended called calls)

/-- **Every run ends**, and with what `decodeMethod` gives. -/
theorem ends_iff (text : Text) (result : Except ParseError Signature) :
    Ends text result ↔ decodeMethod text = result := by
  have ended : Ends text (decodeMethod text) := ends_decodeMethodWithin le_rfl
  constructor
  · intro h
    exact ended.unique h
  · rintro rfl
    exact ended

/-- **Errors are about signatures**, and each names the text that gives none. -/
theorem Ends.cause_of_error {result : Except ParseError Signature} (h : Ends text result)
    (error : result = .error e) :
    ∃ cause, ReflTransGen Calls text cause ∧ e = .undecodable cause := by
  induction h with
  | @intro text decode _ ih =>
    rw [decodeMethodWith_eq] at error
    cases found : parts? text with
    | none =>
      rw [found] at error
      cases error
      exact ⟨text, .refl, rfl⟩
    | some parts =>
      rw [found] at error
      dsimp only at error
      rcases bind_eq_error_iff.mp error with failed | ⟨args, -, unnamed⟩
      · obtain ⟨field, mem, failed⟩ := exists_of_mapM_error failed
        obtain ⟨called, calls, failed⟩ := called_of_error failed
        have call : Calls text called := ⟨field, by rw [fields, found]; exact mem, calls⟩
        obtain ⟨cause, reached, rfl⟩ := ih called call failed
        exact ⟨cause, .head call reached, rfl⟩
      · unfold Parts.method at unnamed
        dsimp only at unnamed
        split_ifs at unnamed
        cases unnamed
        exact ⟨text, .refl, rfl⟩

/-- Calls on calls use up the parentheses. -/
theorem length_le_of_isChain {chain : List Text} (calls : (text :: chain).IsChain Calls) :
    chain.length ≤ text.count '(' := by
  induction chain generalizing text with
  | nil => exact Nat.zero_le _
  | cons called chain ih =>
    obtain ⟨call, rest⟩ := List.isChain_cons_cons.mp calls
    have fewer := count_of_calls call
    have behind := ih rest
    rw [List.length_cons]
    omega

/-- **Decoding comes to an end.**  Every run ends with what `decodeMethod` gives.  A text that is
decoded for a field of another has fewer opening parentheses, although it can be longer than the
field, so that no more calls are nested in each other than the text has of them.  Every error is
about a text that gives no signature: the text itself, or one that is decoded on the way. -/
theorem decodeMethod_ends :
    (∀ text result, Ends text result ↔ decodeMethod text = result) ∧
    (∀ text called, Calls text called → called.count '(' < text.count '(') ∧
    (∃ text, ∃ field ∈ fields text, ∃ called, called? field = some called ∧
      field.length < called.length) ∧
    (∀ text chain, (text :: chain).IsChain Calls → chain.length ≤ text.count '(') ∧
    (∀ text e, decodeMethod text = .error e →
      ∃ cause, ReflTransGen Calls text cause ∧ e = .undecodable cause) ∧
    (∀ field e, decodeArgument decodeMethod field = .error e →
      ∃ cause, e = .undecodable cause) := by
  have causes (text : Text) (e : ParseError) (error : decodeMethod text = .error e) :
      ∃ cause, ReflTransGen Calls text cause ∧ e = .undecodable cause :=
    ((ends_iff text _).mpr error).cause_of_error rfl
  refine ⟨ends_iff, fun _ _ => count_of_calls, ?_, fun _ _ => length_le_of_isChain, causes, ?_⟩
  · -- the name in its parentheses has four characters, and the mark that takes its place has six
    exact ⟨"void f(int (*g)())".toList, "int (*g) ()".toList, by decide +kernel,
      "int CALLB_ ()".toList, by decide +kernel, by decide⟩
  · intro field e error
    obtain ⟨called, -, failed⟩ := called_of_error error
    obtain ⟨cause, -, rfl⟩ := causes called e failed
    exact ⟨cause, rfl⟩

/-- A method with a callback that takes a callback. -/
def nestedCallbacks : Text :=
  "void apply(double (*fn)(double, int (*g)(int)), int n)".toList

/-- What is decoded for its first argument, and for the second argument of that. -/
def innerCallbacks : List Text :=
  ["double CALLB_ (double, int (* g) (int))".toList, "int CALLB_ (int)".toList]

theorem decodeMethod_ends_nestedCallbacks :
    (nestedCallbacks :: innerCallbacks).IsChain Calls ∧
      innerCallbacks.length ≤ nestedCallbacks.count '(' ∧ nestedCallbacks.count '(' = 5 ∧
      Ends nestedCallbacks (decodeMethod nestedCallbacks) ∧
      decodeMethod "int x".toList = .error (.undecodable "int x".toList) ∧
      ∃ cause, ReflTransGen Calls "int x".toList cause ∧
        ParseError.undecodable "int x".toList = .undecodable cause := by
  have chain : (nestedCallbacks :: innerCallbacks).IsChain Calls := by decide +kernel
  have error : decodeMethod "int x".toList = .error (.undecodable "int x".toList) := by
    decide +kernel
  obtain ⟨ends, -, -, depth, causes, -⟩ := decodeMethod_ends
  exact ⟨chain, depth _ _ chain, by decide, (ends _ _).mpr rfl, error, causes _ _ error⟩

end Declaration
end AccessorCatalog

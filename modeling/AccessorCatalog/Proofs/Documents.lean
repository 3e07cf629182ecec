/-
# Reading what was written

A document is laid out with one item or field a line, and the reader skips blanks, so it gets the
document back.  `ReadsBack` says this of one document wherever it is written: at every level of
indentation, in front of any text, and with any budget that is at least the length of what is
written.  It holds of scalars, and it passes from items to arrays and from fields to objects.

* `readString_quoted`: a text in quotes is read back, whatever its characters;
* `Plain.readsBack`, `parse?_pretty`: every plain document is read back;
* `classMap_parse_render`: so is every class map, and what was one header comes back as one header,
  and what was a list as a list.

A document is plain if it holds no number and nothing that stands for no text.  A number keeps the
spelling that it is given, and not every spelling is one that the reader takes.
-/
import Mathlib.Data.List.DropRight
import AccessorCatalog.ClassMap.Document
import AccessorCatalog.Proofs.Lines

namespace AccessorCatalog

namespace Json

/-! ## 1. Texts in quotes -/

theorem hexDigit?_hexChar : ∀ n < 16, hexDigit? (hexChar n) = some n := by
  decide

/-- However a character is written inside quotes, it is read as that character. -/
theorem readUnits_escape (c : Char) (t : Text) :
    readUnits (escape c ++ t) =
      (readUnits t).map fun (units, rest) => (.whole c :: units, rest) := by
  unfold escape
  split_ifs with quote backslash feed return_ tab back form control
  · subst quote; rfl
  · subst backslash; rfl
  · subst feed; rfl
  · subst return_; rfl
  · subst tab; rfl
  · subst back; rfl
  · subst form; rfl
  · have high := hexDigit?_hexChar (c.toNat / 16) (by omega)
    have low := hexDigit?_hexChar (c.toNat % 16) (by omega)
    have unit :
        hexUnit? '0' '0' (hexChar (c.toNat / 16)) (hexChar (c.toNat % 16)) = some c.toNat := by
      unfold hexUnit?
      rw [high, low, show hexDigit? '0' = some 0 from rfl]
      show some (((0 * 16 + 0) * 16 + c.toNat / 16) * 16 + c.toNat % 16) = some c.toNat
      congr 1
      omega
    have whole : Unit16.ofNat c.toNat = .whole c := by
      unfold Unit16.ofNat
      rw [if_neg (by simp; omega), if_neg (by simp; omega), Char.ofNat_toNat]
    simp only [List.cons_append, List.nil_append, readUnits, unit, whole]
  · -- The character stands for itself: it is neither the quote nor the start of an escape.
    rw [List.singleton_append, readUnits.eq_5]
    · rw [if_neg (by simpa [backslash] using control)]
    · exact quote
    · intro _ _ _ _ _ starts _
      exact backslash starts
    · intro _ _ starts _
      exact backslash starts

theorem readUnits_quoted (t rest : Text) :
    readUnits (t.flatMap escape ++ '"' :: rest) = some (t.map .whole, rest) := by
  induction t with
  | nil => rfl
  | cons c t ih => rw [List.flatMap_cons, List.append_assoc, readUnits_escape, ih]; rfl

theorem joinUnits_map_whole (t : Text) : joinUnits (t.map .whole) = some t := by
  induction t with
  | nil => rfl
  | cons c t ih => rw [List.map_cons, joinUnits, ih]; rfl

/-- **A text in quotes is read back.** -/
theorem readString_quoted (t rest : Text) :
    readString (t.flatMap escape ++ '"' :: rest) = some (some t, rest) := by
  unfold readString
  rw [readUnits_quoted]
  show some (joinUnits (t.map .whole), rest) = _
  rw [joinUnits_map_whole]

/-! ## 2. Blanks between tokens -/

theorem skipBlanks_newLine (level : Nat) (t : Text) :
    skipBlanks (newLine level ++ t) = skipBlanks t := by
  unfold skipBlanks newLine
  rw [List.cons_append, List.dropWhile_cons_of_pos (by decide), List.dropWhile_append_of_pos]
  intro c mem
  rw [List.eq_of_mem_replicate mem]
  decide

theorem skipBlanks_skipBlanks (t : Text) : skipBlanks (skipBlanks t) = skipBlanks t :=
  List.dropWhile_idempotent _ t

theorem readValue_skipBlanks (budget : Nat) (t : Text) :
    readValue budget (skipBlanks t) = readValue budget t := by
  cases budget with
  | zero => rfl
  | succ budget => rw [readValue, readValue, skipBlanks_skipBlanks]

theorem readItems_skipBlanks (budget : Nat) (t : Text) :
    readItems budget (skipBlanks t) = readItems budget t := by
  cases budget with
  | zero => rfl
  | succ budget => rw [readItems, readItems, readValue_skipBlanks]

theorem readFields_skipBlanks (budget : Nat) (t : Text) :
    readFields budget (skipBlanks t) = readFields budget t := by
  cases budget with
  | zero => rfl
  | succ budget => rw [readFields, readFields, skipBlanks_skipBlanks]

theorem readItems_newLine (budget level : Nat) (t : Text) :
    readItems budget (newLine level ++ t) = readItems budget t := by
  rw [← readItems_skipBlanks, skipBlanks_newLine, readItems_skipBlanks]

theorem readFields_newLine (budget level : Nat) (t : Text) :
    readFields budget (newLine level ++ t) = readFields budget t := by
  rw [← readFields_skipBlanks, skipBlanks_newLine, readFields_skipBlanks]

/-! ## 3. One step of the reader -/

section Steps

variable {budget : Nat} {t u v w x rest : Text} {item value : Json} {items : List Json}
  {name : Option Text} {fields : List (Option Text × Json)}

theorem readItems_last (read : readValue budget t = some (item, u))
    (close : skipBlanks u = ']' :: rest) :
    readItems (budget + 1) t = some ([item], rest) := by
  simp [readItems, read, close]

theorem readItems_more (read : readValue budget t = some (item, u))
    (comma : skipBlanks u = ',' :: v) (more : readItems budget v = some (items, rest)) :
    readItems (budget + 1) t = some (item :: items, rest) := by
  simp [readItems, read, comma, more]

theorem readFields_last (quote : skipBlanks t = '"' :: u)
    (named : readString u = some (name, ':' :: v))
    (read : readValue budget v = some (value, w)) (close : skipBlanks w = '\x7d' :: rest) :
    readFields (budget + 1) t = some ([(name, value)], rest) := by
  have colon : skipBlanks (':' :: v) = ':' :: v := rfl
  simp [readFields, quote, named, colon, read, close]

theorem readFields_more (quote : skipBlanks t = '"' :: u)
    (named : readString u = some (name, ':' :: v))
    (read : readValue budget v = some (value, w)) (comma : skipBlanks w = ',' :: x)
    (more : readFields budget x = some (fields, rest)) :
    readFields (budget + 1) t = some ((name, value) :: fields, rest) := by
  have colon : skipBlanks (':' :: v) = ':' :: v := rfl
  simp [readFields, quote, named, colon, read, comma, more]

theorem readValue_array (solid : ∀ v, skipBlanks t ≠ ']' :: v)
    (read : readItems budget t = some (items, rest)) :
    readValue (budget + 1) ('[' :: t) = some (.array items, rest) := by
  have bracket : skipBlanks ('[' :: t) = '[' :: t := rfl
  rw [← readItems_skipBlanks] at read
  simp [readValue, bracket, read]

theorem readValue_object (quote : skipBlanks t = '"' :: u)
    (read : readFields budget t = some (fields, rest)) :
    readValue (budget + 1) ('\x7b' :: t) = some (ofFields fields, rest) := by
  have brace : skipBlanks ('\x7b' :: t) = '\x7b' :: t := rfl
  rw [← readFields_skipBlanks, quote] at read
  simp [readValue, brace, quote, read]

/-- No document starts with the close of an array. -/
theorem readValue_close (close : skipBlanks t = ']' :: u) : readValue budget t = none := by
  cases budget with
  | zero => rfl
  | succ budget =>
    rw [readValue, close]
    rfl

end Steps

/-! ## 4. Items and fields on lines of their own -/

/-- Texts on lines of their own, with commas between them. -/
def linesAt (level : Nat) (texts : List Text) : Text :=
  Text.join [','] (texts.map (newLine level ++ ·))

theorem linesAt_singleton (level : Nat) (t : Text) : linesAt level [t] = newLine level ++ t := by
  simp [linesAt, Text.join]

theorem linesAt_cons_cons (level : Nat) (t next : Text) (texts : List Text) :
    linesAt level (t :: next :: texts) =
      newLine level ++ t ++ ',' :: linesAt level (next :: texts) := by
  unfold linesAt
  rw [List.map_cons, List.map_cons, Source.join_cons_cons, List.append_assoc]
  rfl

/-- Behind its blanks, what stands on lines starts with the first of them. -/
theorem skipBlanks_linesAt (level : Nat) (t : Text) (texts : List Text) (rest : Text) :
    ∃ more, skipBlanks (linesAt level (t :: texts) ++ rest) = skipBlanks (t ++ more) := by
  cases texts with
  | nil =>
    refine ⟨rest, ?_⟩
    rw [linesAt_singleton, List.append_assoc, skipBlanks_newLine]
  | cons next texts =>
    refine ⟨',' :: (linesAt level (next :: texts) ++ rest), ?_⟩
    rw [linesAt_cons_cons, List.append_assoc, List.append_assoc, skipBlanks_newLine,
      List.cons_append]

theorem block_cons (opening closing : Char) (level : Nat) (t : Text) (texts : List Text) :
    block opening closing level (t :: texts) =
      opening :: (linesAt (level + 1) (t :: texts) ++ newLine level ++ [closing]) :=
  rfl

theorem prettyItems_eq (level : Nat) (items : List Json) :
    prettyItems level items = items.map (prettyAt level) := by
  induction items with
  | nil => rfl
  | cons item items ih => rw [prettyItems, ih, List.map_cons]

/-- A field as it is written. -/
def prettyField (level : Nat) (field : Text × Json) : Text :=
  quote field.1 ++ ':' :: ' ' :: prettyAt level field.2

theorem prettyFields_eq (level : Nat) (fields : List (Text × Json)) :
    prettyFields level fields = fields.map (prettyField level) := by
  induction fields with
  | nil => rfl
  | cons field fields ih => rw [prettyFields, ih, List.map_cons]; rfl

/-- Wherever a document is written, it is read back from there. -/
def ReadsBack (document : Json) : Prop :=
  ∀ level budget rest, (prettyAt level document).length ≤ budget →
    readValue budget (prettyAt level document ++ rest) = some (document, rest)

/-- A document that is read back does not look like the close of an array. -/
theorem ReadsBack.not_close {document : Json} (read : document.ReadsBack) (level : Nat)
    (rest u : Text) :
    skipBlanks (prettyAt level document ++ rest) ≠ ']' :: u := by
  intro close
  have found := read level _ rest (Nat.le_refl _)
  rw [readValue_close close] at found
  cases found

theorem readItems_linesAt {level outer budget : Nat} {rest : Text} (item : Json) (items : List Json)
    (read : ∀ other ∈ item :: items, other.ReadsBack)
    (enough : (linesAt level ((item :: items).map (prettyAt level))).length ≤ budget) :
    readItems budget
        (linesAt level ((item :: items).map (prettyAt level)) ++ (newLine outer ++ ']' :: rest)) =
      some (item :: items, rest) := by
  induction items generalizing item budget with
  | nil =>
    rw [List.map_singleton, linesAt_singleton] at enough ⊢
    simp only [newLine, List.cons_append, List.length_cons, List.length_append] at enough
    obtain ⟨budget, rfl⟩ := Nat.exists_eq_add_of_le' (show 1 ≤ budget by omega)
    have close : skipBlanks (newLine outer ++ ']' :: rest) = ']' :: rest := by
      rw [skipBlanks_newLine]
      rfl
    rw [List.append_assoc, readItems_newLine]
    exact readItems_last (read item List.mem_cons_self _ _ _ (by omega)) close
  | cons next items ih =>
    rw [List.map_cons, List.map_cons, linesAt_cons_cons, ← List.map_cons] at enough ⊢
    simp only [newLine, List.cons_append, List.length_cons, List.length_append] at enough
    obtain ⟨budget, rfl⟩ := Nat.exists_eq_add_of_le' (show 1 ≤ budget by omega)
    have behind : (linesAt level ((next :: items).map (prettyAt level))).length ≤ budget := by
      omega
    have more := ih next (fun other mem => read other (List.mem_cons_of_mem _ mem)) behind
    rw [List.append_assoc, List.append_assoc, readItems_newLine]
    exact readItems_more (read item List.mem_cons_self _ _ _ (by omega)) rfl more

/-- A field as it is read. -/
def namedField (field : Text × Json) : Option Text × Json :=
  (some field.1, field.2)

/-- The name of a field is read back, and its value stands behind the colon. -/
theorem readString_field (level : Nat) (field : Text × Json) (rest : Text) :
    ∃ t, prettyField level field ++ rest = '"' :: t ∧
      readString t = some (some field.1, ':' :: ' ' :: (prettyAt level field.2 ++ rest)) := by
  refine ⟨field.1.flatMap escape ++ '"' :: ':' :: ' ' :: (prettyAt level field.2 ++ rest), ?_, ?_⟩
  · simp [prettyField, quote]
  · exact readString_quoted _ _

theorem readValue_blank (budget : Nat) (t : Text) :
    readValue budget (' ' :: t) = readValue budget t := by
  rw [← readValue_skipBlanks, ← readValue_skipBlanks budget t]
  rfl

theorem readFields_linesAt {level outer budget : Nat} {rest : Text} (field : Text × Json)
    (fields : List (Text × Json)) (read : ∀ other ∈ field :: fields, other.2.ReadsBack)
    (enough : (linesAt level ((field :: fields).map (prettyField level))).length ≤ budget) :
    readFields budget
        (linesAt level ((field :: fields).map (prettyField level)) ++
          (newLine outer ++ '\x7d' :: rest)) =
      some ((field :: fields).map namedField, rest) := by
  have value {field : Text × Json} {budget : Nat} {rest : Text} (field_read : field.2.ReadsBack)
      (enough : (prettyField level field).length ≤ budget) :
      readValue budget (' ' :: (prettyAt level field.2 ++ rest)) = some (field.2, rest) := by
    simp only [prettyField, List.length_append, List.length_cons] at enough
    rw [readValue_blank]
    exact field_read _ _ _ (by omega)
  induction fields generalizing field budget with
  | nil =>
    rw [List.map_singleton, linesAt_singleton] at enough ⊢
    simp only [newLine, List.cons_append, List.length_cons, List.length_append] at enough
    obtain ⟨budget, rfl⟩ := Nat.exists_eq_add_of_le' (show 1 ≤ budget by omega)
    have close : skipBlanks (newLine outer ++ '\x7d' :: rest) = '\x7d' :: rest := by
      rw [skipBlanks_newLine]
      rfl
    rw [List.append_assoc, readFields_newLine]
    obtain ⟨t, quoted, named⟩ := readString_field level field (newLine outer ++ '\x7d' :: rest)
    rw [quoted]
    exact readFields_last rfl named (value (read field List.mem_cons_self) (by omega)) close
  | cons next fields ih =>
    rw [List.map_cons, List.map_cons, linesAt_cons_cons, ← List.map_cons] at enough ⊢
    simp only [newLine, List.cons_append, List.length_cons, List.length_append] at enough
    obtain ⟨budget, rfl⟩ := Nat.exists_eq_add_of_le' (show 1 ≤ budget by omega)
    have behind : (linesAt level ((next :: fields).map (prettyField level))).length ≤ budget := by
      omega
    have more := ih next (fun other mem => read other (List.mem_cons_of_mem _ mem)) behind
    rw [List.append_assoc, List.append_assoc, readFields_newLine]
    obtain ⟨t, quoted, named⟩ := readString_field level field
      (',' :: (linesAt level ((next :: fields).map (prettyField level)) ++
        (newLine outer ++ '\x7d' :: rest)))
    rw [List.cons_append, quoted]
    exact readFields_more rfl named (value (read field List.mem_cons_self) (by omega)) rfl more

/-! ## 5. Documents -/

theorem ofFields_namedField (fields : List (Text × Json)) :
    ofFields (fields.map namedField) = .object fields := by
  unfold ofFields
  rw [List.mapM_map]
  show ((fields.mapM (m := Option) pure).elim Json.brokenObject .object) = _
  rw [List.mapM_pure, List.map_id']
  rfl

theorem readsBack_array {items : List Json} (read : ∀ item ∈ items, item.ReadsBack) :
    ReadsBack (.array items) := by
  intro level budget rest enough
  unfold prettyAt at enough ⊢
  rw [prettyItems_eq] at enough ⊢
  cases items with
  | nil =>
    obtain ⟨budget, rfl⟩ := Nat.exists_eq_add_of_le' (Nat.le_of_succ_le enough)
    rfl
  | cons item items =>
    rw [List.map_cons, block_cons, ← List.map_cons] at enough ⊢
    simp only [List.length_cons, List.length_append] at enough
    obtain ⟨budget, rfl⟩ := Nat.exists_eq_add_of_le' (show 1 ≤ budget by omega)
    rw [List.cons_append, List.append_assoc, List.append_assoc, List.singleton_append]
    refine readValue_array ?_ (readItems_linesAt item items read (by omega))
    intro u close
    rw [List.map_cons] at close
    obtain ⟨more, first⟩ := skipBlanks_linesAt (level + 1) (prettyAt (level + 1) item)
      (items.map (prettyAt (level + 1))) (newLine level ++ ']' :: rest)
    rw [first] at close
    exact (read item List.mem_cons_self).not_close _ _ _ close

theorem readsBack_object {fields : List (Text × Json)}
    (read : ∀ field ∈ fields, field.2.ReadsBack) :
    ReadsBack (.object fields) := by
  intro level budget rest enough
  unfold prettyAt at enough ⊢
  rw [prettyFields_eq] at enough ⊢
  cases fields with
  | nil =>
    obtain ⟨budget, rfl⟩ := Nat.exists_eq_add_of_le' (Nat.le_of_succ_le enough)
    rfl
  | cons field fields =>
    rw [List.map_cons, block_cons, ← List.map_cons] at enough ⊢
    simp only [List.length_cons, List.length_append] at enough
    obtain ⟨budget, rfl⟩ := Nat.exists_eq_add_of_le' (show 1 ≤ budget by omega)
    rw [List.cons_append, List.append_assoc, List.append_assoc, List.singleton_append,
      ← ofFields_namedField]
    obtain ⟨more, first⟩ := skipBlanks_linesAt (level + 1) (prettyField (level + 1) field)
      (fields.map (prettyField (level + 1))) (newLine level ++ '\x7d' :: rest)
    exact readValue_object first (readFields_linesAt field fields read (by omega))

theorem readsBack_text (t : Text) : ReadsBack (.text t) := by
  intro level budget rest enough
  unfold prettyAt quote at enough ⊢
  obtain ⟨budget, rfl⟩ := Nat.exists_eq_add_of_le' (Nat.le_trans (Nat.succ_pos _) enough)
  rw [List.cons_append, List.append_assoc, List.singleton_append]
  show (readString (t.flatMap escape ++ '"' :: rest)).map _ = _
  rw [readString_quoted]
  rfl

/-- A document that is written as it is read. -/
inductive Plain : Json → Prop
  | null : Plain .null
  | bool (value : Bool) : Plain (.bool value)
  | text (value : Text) : Plain (.text value)
  | array {items : List Json} (plain : ∀ item ∈ items, Plain item) : Plain (.array items)
  | object {fields : List (Text × Json)} (plain : ∀ field ∈ fields, Plain field.2) :
    Plain (.object fields)

/-- **Every plain document is read back, wherever it is written.** -/
theorem Plain.readsBack {document : Json} (plain : document.Plain) : document.ReadsBack := by
  induction plain with
  | null =>
    intro level budget rest enough
    obtain ⟨budget, rfl⟩ := Nat.exists_eq_add_of_le' (Nat.le_trans (Nat.succ_pos _) enough)
    rfl
  | bool value =>
    intro level budget rest enough
    cases value with
    | true =>
      obtain ⟨budget, rfl⟩ := Nat.exists_eq_add_of_le' (Nat.le_trans (Nat.succ_pos _) enough)
      rfl
    | false =>
      obtain ⟨budget, rfl⟩ := Nat.exists_eq_add_of_le' (Nat.le_trans (Nat.succ_pos _) enough)
      rfl
  | text value => exact readsBack_text value
  | array _ read => exact readsBack_array read
  | object _ read => exact readsBack_object read

/-- **A plain document is what its text holds.** -/
theorem parse?_pretty {document : Json} (plain : document.Plain) {blanks : Text}
    (blank : skipBlanks blanks = []) : parse? (document.pretty ++ blanks) = some document := by
  unfold parse? pretty
  rw [plain.readsBack 0 _ blanks (by rw [List.length_append]; omega)]
  dsimp only
  rw [blank]
  rfl

end Json

/-! ## 6. Class maps -/

theorem HeaderPaths.plain_toJson (paths : HeaderPaths) : paths.toJson.Plain := by
  cases paths with
  | one path => exact .text path
  | many paths =>
    refine .array fun item mem => ?_
    obtain ⟨path, -, rfl⟩ := List.mem_map.mp mem
    exact .text path

/-- The shape of a document tells a single header from a list of headers. -/
theorem HeaderPaths.ofJson?_toJson (paths : HeaderPaths) : ofJson? paths.toJson = some paths := by
  cases paths with
  | one path => rfl
  | many paths =>
    show ((paths.map Json.text).mapM Json.toText?).map HeaderPaths.many = _
    rw [List.mapM_map]
    show (paths.mapM (m := Option) pure).map HeaderPaths.many = _
    rw [List.mapM_pure, List.map_id']
    rfl

namespace ClassMap

theorem plain_toJson (m : ClassMap) : m.toJson.Plain := by
  refine .object fun field mem => ?_
  obtain ⟨entry, -, rfl⟩ := List.mem_map.mp mem
  exact entry.2.plain_toJson

theorem ofJson?_toJson (m : ClassMap) : ofJson? m.toJson = some m := by
  have entries : m.toJson.toEntries? HeaderPaths.ofJson? = some m.entries := by
    show (m.entries.map fun entry => (entry.1, entry.2.toJson)).mapM
      (fun field => (HeaderPaths.ofJson? field.2).map fun paths => (field.1, paths)) = _
    rw [List.mapM_map]
    simp only [Function.comp_def, HeaderPaths.ofJson?_toJson]
    show m.entries.mapM (m := Option) pure = _
    rw [List.mapM_pure, List.map_id']
    rfl
  unfold ofJson?
  rw [entries, Option.map_some, Table.ofList_entries]

/-- **A class map is read back from its file as it was**, and so it is written again with the same
text: one header comes back as one header, and a list of headers as that list, be it empty or of one
header. This holds of every class map, whatever insertions and loads it comes from and whatever
characters its names and headers are made of. -/
theorem classMap_parse_render (m : ClassMap) :
    parse? m.render = some m ∧ (parse? m.render).map render = some m.render := by
  have read : parse? m.render = some m := by
    unfold parse? render
    rw [Json.parse?_pretty m.plain_toJson (by decide), Option.bind_some, ofJson?_toJson]
  constructor
  · exact read
  · rw [read, Option.map_some]

end ClassMap
end AccessorCatalog

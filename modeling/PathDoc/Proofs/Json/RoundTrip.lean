import PathDoc.Proofs.Json.Numbers

/-!
# JSON texts are read back

A value written on one line is cut into the lexemes it is made of (`lexesAs_compactChars`), and the
machine that consumes them comes to the value with the stack it started from (`run_lexemesOf`). So a
value is read back from its text (`read?_compact`) if it is within reach of a reader (`Readable`):
its integers fit a word, its numbers are finite and rounded to themselves, the names of each object
are distinct and its containers nest no deeper than the limit.
-/

set_option autoImplicit false

namespace PathDoc.Json

/-! ## Strings -/

theorem readString_escape {input rest : List Char} {c : Char}
    (h : readEscape input = some (c, rest)) :
    readString ('\\' :: input) = (readString rest).map fun found => (c :: found.1, found.2) := by
  rw [readString]
  split
  · rename_i d after hread
    rw [h] at hread
    cases hread
    rfl
  · rename_i hread
    rw [h] at hread
    cases hread

theorem hexValue?_hexDigit (n : Nat) : hexValue? (hexDigit n) = some (n % 16) := by
  have hall : ∀ n < 16, hexValue? (Nat.digitChar n) = some n := by decide
  exact hall _ (Nat.mod_lt _ (by decide))

/-- A control character is read from its numeric escape. -/
theorem readUnicode_control {c : Char} (hc : c.toNat < 32) (rest : List Char) :
    readUnicode ('0' :: '0' :: hexDigit (c.toNat / 16) :: hexDigit c.toNat :: rest) =
      some (c, rest) := by
  have hzero : hexValue? '0' = some 0 := rfl
  have hcode : ((0 * 16 + 0) * 16 + c.toNat / 16 % 16) * 16 + c.toNat % 16 = c.toNat := by omega
  have hread : readHex ('0' :: '0' :: hexDigit (c.toNat / 16) :: hexDigit c.toNat :: rest) =
      some (c.toNat, rest) := by
    simp only [readHex, hzero, hexValue?_hexDigit, Option.bind_eq_bind, Option.bind_some, hcode]
  have hhigh : ¬ (0xD800 ≤ c.toNat ∧ c.toNat < 0xDC00) := by omega
  have hlow : ¬ (0xDC00 ≤ c.toNat ∧ c.toNat < 0xE000) := by omega
  rw [readUnicode, hread, Option.bind_eq_bind, Option.bind_some]
  dsimp only
  rw [if_neg hhigh, if_neg hlow, Char.ofNat_toNat]

/-- **Every character of a string is read from its escape.** -/
theorem readString_escapeChar (c : Char) (rest : List Char) :
    readString (escapeChar c ++ rest) =
      (readString rest).map fun found => (c :: found.1, found.2) := by
  rw [escapeChar.eq_def]
  split
  · -- the five escapes of one character, then the two that are found by their code
    exact readString_escape rfl
  · exact readString_escape rfl
  · exact readString_escape rfl
  · exact readString_escape rfl
  · exact readString_escape rfl
  · rename_i hquote hbackslash _ _ _
    split
    · rename_i hcode
      obtain rfl : c = '\x08' := Char.toNat_inj.1 hcode
      exact readString_escape rfl
    · split
      · rename_i hcode
        obtain rfl : c = '\x0c' := Char.toNat_inj.1 hcode
        exact readString_escape rfl
      · split
        · -- other control characters have a numeric escape, all else stands for itself
          rename_i hcontrol
          exact readString_escape (readUnicode_control hcontrol rest)
        · rename_i hplain
          rw [List.singleton_append, readString, if_neg hplain]
          · exact hquote
          · exact hbackslash

/-- **A string is read from its text**, up to the closing quote. -/
theorem readString_escaped (text rest : List Char) :
    readString (text.flatMap escapeChar ++ '"' :: rest) = some (text, rest) := by
  induction text with
  | nil =>
      rw [List.flatMap_nil, List.nil_append, readString]
  | cons c text ih =>
      rw [List.flatMap_cons, List.append_assoc, readString_escapeChar, ih]
      rfl

/-! ## Lexemes -/

/-- The next character is no blank. -/
def StartsLexeme (text : List Char) : Prop :=
  ∃ c tail, text = c :: tail ∧ isSpace c = false

theorem lexemes_nil : lexemes [] = some [] := by
  rw [lexemes]
  rfl

/-- The first lexeme of a text. -/
theorem lexemes_of_read {text rest : List Char} {lexeme : Lexeme} (hstart : StartsLexeme text)
    (h : readLexeme text = some (lexeme, rest)) :
    lexemes text = (lexemes rest).map (lexeme :: ·) := by
  obtain ⟨c, tail, rfl, hspace⟩ := hstart
  -- the text starts with the lexeme, so no space is passed
  have hdrop : (c :: tail).dropWhile isSpace = c :: tail := by
    rw [List.dropWhile_cons, hspace, if_neg Bool.false_ne_true]
  rw [lexemes]
  split
  · rename_i hnil
    rw [hdrop] at hnil
    cases hnil
  · rename_i d others hcons
    rw [hdrop] at hcons
    cases hcons
    split
    · rename_i found after hread
      rw [h] at hread
      cases hread
      rfl
    · rename_i hread
      rw [h] at hread
      cases hread

/-- A text that is read as one lexeme wherever no number goes on after it. -/
structure Spells (text : List Char) (lexeme : Lexeme) : Prop where
  /-- It does not start with a blank. -/
  start : ∀ rest, StartsLexeme (text ++ rest)
  /-- It is read. -/
  read : ∀ rest, BreaksNumber rest → readLexeme (text ++ rest) = some (lexeme, rest)

theorem isSpace_of_number {c : Char} (hc : c = '-' ∨ c.isDigit = true) : isSpace c = false := by
  rcases hc with rfl | hc
  · rfl
  · apply Bool.eq_false_iff.2
    intro hspace
    simp only [isSpace, Bool.or_eq_true, beq_iff_eq] at hspace
    rcases hspace with ((rfl | rfl) | rfl) | rfl <;> cases hc

theorem spells_quoted (name : String) : Spells (quoted name) (.leaf (.string name)) := by
  refine ⟨fun rest => ⟨'"', _, rfl, rfl⟩, ?_⟩
  intro rest _
  have hquoted : quoted name ++ rest = '"' :: (name.toList.flatMap escapeChar ++ '"' :: rest) := by
    simp [quoted]
  rw [hquoted, readLexeme, readString_escaped, Option.map_some]
  simp only [String.ofList_toList]

theorem spells_intText {n : Int} (hlow : -0x8000000000000000 ≤ n)
    (hhigh : n < 0x10000000000000000) : Spells (Decimal.intText n) (.leaf (.int n)) := by
  refine ⟨?_, fun rest hrest => readLexeme_intText hlow hhigh hrest⟩
  intro rest
  cases n with
  | ofNat n =>
      obtain ⟨hne, hdigits⟩ := Decimal.isDigits_iff.1 (Decimal.isDigits_natText n)
      obtain ⟨c, tail, htext⟩ := List.exists_cons_of_ne_nil hne
      refine ⟨c, tail ++ rest, ?_, isSpace_of_number (Or.inr (hdigits c ?_))⟩
      · rw [Decimal.intText, htext]
        rfl
      · rw [htext]
        exact List.mem_cons_self
  | negSucc n => exact ⟨'-', _, rfl, rfl⟩

theorem spells_floatChars {x : Float} (hfinite : x.isFinite = true) (h : readsBack x = true) :
    Spells (floatChars x) (.leaf (.float x)) := by
  refine ⟨?_, fun rest hrest => readLexeme_floatChars hfinite h hrest⟩
  intro rest
  obtain ⟨numeral, hproper, -, htext⟩ := exists_numeral_of_isFinite hfinite
  obtain ⟨c, tail, hcons, hc⟩ := Numeral.exists_text_cons hproper
  exact ⟨c, tail ++ rest, by rw [htext, hcons]; rfl, isSpace_of_number hc⟩

/-! ## The lexemes of a value -/

mutual

/-- The lexemes that a value is made of. -/
def lexemesOf : Json → List Lexeme
  | array items => .openArray :: (itemLexemes items ++ [.closeArray])
  | object entries => .openObject :: (entryLexemes entries ++ [.closeObject])
  | leaf => [.leaf leaf]

/-- The lexemes of the items of a list, with commas between them. -/
def itemLexemes : List Json → List Lexeme
  | [] => []
  | [item] => lexemesOf item
  | item :: rest => lexemesOf item ++ .comma :: itemLexemes rest

/-- The lexemes of the entries of an object, with commas between them. -/
def entryLexemes : List (String × Json) → List Lexeme
  | [] => []
  | [(name, value)] => .leaf (.string name) :: .colon :: lexemesOf value
  | (name, value) :: rest =>
    .leaf (.string name) :: .colon :: (lexemesOf value ++ .comma :: entryLexemes rest)

end

/-- A value that is read back from its text when its containers nest at most `depth` deep. -/
inductive Readable : Nat → Json → Prop
  | null (depth : Nat) : Readable depth null
  | bool (depth : Nat) (value : Bool) : Readable depth (bool value)
  /-- An integer fits a word or an unsigned word. -/
  | int (depth : Nat) {value : Int} (low : -0x8000000000000000 ≤ value)
      (high : value < 0x10000000000000000) : Readable depth (int value)
  /-- A number is finite and rounded to itself. -/
  | float (depth : Nat) {value : Float} (finite : value.isFinite = true)
      (exact : readsBack value = true) : Readable depth (float value)
  | string (depth : Nat) (value : String) : Readable depth (string value)
  | array {depth : Nat} {items : List Json} (each : ∀ item ∈ items, Readable depth item) :
      Readable (depth + 1) (array items)
  /-- The names of an object are distinct. -/
  | object {depth : Nat} {entries : List (String × Json)} (names : (Entries.names entries).Nodup)
      (each : ∀ entry ∈ entries, Readable depth entry.2) : Readable (depth + 1) (object entries)

/-- A readable leaf is one lexeme. -/
theorem spells_leafChars {depth : Nat} {value : Json} (h : Readable depth value)
    (hleaf : lexemesOf value = [.leaf value]) : Spells (leafChars value) (.leaf value) := by
  cases h with
  | null => exact ⟨fun rest => ⟨_, _, rfl, rfl⟩, fun rest _ => rfl⟩
  | bool depth value => cases value <;> exact ⟨fun rest => ⟨_, _, rfl, rfl⟩, fun rest _ => rfl⟩
  | int depth low high => exact spells_intText low high
  | float depth finite exact => exact spells_floatChars finite exact
  | string depth value => exact spells_quoted value
  | array each => cases hleaf
  | object names each => cases hleaf

theorem breaksNumber_of_mem {c : Char} (hc : c ∈ [',', ']', '\x7d', ':']) (rest : List Char) :
    BreaksNumber (c :: rest) := by
  rintro d ⟨⟩
  simp only [List.mem_cons, List.not_mem_nil, or_false] at hc
  rcases hc with rfl | rfl | rfl | rfl <;> decide

/-- What is read of a text and then of what follows it. -/
def LexesAs (text : List Char) (found : List Lexeme) : Prop :=
  ∀ rest, BreaksNumber rest → lexemes (text ++ rest) = (lexemes rest).map (found ++ ·)

theorem Spells.lexesAs {text : List Char} {lexeme : Lexeme} (h : Spells text lexeme) :
    LexesAs text [lexeme] :=
  fun rest hrest => lexemes_of_read (h.start rest) (h.read rest hrest)

/-- Parts that are read one after the other, where the first one is not followed by a number. -/
theorem LexesAs.append {a b : List Char} {as bs : List Lexeme} (ha : LexesAs a as)
    (hb : LexesAs b bs) (hbreaks : ∀ rest, BreaksNumber rest → BreaksNumber (b ++ rest)) :
    LexesAs (a ++ b) (as ++ bs) := by
  intro rest hrest
  rw [List.append_assoc, ha _ (hbreaks rest hrest), hb rest hrest, Option.map_map]
  congr 1
  funext others
  exact (List.append_assoc as bs others).symm

/-- A sign of punctuation in front. -/
theorem LexesAs.cons {c : Char} {lexeme : Lexeme} {text : List Char} {found : List Lexeme}
    (hc : isSpace c = false) (hread : ∀ rest, readLexeme (c :: rest) = some (lexeme, rest))
    (h : LexesAs text found) : LexesAs (c :: text) (lexeme :: found) := by
  intro rest hrest
  rw [List.cons_append, lexemes_of_read ⟨c, _, rfl, hc⟩ (hread _), h rest hrest, Option.map_map]
  rfl

theorem lexesAs_nil : LexesAs [] [] := by
  intro rest _
  simp

/-- The items of a list, each of which is read. -/
theorem lexesAs_items {items : List Json}
    (h : ∀ item ∈ items, LexesAs (compactChars item) (lexemesOf item)) :
    LexesAs (compactItems items) (itemLexemes items) := by
  induction items with
  | nil => exact lexesAs_nil
  | cons item items ih =>
      obtain ⟨hitem, hitems⟩ := List.forall_mem_cons.1 h
      cases items with
      | nil => exact hitem
      | cons next items =>
          exact hitem.append ((ih hitems).cons rfl fun _ => rfl) fun rest _ =>
            breaksNumber_of_mem (by simp) _

/-- An entry of an object, whose value is read. -/
theorem lexesAs_entry (name : String) {text : List Char} {found : List Lexeme}
    (h : LexesAs text found) :
    LexesAs (quoted name ++ ':' :: text) (.leaf (.string name) :: .colon :: found) :=
  (spells_quoted name).lexesAs.append (h.cons rfl fun _ => rfl) fun rest _ =>
    breaksNumber_of_mem (by simp) _

/-- The entries of an object, each of whose values is read. -/
theorem lexesAs_entries {entries : List (String × Json)}
    (h : ∀ entry ∈ entries, LexesAs (compactChars entry.2) (lexemesOf entry.2)) :
    LexesAs (compactEntries entries) (entryLexemes entries) := by
  induction entries with
  | nil => exact lexesAs_nil
  | cons entry entries ih =>
      obtain ⟨name, value⟩ := entry
      obtain ⟨hvalue, hentries⟩ := List.forall_mem_cons.1 h
      cases entries with
      | nil => exact lexesAs_entry name hvalue
      | cons next entries =>
          have hrest := hvalue.append ((ih hentries).cons (c := ',') rfl fun _ => rfl)
            fun rest _ => breaksNumber_of_mem (by simp) _
          rw [compactEntries, List.append_assoc, List.cons_append]
          · exact lexesAs_entry name hrest
          · nofun

/-- **A value is cut into its lexemes.** -/
theorem lexesAs_compactChars {depth : Nat} {value : Json} (h : Readable depth value) :
    LexesAs (compactChars value) (lexemesOf value) := by
  have hclose : ∀ (c : Char) (lexeme : Lexeme), isSpace c = false →
      (∀ rest, readLexeme (c :: rest) = some (lexeme, rest)) → LexesAs [c] [lexeme] :=
    fun c lexeme hc hread => lexesAs_nil.cons hc hread
  induction h with
  | array each ih =>
      exact ((lexesAs_items ih).append (hclose ']' .closeArray rfl fun _ => rfl) fun rest _ =>
        breaksNumber_of_mem (by simp) _).cons rfl fun _ => rfl
  | object names each ih =>
      exact ((lexesAs_entries ih).append (hclose '\x7d' .closeObject rfl fun _ => rfl)
        fun rest _ => breaksNumber_of_mem (by simp) _).cons rfl fun _ => rfl
  | null depth => exact (spells_leafChars (.null depth) rfl).lexesAs
  | bool depth value => exact (spells_leafChars (.bool depth value) rfl).lexesAs
  | int depth low high => exact (spells_leafChars (.int depth low high) rfl).lexesAs
  | float depth finite exact => exact (spells_leafChars (.float depth finite exact) rfl).lexesAs
  | string depth value => exact (spells_leafChars (.string depth value) rfl).lexesAs

/-! ## The machine -/

namespace State

variable {limit : Nat}

theorem run_cons {state next : State} {lexeme : Lexeme} (h : state.step limit lexeme = some next)
    (rest : List Lexeme) : State.run limit state (lexeme :: rest) = State.run limit next rest := by
  rw [State.run, h]

/-- The machine consumes the lexemes of a value and finishes it. -/
def Consumes (limit : Nat) (found : List Lexeme) (value : Json) (stack : List Frame) : Prop :=
  ∀ rest, State.run limit (.atValue stack) (found ++ rest) =
    State.run limit (.afterValue value stack) rest

/-- The items of a list come after those before them. -/
theorem run_items {items done : List Json} {stack : List Frame} (hne : items ≠ [])
    (h : ∀ item ∈ items, ∀ before, Consumes limit (lexemesOf item) item (.array before :: stack))
    (rest : List Lexeme) :
    State.run limit (.atValue (.array done :: stack)) (itemLexemes items ++ .closeArray :: rest) =
      State.run limit (.afterValue (.array (done.reverse ++ items)) stack) rest := by
  induction items generalizing done with
  | nil => exact absurd rfl hne
  | cons item items ih =>
      obtain ⟨hitem, hitems⟩ := List.forall_mem_cons.1 h
      cases items with
      | nil =>
          rw [itemLexemes, hitem done, run_cons rfl, List.reverse_cons]
      | cons next items =>
          rw [itemLexemes, List.append_assoc, hitem done, List.cons_append, run_cons rfl,
            ih (List.cons_ne_nil _ _) hitems, List.reverse_cons, List.append_assoc]
          · rfl
          · nofun

/-- The entries of an object come after those before them, whose names are different. -/
theorem run_entries {entries done : List (String × Json)} {stack : List Frame} (hne : entries ≠ [])
    (hnames : (Entries.names (done ++ entries)).Nodup)
    (h : ∀ entry ∈ entries, ∀ before name,
      Consumes limit (lexemesOf entry.2) entry.2 (.object before name :: stack))
    (rest : List Lexeme) :
    State.run limit (.atName done stack) (entryLexemes entries ++ .closeObject :: rest) =
      State.run limit (.afterValue (.object (done ++ entries)) stack) rest := by
  induction entries generalizing done with
  | nil => exact absurd rfl hne
  | cons entry entries ih =>
      obtain ⟨name, value⟩ := entry
      obtain ⟨hvalue, hentries⟩ := List.forall_mem_cons.1 h
      have hsplit : done ++ (name, value) :: entries = (done ++ [(name, value)]) ++ entries := by
        simp
      -- a new name goes to the end
      have hinsert : Entries.insert done name value = done ++ [(name, value)] := by
        apply Entries.insert_of_notMem
        rw [Entries.names, List.map_append, List.nodup_append] at hnames
        exact fun hm => hnames.2.2 _ hm _ List.mem_cons_self rfl
      cases entries with
      | nil =>
          rw [entryLexemes, List.cons_append, List.cons_append, run_cons rfl, run_cons rfl,
            hvalue done name, run_cons rfl, hinsert]
      | cons next entries =>
          rw [entryLexemes, List.cons_append, List.cons_append, run_cons rfl, run_cons rfl,
            List.append_assoc, hvalue done name, List.cons_append, run_cons rfl, hinsert,
            ih (List.cons_ne_nil _ _) (hsplit ▸ hnames) hentries, ← hsplit]
          · nofun

/-- Where a list may end it also goes on with its items. -/
theorem run_atFirstItem {items : List Json} (hne : items ≠ []) (stack : List Frame)
    (rest : List Lexeme) :
    State.run limit (.atFirstItem stack) (itemLexemes items ++ rest) =
      State.run limit (.atValue (.array [] :: stack)) (itemLexemes items ++ rest) := by
  cases items with
  | nil => exact absurd rfl hne
  | cons item items => cases items <;> cases item <;> rfl

/-- Where an object may end it also goes on with its entries. -/
theorem run_atFirstName {entries : List (String × Json)} (hne : entries ≠ []) (stack : List Frame)
    (rest : List Lexeme) :
    State.run limit (.atFirstName stack) (entryLexemes entries ++ rest) =
      State.run limit (.atName [] stack) (entryLexemes entries ++ rest) := by
  cases entries with
  | nil => exact absurd rfl hne
  | cons entry entries => cases entries <;> rfl

/-- **The machine consumes a value** whose containers, with those that are open, nest no deeper than
the limit. -/
theorem run_lexemesOf {depth : Nat} {value : Json} (h : Readable depth value) {stack : List Frame}
    (hdepth : stack.length + depth ≤ limit) : Consumes limit (lexemesOf value) value stack := by
  -- induction on the value: the open containers around it are on the stack
  induction h generalizing stack with
  | @array depth items each ih =>
      intro rest
      have hopen : State.step limit (.atValue stack) .openArray = some (.atFirstItem stack) :=
        if_pos (by omega)
      rw [lexemesOf, List.cons_append, run_cons hopen, List.append_assoc, List.singleton_append]
      -- the end of an empty container is taken at once
      by_cases hne : items = []
      · subst hne
        rfl
      · rw [run_atFirstItem hne, run_items hne]
        · rfl
        · intro item hm before
          apply ih item hm
          rw [List.length_cons]
          omega
  | @object depth entries names each ih =>
      intro rest
      have hopen : State.step limit (.atValue stack) .openObject = some (.atFirstName stack) :=
        if_pos (by omega)
      rw [lexemesOf, List.cons_append, run_cons hopen, List.append_assoc, List.singleton_append]
      by_cases hne : entries = []
      · subst hne
        rfl
      · have hnames : (Entries.names ([] ++ entries)).Nodup := names
        rw [run_atFirstName hne, run_entries hne hnames]
        · rfl
        · intro entry hm before name
          apply ih entry hm
          rw [List.length_cons]
          omega
  | _ => exact fun rest => rfl

end State

/-- **A readable value is read back from its text.** -/
theorem read?_compact {value : Json} (h : Readable nestingLimit value) :
    read? value.compact = some value := by
  have hlexemes := lexesAs_compactChars h [] breaksNumber_nil
  have hdepth : ([] : List Frame).length + nestingLimit ≤ nestingLimit :=
    Nat.le_of_eq (Nat.zero_add _)
  have hrun := State.run_lexemesOf h hdepth []
  rw [List.append_nil] at hlexemes hrun
  rw [read?, compact, String.toList_ofList, readWithin?, hlexemes, lexemes_nil, Option.map_some,
    List.append_nil, Option.bind_eq_bind, Option.bind_some, hrun]
  rfl

end PathDoc.Json

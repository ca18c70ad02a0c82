import PathDoc.Entries
import PathDoc.Json.Number

/-!
# Reading JSON

A text is cut into lexemes, and a machine with a stack of open containers consumes them one at a
time. A container may not be opened inside `limit` others. A name that an object repeats keeps its
first place and takes the last value.
-/

set_option autoImplicit false

namespace PathDoc.Json

/-- The smallest units of a JSON text. -/
inductive Lexeme where
  /-- An opening square bracket. -/
  | openArray
  /-- A closing square bracket. -/
  | closeArray
  /-- An opening brace. -/
  | openObject
  /-- A closing brace. -/
  | closeObject
  /-- A comma. -/
  | comma
  /-- A colon. -/
  | colon
  /-- A number, a string, a truth value or null. -/
  | leaf (value : Json)

/-! ## Strings -/

/-- The value of a hexadecimal digit. -/
def hexValue? (c : Char) : Option Nat :=
  if '0' ≤ c ∧ c ≤ '9' then some (c.toNat - '0'.toNat)
  else if 'a' ≤ c ∧ c ≤ 'f' then some (c.toNat - 'a'.toNat + 10)
  else if 'A' ≤ c ∧ c ≤ 'F' then some (c.toNat - 'A'.toNat + 10)
  else none

/-- Reads four hexadecimal digits. -/
def readHex : List Char → Option (Nat × List Char)
  | a :: b :: c :: d :: rest => do
    let a ← hexValue? a
    let b ← hexValue? b
    let c ← hexValue? c
    let d ← hexValue? d
    some (((a * 16 + b) * 16 + c) * 16 + d, rest)
  | _ => none

/-- Reads the rest of a numeric escape; two halves of a pair give one character and a half alone is
refused. -/
def readUnicode (input : List Char) : Option (Char × List Char) := do
  let (high, rest) ← readHex input
  if 0xD800 ≤ high ∧ high < 0xDC00 then
    match rest with
    | '\\' :: 'u' :: tail => do
      let (low, rest) ← readHex tail
      if 0xDC00 ≤ low ∧ low < 0xE000 then
        some (Char.ofNat (0x10000 + (high - 0xD800) * 0x400 + (low - 0xDC00)), rest)
      else none
    | _ => none
  else if 0xDC00 ≤ high ∧ high < 0xE000 then none
  else some (Char.ofNat high, rest)

/-- Reads the rest of an escape after its backslash. -/
def readEscape : List Char → Option (Char × List Char)
  | '"' :: rest => some ('"', rest)
  | '\\' :: rest => some ('\\', rest)
  | '/' :: rest => some ('/', rest)
  | 'b' :: rest => some ('\x08', rest)
  | 'f' :: rest => some ('\x0c', rest)
  | 'n' :: rest => some ('\n', rest)
  | 'r' :: rest => some ('\r', rest)
  | 't' :: rest => some ('\t', rest)
  | 'u' :: rest => readUnicode rest
  | _ => none

/-- Four hexadecimal digits take four characters. -/
theorem readHex_length {input rest : List Char} {n : Nat} (h : readHex input = some (n, rest)) :
    rest.length < input.length := by
  unfold readHex at h
  split at h
  · simp only [Option.bind_eq_bind, Option.bind_eq_some_iff] at h
    obtain ⟨_, _, _, _, _, _, _, _, h⟩ := h
    cases h
    simp only [List.length_cons]
    omega
  · cases h

/-- A numeric escape leaves a shorter text. -/
theorem readUnicode_length {input rest : List Char} {c : Char}
    (h : readUnicode input = some (c, rest)) : rest.length < input.length := by
  unfold readUnicode at h
  simp only [Option.bind_eq_bind, Option.bind_eq_some_iff] at h
  obtain ⟨⟨high, after⟩, hh, h⟩ := h
  have h1 := readHex_length hh
  simp only at h
  split at h
  · -- a high surrogate needs a second escape behind it
    split at h
    · simp only [Option.bind_eq_some_iff] at h
      obtain ⟨⟨low, tail⟩, hl, h⟩ := h
      have h2 := readHex_length hl
      simp only at h
      split at h
      · simp only [Option.some.injEq, Prod.mk.injEq] at h
        obtain ⟨-, rfl⟩ := h
        simp only [List.length_cons] at h1
        omega
      · cases h
    · cases h
  · split at h
    · cases h
    · simp only [Option.some.injEq, Prod.mk.injEq] at h
      obtain ⟨-, rfl⟩ := h
      exact h1

/-- An escape leaves a shorter text. -/
theorem readEscape_length {input rest : List Char} {c : Char}
    (h : readEscape input = some (c, rest)) : rest.length < input.length := by
  unfold readEscape at h
  split at h
  case h_9 =>
    have := readUnicode_length h
    simp only [List.length_cons]
    omega
  case h_10 => cases h
  all_goals
    cases h
    simp

/-- Reads a string up to its closing quote. -/
def readString : List Char → Option (List Char × List Char)
  | [] => none
  | '"' :: rest => some ([], rest)
  | '\\' :: input =>
    match _h : readEscape input with
    | some (c, rest) => (readString rest).map fun (value, after) => (c :: value, after)
    | none => none
  | c :: rest =>
    if c.toNat < 32 then none
    else (readString rest).map fun (value, after) => (c :: value, after)
termination_by input => input.length
decreasing_by
  · have := readEscape_length _h
    simp only [List.length_cons]
    omega
  · simp

/-- **A string leaves a shorter text.** -/
theorem readString_length {input value rest : List Char}
    (h : readString input = some (value, rest)) : rest.length < input.length := by
  -- by the cases of the reader: end, closing quote, escape, control character, plain character
  fun_induction readString input generalizing value rest with
  | case1 => cases h
  | case2 => cases h; simp
  | case3 input c after he ih =>
    obtain ⟨⟨tail, last⟩, hr, h⟩ := Option.map_eq_some_iff.1 h
    cases h
    have h1 := readEscape_length he
    have h2 := ih hr
    simp only [List.length_cons]
    omega
  | case4 => cases h
  | case5 => cases h
  | case6 c after _ _ _ ih =>
    obtain ⟨⟨tail, last⟩, hr, h⟩ := Option.map_eq_some_iff.1 h
    cases h
    have h2 := ih hr
    simp only [List.length_cons]
    omega

/-! ## Lexemes -/

/-- Reads one lexeme. -/
def readLexeme : List Char → Option (Lexeme × List Char)
  | [] => none
  | '[' :: rest => some (.openArray, rest)
  | ']' :: rest => some (.closeArray, rest)
  | '\x7b' :: rest => some (.openObject, rest)
  | '\x7d' :: rest => some (.closeObject, rest)
  | ',' :: rest => some (.comma, rest)
  | ':' :: rest => some (.colon, rest)
  | '"' :: rest => (readString rest).map fun (s, after) => (.leaf (.string (String.ofList s)), after)
  | 'n' :: 'u' :: 'l' :: 'l' :: rest => some (.leaf .null, rest)
  | 't' :: 'r' :: 'u' :: 'e' :: rest => some (.leaf (.bool true), rest)
  | 'f' :: 'a' :: 'l' :: 's' :: 'e' :: rest => some (.leaf (.bool false), rest)
  | input => do
    let (numeral, rest) ← readNumeral input
    let value ← numeral.value?
    some (.leaf value, rest)

/-- **A lexeme takes at least one character.** -/
theorem readLexeme_length {input rest : List Char} {lexeme : Lexeme}
    (h : readLexeme input = some (lexeme, rest)) : rest.length < input.length := by
  unfold readLexeme at h
  split at h
  case h_1 => cases h
  case h_8 =>
    obtain ⟨⟨value, after⟩, hs, h⟩ := Option.map_eq_some_iff.1 h
    cases h
    have := readString_length hs
    simp only [List.length_cons]
    omega
  case h_12 =>
    simp only [Option.bind_eq_bind, Option.bind_eq_some_iff] at h
    obtain ⟨⟨numeral, after⟩, hn, value, _, h⟩ := h
    have := readNumeral_length hn
    cases h
    exact this
  -- signs and words take the characters they consist of
  all_goals
    cases h
    simp only [List.length_cons]
    omega

/-- The blanks that may stand between lexemes. -/
def isSpace (c : Char) : Bool :=
  c == ' ' || c == '\t' || c == '\n' || c == '\r'

/-- Cuts a text into lexemes. -/
def lexemes (input : List Char) : Option (List Lexeme) :=
  match _hb : input.dropWhile isSpace with
  | [] => some []
  | c :: tail =>
    match _h : readLexeme (c :: tail) with
    | some (lexeme, rest) => (lexemes rest).map (lexeme :: ·)
    | none => none
termination_by input.length
decreasing_by
  have h1 := readLexeme_length _h
  have h2 := (List.dropWhile_sublist (p := isSpace) (l := input)).length_le
  rw [_hb] at h2
  omega

/-! ## The machine -/

/-- A container that has been opened and waits for the value at hand. -/
inductive Frame where
  /-- A list with its earlier items, the last one first. -/
  | array (items : List Json)
  /-- An object with its earlier entries and the name of the value at hand. -/
  | object (entries : Entries Json) (name : String)

/-- What the machine expects next. -/
inductive State where
  /-- A value. -/
  | atValue (stack : List Frame)
  /-- The first item of a list, or its end. -/
  | atFirstItem (stack : List Frame)
  /-- The first name of an object, or its end. -/
  | atFirstName (stack : List Frame)
  /-- The next name of an object. -/
  | atName (entries : Entries Json) (stack : List Frame)
  /-- The colon after a name. -/
  | atColon (entries : Entries Json) (name : String) (stack : List Frame)
  /-- What follows a finished value. -/
  | afterValue (value : Json) (stack : List Frame)

/-- Begins a value inside the open containers of a stack. -/
def beginValue (limit : Nat) (stack : List Frame) : Lexeme → Option State
  | .leaf value => some (.afterValue value stack)
  | .openArray => if stack.length < limit then some (.atFirstItem stack) else none
  | .openObject => if stack.length < limit then some (.atFirstName stack) else none
  | _ => none

/-- Consumes one lexeme. -/
def State.step (limit : Nat) : State → Lexeme → Option State
  | .atValue stack, lexeme => beginValue limit stack lexeme
  | .atFirstItem stack, .closeArray => some (.afterValue (.array []) stack)
  | .atFirstItem stack, lexeme => beginValue limit (.array [] :: stack) lexeme
  | .atFirstName stack, .closeObject => some (.afterValue (.object []) stack)
  | .atFirstName stack, .leaf (.string name) => some (.atColon [] name stack)
  | .atName entries stack, .leaf (.string name) => some (.atColon entries name stack)
  | .atColon entries name stack, .colon => some (.atValue (.object entries name :: stack))
  | .afterValue value (.array items :: stack), .comma => some (.atValue (.array (value :: items) :: stack))
  | .afterValue value (.array items :: stack), .closeArray =>
    some (.afterValue (.array (value :: items).reverse) stack)
  | .afterValue value (.object entries name :: stack), .comma =>
    some (.atName (entries.insert name value) stack)
  | .afterValue value (.object entries name :: stack), .closeObject =>
    some (.afterValue (.object (entries.insert name value)) stack)
  | _, _ => none

/-- Consumes all lexemes. -/
def State.run (limit : Nat) : State → List Lexeme → Option State
  | state, [] => some state
  | state, lexeme :: rest =>
    match state.step limit lexeme with
    | some next => run limit next rest
    | none => none

/-- The value that a machine has finished, if no container is open. -/
def State.result? : State → Option Json
  | .afterValue value [] => some value
  | _ => none

/-- Reads a value whose containers nest at most `limit` deep. -/
def readWithin? (limit : Nat) (input : List Char) : Option Json := do
  let all ← lexemes input
  let state ← State.run limit (.atValue []) all
  state.result?

/-- How deep containers may nest in a document text. -/
def nestingLimit : Nat := 127

/-- Reads a value from its text. -/
def read? (input : String) : Option Json :=
  readWithin? nestingLimit input.toList

end PathDoc.Json

import PathDoc.Proofs.Decimal.Digits
import PathDoc.Proofs.Path.Grammar
import PathDoc.Query.Parser

/-!
# The words of queries

What a query is made of below its operators, said without a reader: numbers, names with the path
behind them, quoted texts and the named literals, and the blanks that may stand before a word. A
name goes on as long as its characters do (`BreaksName`); a number or a path is read up to a place
where neither goes on (`Ends`). Each routine of the reader accepts one of these rules: numbers
(`readNumber_sound`, `readNumber_complete`), names (`readName_eq_ok_iff`), quoted texts
(`readString_eq_ok_iff`), brackets (`readBracket_eq_ok_iff`), paths (`readSteps_sound`,
`readSteps_complete`) and operands without parentheses (`operand_cases`, `operand_of_atom`).
-/

set_option autoImplicit false

namespace PathDoc.Query

open Decimal (isDigits_iff)
open Text (span_append)

/-! ## The rules -/

/-- A text, and what is left of it behind some blanks. -/
inductive Skips : List Char → List Char → Prop
  | none (text : List Char) : Skips text text
  | blank {c : Char} {text rest : List Char} (blank : Text.isBlank c = true)
      (more : Skips text rest) : Skips (c :: text) rest

/-- A number. -/
inductive Number : List Char → Literal → Prop
  /-- Digits without a point are an integer, which must fit a word. -/
  | integer {text : List Char} {n : Int} {word : Int64} (spelled : Path.Integer text n)
      (fits : word.toInt = n) : Number text (.int word)
  /-- With a point it is a floating-point number; digits after the point may be missing. -/
  | decimal {whole fraction : List Char} (digits : Decimal.isDigits whole = true)
      (more : ∀ c ∈ fraction, c.isDigit = true) :
      Number (whole ++ '.' :: fraction) (.float (decimalValue false whole fraction))
  /-- After a minus sign the digits before the point may be missing instead. -/
  | negative {whole fraction : List Char} (digits : Decimal.isDigits (whole ++ fraction) = true) :
      Number ('-' :: (whole ++ '.' :: fraction)) (.float (decimalValue true whole fraction))

/-- Whether no name goes on here. -/
def BreaksName (rest : List Char) : Prop :=
  ∀ c ∈ rest.head?, Text.isIdentifierChar c = false

/-- A name after a dot, and its token. -/
inductive NameToken : List Char → Token → Prop
  /-- Digits alone are a position, which must fit a word. -/
  | position {name : List Char} (digits : Decimal.isDigits name = true)
      (fits : Path.FitsWord (Decimal.natValue name)) :
      NameToken name (.index (Decimal.natValue name))
  | key {name : List Char} (chars : ∀ c ∈ name, Text.isIdentifierChar c = true)
      (other : ∃ c ∈ name, c.isDigit = false) : NameToken name (.key (String.ofList name))

/-- The steps of a path behind a name. Blanks may stand in brackets only, around the content. -/
inductive Steps : List Char → Path → List Char → Prop
  | nil (rest : List Char) : Steps rest [] rest
  | name {name after rest : List Char} {token : Token} {path : Path}
      (spelled : NameToken name token) (ends : BreaksName after) (more : Steps after path rest) :
      Steps ('.' :: (name ++ after)) (token :: path) rest
  | bracket {inside content closing after rest : List Char} {token : Token} {path : Path}
      (opening : Skips inside (content ++ closing)) (spelled : Path.Content content token)
      (closed : Skips closing (']' :: after)) (more : Steps after path rest) :
      Steps ('[' :: inside) (token :: path) rest

/-- The named literals. -/
def constants : List (String × Literal) :=
  [("true", .bool true), ("false", .bool false), ("null", .null)]

/-- A literal, or a variable with a path, at the front of a text. -/
inductive Atom : List Char → Expr → List Char → Prop
  | string {quote : Char} {body text rest : List Char} (quotes : quote = '\'' ∨ quote = '"')
      (spelled : Path.Quoted quote body text) :
      Atom (quote :: (body ++ quote :: rest)) (.literal (.string (String.ofList text))) rest
  | number {text rest : List Char} {literal : Literal} (spelled : Number text literal) :
      Atom (text ++ rest) (.literal literal) rest
  | constant {name : String} {literal : Literal} {rest : List Char}
      (named : (name, literal) ∈ constants) (ends : BreaksName rest) :
      Atom (name.toList ++ rest) (.literal literal) rest
  | lookup {first : Char} {name after rest : List Char} {path : Path}
      (start : Text.isIdentifierStart first = true)
      (chars : ∀ c ∈ name, Text.isIdentifierChar c = true) (ends : BreaksName after)
      (other : ∀ literal, (String.ofList (first :: name), literal) ∉ constants)
      (steps : Steps after path rest) :
      Atom (first :: (name ++ after)) (.lookup (String.ofList (first :: name)) path) rest

/-! ## Blanks -/

theorem skips_dropBlanks (text : List Char) : Skips text (Text.dropBlanks text) := by
  induction text with
  | nil => exact .none []
  | cons c text ih =>
      rw [Text.dropBlanks, List.dropWhile_cons]
      split
      · rename_i hc
        exact .blank hc ih
      · exact .none _

theorem Skips.dropBlanks {text rest : List Char} (h : Skips text rest) :
    Text.dropBlanks text = Text.dropBlanks rest := by
  induction h with
  | none text => rfl
  | blank hc _ ih => rw [Text.dropBlanks, List.dropWhile_cons_of_pos hc]; exact ih

theorem Skips.trans {a b c : List Char} (h : Skips a b) (h' : Skips b c) : Skips a c := by
  induction h with
  | none => exact h'
  | blank hc _ ih => exact .blank hc (ih h')

theorem Skips.length_le {text rest : List Char} (h : Skips text rest) :
    rest.length ≤ text.length := by
  induction h with
  | none text => exact Nat.le_refl _
  | blank _ _ ih => exact Nat.le_succ_of_le ih

/-- A character that is no blank is where blanks end. -/
theorem dropBlanks_cons {c : Char} (hc : Text.isBlank c = false) (rest : List Char) :
    Text.dropBlanks (c :: rest) = c :: rest :=
  List.dropWhile_cons_of_neg (by simp [hc])

/-- Blanks end at the first character that is none. -/
theorem Skips.dropBlanks_eq {text rest : List Char} {c : Char} (h : Skips text (c :: rest))
    (hc : Text.isBlank c = false) : Text.dropBlanks text = c :: rest :=
  h.dropBlanks.trans (dropBlanks_cons hc rest)

theorem dropBlanks_dropBlanks (text : List Char) :
    Text.dropBlanks (Text.dropBlanks text) = Text.dropBlanks text :=
  (skips_dropBlanks text).dropBlanks.symm

/-- A code point lies in at most one of two disjoint sets. -/
theorem holds_of_disjoint {a b : Text.Ranges} (hd : a.intersection b = []) {code : Nat}
    (h : a.holds code = true) : b.holds code = false := by
  have hboth := Text.Ranges.holds_intersection a b code
  rw [hd, h, Bool.true_and] at hboth
  exact hboth.symm

/-- No name starts with a character from a set without alphabetic characters. -/
theorem isIdentifierStart_of_disjoint {set : Text.Ranges} {c : Char}
    (hd : set.intersection Text.alphabeticRanges = []) (h : set.holds c.toNat = true)
    (hu : c ≠ '_') : Text.isIdentifierStart c = false := by
  have halphabetic : Text.isAlphabetic c = false := holds_of_disjoint hd h
  simp [Text.isIdentifierStart, halphabetic, hu]

/-- Blanks start no name. -/
theorem isIdentifierStart_of_isBlank {c : Char} (h : Text.isBlank c = true) :
    Text.isIdentifierStart c = false := by
  have hdisjoint : Text.blankRanges.intersection Text.alphabeticRanges = [] := by decide +kernel
  apply isIdentifierStart_of_disjoint hdisjoint h
  rintro rfl
  cases h

theorem holds_of_isDigit {c : Char} (h : c.isDigit = true) :
    Text.Ranges.holds [(0x30, 0x39)] c.toNat = true := by
  simp only [Char.isDigit, Bool.and_eq_true, decide_eq_true_eq, ge_iff_le,
    UInt32.le_iff_toNat_le] at h
  rw [Text.Ranges.holds_iff]
  exact ⟨_, List.mem_singleton.2 rfl, h⟩

/-- No blank is a digit. -/
theorem isDigit_of_isBlank {c : Char} (h : Text.isBlank c = true) : c.isDigit = false := by
  have hnone : Text.Ranges.holds [(0x30, 0x39)] c.toNat = false :=
    holds_of_disjoint (a := Text.blankRanges) (by decide) h
  rw [Bool.eq_false_iff]
  intro hdigit
  cases (holds_of_isDigit hdigit).symm.trans hnone

/-- Whether neither a number nor a path goes on here. -/
def Ends (rest : List Char) : Prop :=
  ∀ c ∈ rest.head?, c.isDigit = false ∧ c ≠ '.' ∧ c ≠ '['

theorem Ends.cons {c : Char} (hc : c.isDigit = false ∧ c ≠ '.' ∧ c ≠ '[') (rest : List Char) :
    Ends (c :: rest) := by
  intro d hd
  cases hd
  exact hc

/-- Numbers and paths end at a blank. -/
theorem Skips.ends {text rest : List Char} (h : Skips text rest) (hr : Ends rest) : Ends text := by
  cases h with
  | none => exact hr
  | blank hc more =>
      intro c he
      cases he
      refine ⟨isDigit_of_isBlank hc, ?_, ?_⟩
      · rintro rfl
        cases hc
      · rintro rfl
        cases hc

/-! ## Numbers -/

/-- What is taken is of one kind, and what is left does not go on with it. -/
theorem span_spec (p : Char → Bool) (text : List Char) :
    (∀ c ∈ text.takeWhile p, p c = true) ∧ ∀ c ∈ (text.dropWhile p).head?, p c = false := by
  refine ⟨fun c hc => List.mem_takeWhile_imp hc, fun c hc => ?_⟩
  have hhead := List.head?_dropWhile_not p text
  rw [hc] at hhead
  simpa using hhead

/-- Digits without a point behind them are read as an integer. -/
theorem readNumber_of_digits {input digits rest : List Char} {negative : Bool}
    (hs : splitSign input = (negative, digits ++ rest)) (hd : ∀ c ∈ digits, c.isDigit = true)
    (he : Ends rest) :
    readNumber input =
      match Decimal.readWord? (if negative then '-' :: digits else digits) with
      | some value => .ok (.int value, rest)
      | none => .error ⟨rest, .badInteger⟩ := by
  obtain ⟨htake, hdrop⟩ := span_append hd fun c hc => (he c hc).1
  rw [readNumber, hs]
  simp only [htake, hdrop]
  split
  · exact absurd rfl (he '.' rfl).2.1
  · rfl

/-- Digits with a point among them are read as a floating-point number. -/
theorem readNumber_of_point {input whole fraction rest : List Char} {negative : Bool}
    (hs : splitSign input = (negative, whole ++ '.' :: (fraction ++ rest)))
    (hd : Decimal.isDigits (whole ++ fraction) = true) (he : Ends rest) :
    readNumber input = .ok (.float (decimalValue negative whole fraction), rest) := by
  obtain ⟨hne, hdigits⟩ := isDigits_iff.1 hd
  obtain ⟨hwhole, hfraction⟩ := List.forall_mem_append.1 hdigits
  -- the point ends the digits before it, as the rest of the text ends those behind it
  have hpoint : ∀ c ∈ ('.' :: (fraction ++ rest)).head?, c.isDigit = false := by
    intro c hc
    cases hc
    rfl
  obtain ⟨htake, hdrop⟩ := span_append hwhole hpoint
  obtain ⟨htake', hdrop'⟩ := span_append hfraction fun c hc => (he c hc).1
  -- either run may be missing, but not both
  have hsome : (whole.isEmpty && fraction.isEmpty) = false := by
    cases whole with
    | nil =>
        cases fraction with
        | nil => exact absurd rfl hne
        | cons c fraction => rfl
    | cons c whole => rfl
  rw [readNumber, hs]
  simp only [htake, hdrop, htake', hdrop', hsome]
  rfl

theorem splitSign_of_digits {digits : List Char} (hd : Decimal.isDigits digits = true)
    (rest : List Char) : splitSign (digits ++ rest) = (false, digits ++ rest) := by
  obtain ⟨hne, hdigits⟩ := isDigits_iff.1 hd
  cases digits with
  | nil => exact absurd rfl hne
  | cons c digits =>
      -- a sign is no digit
      have hc : c ≠ '-' := by
        rintro rfl
        cases hdigits _ List.mem_cons_self
      rw [List.cons_append, splitSign]
      intro tail he
      exact hc (List.cons.inj he).1

/-- **A number is read where it ends.** -/
theorem readNumber_complete {text rest : List Char} {literal : Literal} (h : Number text literal)
    (he : Ends rest) : readNumber (text ++ rest) = .ok (literal, rest) := by
  cases h with
  | @integer text n word spelled fits =>
      -- what a word stands for fits a word, so the digits are not refused
      have hfits : Path.FitsWord n :=
        fits ▸ (Path.word?_eq_some_iff.1 (Decimal.word?_toInt word)).1
      have hword := Path.readWord?_eq_some_iff.2 ⟨n, spelled, hfits, fits⟩
      cases spelled with
      | natural hd =>
          rw [readNumber_of_digits (splitSign_of_digits hd rest) (isDigits_iff.1 hd).2 he]
          simp [hword]
      | @negative digits hd =>
          have hs : splitSign ('-' :: digits ++ rest) = (true, digits ++ rest) := rfl
          rw [readNumber_of_digits hs (isDigits_iff.1 hd).2 he]
          simp [hword]
  | @decimal whole fraction digits more =>
      have hd : Decimal.isDigits (whole ++ fraction) = true := by
        obtain ⟨hne, hwhole⟩ := isDigits_iff.1 digits
        exact isDigits_iff.2 ⟨by simp [hne], List.forall_mem_append.2 ⟨hwhole, more⟩⟩
      rw [List.append_assoc, List.cons_append]
      exact readNumber_of_point (splitSign_of_digits digits _) hd he
  | @negative whole fraction digits =>
      -- the sign comes off first, and what is left has a point as without it
      have hs : splitSign ('-' :: (whole ++ '.' :: fraction) ++ rest) =
          (true, whole ++ '.' :: (fraction ++ rest)) := by
        rw [List.cons_append, List.append_assoc]
        rfl
      exact readNumber_of_point hs digits he

/-- What a number that was read is made of. -/
theorem readNumber_cases {input rest : List Char} {literal : Literal}
    (h : readNumber input = .ok (literal, rest)) :
    (∃ text n word, input = text ++ rest ∧ Path.Integer text n ∧ word.toInt = n ∧
        literal = .int word) ∨
      ∃ whole fraction, (splitSign input).2 = whole ++ '.' :: (fraction ++ rest) ∧
        Decimal.isDigits (whole ++ fraction) = true ∧
        literal = .float (decimalValue (splitSign input).1 whole fraction) := by
  have hinput : input = (if (splitSign input).1 then ['-'] else []) ++ (splitSign input).2 := by
    unfold splitSign
    split <;> rfl
  generalize hsign : splitSign input = sign at hinput
  obtain ⟨negative, body⟩ := sign
  have hbody := List.takeWhile_append_dropWhile (p := Char.isDigit) (l := body)
  obtain ⟨hwhole, -⟩ := span_spec Char.isDigit body
  rw [readNumber, hsign] at h
  dsimp only at h hinput ⊢
  generalize body.takeWhile Char.isDigit = whole at h hbody hwhole
  split at h
  · -- a point stands behind the digits, and the ones behind it are read on
    rename_i after hafter
    have hfraction := (span_spec Char.isDigit after).1
    have hsplit := List.takeWhile_append_dropWhile (p := Char.isDigit) (l := after)
    generalize after.takeWhile Char.isDigit = fraction at h hsplit hfraction
    split at h
    · cases h
    · rename_i hsome
      cases h
      refine Or.inr ⟨whole, fraction, ?_, isDigits_iff.2 ⟨?_, ?_⟩, rfl⟩
      · rw [hsplit, ← hafter, hbody]
      · intro hnil
        obtain ⟨rfl, rfl⟩ := List.append_eq_nil_iff.1 hnil
        exact hsome rfl
      · exact List.forall_mem_append.2 ⟨hwhole, hfraction⟩
  · -- without a point the sign and the digits are read again, as an integer
    split at h
    · rename_i word hword
      cases h
      obtain ⟨n, hn, -, hvalue⟩ := Path.readWord?_eq_some_iff.1 hword
      refine Or.inl ⟨_, n, word, ?_, hn, hvalue, rfl⟩
      cases negative with
      | false =>
          rw [hinput, if_neg Bool.false_ne_true, if_neg Bool.false_ne_true, hbody]
          rfl
      | true =>
          rw [hinput, if_pos rfl, if_pos rfl, List.cons_append, List.cons_append, hbody]
          rfl
    · cases h

/-- **A number that was read is one.** -/
theorem readNumber_sound {first : Char} {input rest : List Char} {literal : Literal}
    (hf : first = '-' ∨ first.isDigit = true)
    (h : readNumber (first :: input) = .ok (literal, rest)) :
    ∃ text, first :: input = text ++ rest ∧ Number text literal := by
  rcases readNumber_cases h with ⟨text, n, word, htext, hn, hword, rfl⟩ |
    ⟨whole, fraction, hbody, hd, rfl⟩
  · exact ⟨text, htext, .integer hn hword⟩
  · rcases hf with rfl | hf
    · refine ⟨'-' :: (whole ++ '.' :: fraction), ?_, .negative hd⟩
      have hinput : input = whole ++ '.' :: (fraction ++ rest) := hbody
      simp [hinput]
    · have hsign : splitSign (first :: input) = (false, first :: input) := by
        rw [splitSign]
        intro tail he
        rw [(List.cons.inj he).1] at hf
        cases hf
      rw [hsign] at hbody ⊢
      refine ⟨whole ++ '.' :: fraction, by simpa using hbody, ?_⟩
      obtain ⟨hwhole, hfraction⟩ := List.forall_mem_append.1 (isDigits_iff.1 hd).2
      refine .decimal (isDigits_iff.2 ⟨?_, hwhole⟩) hfraction
      -- the first character is a digit and not the point
      rintro rfl
      rw [(List.cons.inj hbody).1] at hf
      cases hf

/-! ## Names -/

theorem isIdentifierChar_of_isDigit {c : Char} (h : c.isDigit = true) :
    Text.isIdentifierChar c = true := by
  have hnumeric : Text.isNumeric c = true := by
    obtain ⟨range, hm, hc⟩ := (Text.Ranges.holds_iff _ _).1 (holds_of_isDigit h)
    cases List.mem_singleton.1 hm
    refine (Text.Ranges.holds_iff _ _).2 ⟨(0x30, 0x39), ?_, hc⟩
    rw [Text.numericRanges]
    exact List.mem_cons_self
  simp [Text.isIdentifierChar, Text.isAlphanumeric, hnumeric]

theorem NameToken.chars {name : List Char} {token : Token} (h : NameToken name token) :
    name ≠ [] ∧ ∀ c ∈ name, Text.isIdentifierChar c = true := by
  cases h with
  | position digits fits =>
      obtain ⟨hne, hdigits⟩ := isDigits_iff.1 digits
      exact ⟨hne, fun c hc => isIdentifierChar_of_isDigit (hdigits c hc)⟩
  | key chars other =>
      obtain ⟨c, hc, -⟩ := other
      exact ⟨List.ne_nil_of_mem hc, chars⟩

/-- The token of a name is the one that its rule gives. -/
theorem nameToken?_eq_some_iff {name : List Char} {token : Token} (hne : name ≠ [])
    (hc : ∀ c ∈ name, Text.isIdentifierChar c = true) :
    nameToken? name = some token ↔ NameToken name token := by
  rw [nameToken?]
  split
  · -- digits alone, which the rule for keys excludes
    rename_i hall
    have hd : Decimal.isDigits name = true := isDigits_iff.2 ⟨hne, List.all_eq_true.1 hall⟩
    rw [Path.readWord?_of_isDigits hd, Option.map_eq_some_iff]
    constructor
    · rintro ⟨word, hword, rfl⟩
      obtain ⟨hfits, hvalue⟩ := Path.word?_eq_some_iff.1 hword
      rw [hvalue]
      exact .position hd hfits
    · intro h
      cases h with
      | position _ hfits =>
          have hword : Decimal.word? (Decimal.natValue name) =
              some (Int64.ofInt (Decimal.natValue name)) := if_pos hfits
          exact ⟨_, hword, congrArg Token.index (Decimal.toInt_of_word? hword)⟩
      | key _ hother =>
          obtain ⟨c, hm, hdigit⟩ := hother
          cases ((List.all_eq_true.1 hall) c hm).symm.trans hdigit
  · rename_i hall
    have hother : ∃ c ∈ name, c.isDigit = false := by simpa using hall
    constructor
    · intro h
      cases h
      exact .key hc hother
    · intro h
      cases h with
      | position digits _ =>
          exact absurd (List.all_eq_true.2 (isDigits_iff.1 digits).2) hall
      | key _ _ => rfl

/-- **A name after a dot is read as far as it goes.** -/
theorem readName_eq_ok_iff {input rest : List Char} {token : Token} :
    readName input = .ok (token, rest) ↔
      ∃ name, input = name ++ rest ∧ NameToken name token ∧ BreaksName rest := by
  constructor
  · intro h
    obtain ⟨hchars, hends⟩ := span_spec Text.isIdentifierChar input
    have hsplit := List.takeWhile_append_dropWhile (p := Text.isIdentifierChar) (l := input)
    rw [readName] at h
    split at h
    · -- an empty name is refused
      cases h
    · rename_i hne
      split at h
      · rename_i found hfound
        cases h
        have hnonempty := mt List.isEmpty_iff.2 hne
        exact ⟨_, hsplit.symm, (nameToken?_eq_some_iff hnonempty hchars).1 hfound, hends⟩
      · cases h
  · rintro ⟨name, rfl, htoken, hends⟩
    obtain ⟨hne, hchars⟩ := htoken.chars
    obtain ⟨htake, hdrop⟩ := span_append hchars hends
    rw [readName, htake, hdrop]
    simp [hne, (nameToken?_eq_some_iff hne hchars).2 htoken]

/-! ## Quoted texts -/

theorem isBlank_of_quote {quote : Char} (h : quote = '\'' ∨ quote = '"') :
    Text.isBlank quote = false ∧ quote ≠ '\\' := by
  rcases h with rfl | rfl <;> decide

/-- **A quoted text is read up to its closing quote.** -/
theorem readString_eq_ok_iff {quote : Char} (hq : quote = '\'' ∨ quote = '"')
    {input rest : List Char} {text : String} :
    readString quote input = .ok (text, rest) ↔
      ∃ body name, input = body ++ quote :: rest ∧ Path.Quoted quote body name ∧
        text = String.ofList name := by
  have hread : ∀ {name : List Char}, Text.readQuoted quote input = .ok (name, rest) ↔ _ :=
    Path.readQuoted_eq_ok_iff (isBlank_of_quote hq).2
  constructor
  · intro h
    rw [readString] at h
    split at h
    · rename_i name after hname
      cases h
      obtain ⟨body, hbody, hspelled⟩ := hread.1 hname
      exact ⟨body, name, hbody, hspelled, rfl⟩
    · cases h
    · cases h
  · rintro ⟨body, name, hbody, hspelled, rfl⟩
    rw [readString, hread.2 ⟨body, hbody, hspelled⟩]

/-! ## Paths -/

/-- What stands in brackets begins with a quote, a sign or a digit. -/
theorem exists_head_of_content {content : List Char} {token : Token}
    (h : Path.Content content token) :
    ∃ c rest, content = c :: rest ∧ Text.isBlank c = false := by
  cases h with
  | name quotes spelled => exact ⟨_, _, rfl, (isBlank_of_quote quotes).1⟩
  | position spelled fits =>
      obtain ⟨c, rest, rfl, hc⟩ := Path.exists_head_of_integer spelled
      refine ⟨c, rest, rfl, ?_⟩
      rcases hc with rfl | hc
      · decide
      · rw [Bool.eq_false_iff]
        intro hblank
        cases hc.symm.trans (isDigit_of_isBlank hblank)

theorem readContent_sound {input rest : List Char} {token : Token}
    (h : readContent input = .ok (token, rest)) :
    ∃ content, input = content ++ rest ∧ Path.Content content token := by
  -- a position is a number without a point; one with a point is refused here
  have hposition : readPosition input = .ok (token, rest) →
      ∃ content, input = content ++ rest ∧ Path.Content content token := by
    intro h
    rw [readPosition] at h
    split at h
    · rename_i word after hnumber
      cases h
      rcases readNumber_cases hnumber with ⟨text, n, found, htext, hn, hvalue, he⟩ |
        ⟨_, _, _, _, he⟩
      · cases he
        have hfits := (Path.word?_eq_some_iff.1 (Decimal.word?_toInt word)).1
        rw [hvalue] at hfits ⊢
        exact ⟨text, htext, .position hn hfits⟩
      · cases he
    · cases h
    · cases h
  cases input with
  | nil => exact hposition h
  | cons c input =>
      rw [readContent] at h
      split at h
      · rename_i hquote
        obtain ⟨⟨text, after⟩, hs, he⟩ := map_eq_ok_iff.1 h
        cases he
        obtain ⟨body, name, rfl, hspelled, rfl⟩ := (readString_eq_ok_iff hquote).1 hs
        exact ⟨c :: body ++ [c], by simp, .name hquote hspelled⟩
      · exact hposition h

theorem readContent_complete {content rest : List Char} {token : Token}
    (h : Path.Content content token) (he : Ends rest) :
    readContent (content ++ rest) = .ok (token, rest) := by
  cases h with
  | @name quote body name quotes spelled =>
      have hs : readString quote (body ++ quote :: rest) = .ok (String.ofList name, rest) :=
        (readString_eq_ok_iff quotes).2 ⟨body, name, rfl, spelled, rfl⟩
      rw [List.append_assoc, List.cons_append, readContent, if_pos quotes]
      change (readString quote (body ++ quote :: rest)).map _ = _
      rw [hs]
      rfl
  | @position text n spelled fits =>
      have hword := Decimal.toInt_of_word? (if_pos fits : Decimal.word? n = some (Int64.ofInt n))
      have hread := readNumber_complete (.integer spelled hword) he
      obtain ⟨c, tail, rfl, hc⟩ := Path.exists_head_of_integer spelled
      -- neither a sign nor a digit is a quote
      have hquote : ¬ (c = '\'' ∨ c = '"') := by
        rintro (rfl | rfl) <;> rcases hc with hc | hc <;> cases hc
      rw [List.cons_append] at hread ⊢
      rw [readContent, if_neg hquote, readPosition, hread]
      simp only [hword]

/-- **A bracket is read with its blanks, up to its closing character.** -/
theorem readBracket_eq_ok_iff {inside rest : List Char} {token : Token} :
    readBracket inside = .ok (token, rest) ↔
      ∃ content closing, Skips inside (content ++ closing) ∧ Path.Content content token ∧
        Skips closing (']' :: rest) := by
  constructor
  · intro h
    rw [readBracket] at h
    cases hc : readContent (Text.dropBlanks inside) with
    | error stop =>
        rw [hc] at h
        cases h
    | ok result =>
        obtain ⟨found, closing⟩ := result
        rw [hc] at h
        dsimp only at h
        split at h
        · rename_i after hclosing
          cases h
          obtain ⟨content, hcontent, hspelled⟩ := readContent_sound hc
          refine ⟨content, closing, ?_, hspelled, ?_⟩
          · rw [← hcontent]
            exact skips_dropBlanks inside
          · rw [← hclosing]
            exact skips_dropBlanks closing
        · cases h
  · -- no blank starts the content, so dropping blanks leads to exactly where the rule has it
    rintro ⟨content, closing, hinside, hspelled, hclosing⟩
    obtain ⟨c, tail, rfl, hblank⟩ := exists_head_of_content hspelled
    have he : Ends closing := hclosing.ends (.cons (by decide) rest)
    have hdrop : Text.dropBlanks inside = c :: tail ++ closing := hinside.dropBlanks_eq hblank
    have hend : Text.dropBlanks closing = ']' :: rest := hclosing.dropBlanks_eq (by decide)
    rw [readBracket, hdrop, readContent_complete hspelled he]
    simp only [hend]

theorem Steps.length_le {input rest : List Char} {path : Path} (h : Steps input path rest) :
    rest.length ≤ input.length := by
  induction h with
  | nil => exact Nat.le_refl _
  | name _ _ _ ih =>
      simp only [List.length_cons, List.length_append]
      omega
  | bracket opening _ closed _ ih =>
      have hopening := opening.length_le
      have hclosed := closed.length_le
      simp only [List.length_cons, List.length_append] at hopening hclosed ⊢
      omega

theorem readSteps_sound {fuel : Nat} {input rest : List Char} {path : Path}
    (h : readSteps fuel input = .ok (path, rest)) : Steps input path rest := by
  -- induction on the fuel: each round takes one step of the path off the text
  induction fuel generalizing input path with
  | zero =>
      cases h
      exact .nil _
  | succ fuel ih =>
      unfold readSteps at h
      split at h
      · obtain ⟨⟨token, middle⟩, hn, h⟩ := bind_eq_ok_iff.1 h
        obtain ⟨⟨more, last⟩, hr, h⟩ := bind_eq_ok_iff.1 h
        cases h
        obtain ⟨name, rfl, htoken, hends⟩ := readName_eq_ok_iff.1 hn
        exact .name htoken hends (ih hr)
      · obtain ⟨⟨token, middle⟩, hb, h⟩ := bind_eq_ok_iff.1 h
        obtain ⟨⟨more, last⟩, hr, h⟩ := bind_eq_ok_iff.1 h
        cases h
        obtain ⟨content, closing, hopening, hspelled, hclosed⟩ := readBracket_eq_ok_iff.1 hb
        exact .bracket hopening hspelled hclosed (ih hr)
      · cases h
        exact .nil _

/-- **The steps of a path are read where the path ends.** -/
theorem readSteps_complete {fuel : Nat} {input rest : List Char} {path : Path}
    (h : Steps input path rest) (he : Ends rest) (hf : input.length ≤ fuel) :
    readSteps fuel input = .ok (path, rest) := by
  induction h generalizing fuel with
  | nil rest =>
      cases fuel with
      | zero => rfl
      | succ fuel =>
          -- neither a dot nor a bracket follows
          rw [readSteps]
          · intro tail ht
            exact absurd rfl (he '.' (by rw [ht]; rfl)).2.1
          · intro tail ht
            exact absurd rfl (he '[' (by rw [ht]; rfl)).2.2
  | @name name after rest token path spelled ends more ih =>
      have hn : readName (name ++ after) = .ok (token, after) :=
        readName_eq_ok_iff.2 ⟨name, rfl, spelled, ends⟩
      simp only [List.length_cons, List.length_append] at hf
      cases fuel with
      | zero => omega
      | succ fuel =>
          rw [readSteps, hn]
          simp only [bind, Except.bind, ih he (show after.length ≤ fuel by omega)]
  | @bracket inside content closing after rest token path opening spelled closed more ih =>
      have hb := readBracket_eq_ok_iff.2 ⟨content, closing, opening, spelled, closed⟩
      have hopening := opening.length_le
      have hclosed := closed.length_le
      simp only [List.length_cons, List.length_append] at hf hopening hclosed
      cases fuel with
      | zero => omega
      | succ fuel =>
          rw [readSteps, hb]
          simp only [bind, Except.bind, ih he (show after.length ≤ fuel by omega)]

/-! ## Words -/

/-- The named literals are the ones that a reader looks for. -/
theorem readWord_eq (input : List Char) :
    readWord input =
      match constants.lookup (String.ofList (input.takeWhile Text.isIdentifierChar)) with
      | some literal => .ok (.literal literal, input.dropWhile Text.isIdentifierChar)
      | none =>
        (readSteps (input.dropWhile Text.isIdentifierChar).length
          (input.dropWhile Text.isIdentifierChar)).map fun (path, rest) =>
            (.lookup (String.ofList (input.takeWhile Text.isIdentifierChar)) path, rest) := by
  rw [readWord]
  generalize String.ofList (input.takeWhile Text.isIdentifierChar) = name
  simp only [constants, List.lookup_cons, List.lookup_nil]
  -- the three named literals, looked for one after the other
  split
  · rename_i h
    subst h
    rfl
  · split
    · rename_i h
      subst h
      rfl
    · split
      · rename_i h
        subst h
        rfl
      · rename_i htrue hfalse hnull
        simp [beq_eq_false_iff_ne.2 htrue, beq_eq_false_iff_ne.2 hfalse,
          beq_eq_false_iff_ne.2 hnull]

theorem lookup_constants_eq_some_iff {name : String} {literal : Literal} :
    constants.lookup name = some literal ↔ (name, literal) ∈ constants := by
  simp only [constants, List.lookup_cons, List.lookup_nil, List.mem_cons, Prod.mk.injEq,
    List.not_mem_nil, or_false]
  by_cases htrue : name = "true"
  · simp [htrue, eq_comm]
  · by_cases hfalse : name = "false"
    · simp [hfalse, eq_comm]
    · by_cases hnull : name = "null"
      · simp [hnull, eq_comm]
      · simp [beq_eq_false_iff_ne.2 htrue, beq_eq_false_iff_ne.2 hfalse,
          beq_eq_false_iff_ne.2 hnull, htrue, hfalse, hnull]

theorem readWord_sound {first : Char} {input rest : List Char} {expr : Expr}
    (hf : Text.isIdentifierStart first = true)
    (h : readWord (first :: input) = .ok (expr, rest)) : Atom (first :: input) expr rest := by
  obtain ⟨hchars, hends⟩ := span_spec Text.isIdentifierChar input
  have hsplit := List.takeWhile_append_dropWhile (p := Text.isIdentifierChar) (l := input)
  have hfirst := Text.isIdentifierChar_of_start hf
  rw [readWord_eq, List.takeWhile_cons_of_pos hfirst, List.dropWhile_cons_of_pos hfirst] at h
  -- only how the text splits and what is behind the name matters from here on
  generalize input.takeWhile Text.isIdentifierChar = name at h hchars hsplit
  generalize input.dropWhile Text.isIdentifierChar = after at h hends hsplit
  subst hsplit
  cases hl : constants.lookup (String.ofList (first :: name)) with
  | some literal =>
      rw [hl] at h
      cases h
      have hnamed := lookup_constants_eq_some_iff.1 hl
      have hatom := Atom.constant hnamed hends
      rwa [String.toList_ofList] at hatom
  | none =>
      rw [hl] at h
      obtain ⟨⟨path, last⟩, hr, he⟩ := map_eq_ok_iff.1 h
      cases he
      -- the name was looked up and is no literal
      refine .lookup hf hchars hends (fun literal hm => ?_) (readSteps_sound hr)
      rw [← lookup_constants_eq_some_iff, hl] at hm
      cases hm

/-- A literal with a name is read where the name ends. -/
theorem readWord_constant {name : String} {literal : Literal} {rest : List Char}
    (h : (name, literal) ∈ constants) (he : BreaksName rest) :
    readWord (name.toList ++ rest) = .ok (.literal literal, rest) := by
  have hchars : ∀ c ∈ name.toList, Text.isIdentifierChar c = true := by
    have hall : ∀ constant ∈ constants,
        constant.1.toList.all Text.isIdentifierChar = true := by decide +kernel
    exact List.all_eq_true.1 (hall _ h)
  obtain ⟨htake, hdrop⟩ := span_append hchars he
  rw [readWord_eq, htake, hdrop, String.ofList_toList, lookup_constants_eq_some_iff.2 h]

/-- A variable with a path is read where the path ends. -/
theorem readWord_lookup {first : Char} {name after rest : List Char} {path : Path}
    (hf : Text.isIdentifierStart first = true)
    (hc : ∀ c ∈ name, Text.isIdentifierChar c = true) (hb : BreaksName after)
    (ho : ∀ literal, (String.ofList (first :: name), literal) ∉ constants)
    (hs : Steps after path rest) (he : Ends rest) :
    readWord (first :: (name ++ after)) =
      .ok (.lookup (String.ofList (first :: name)) path, rest) := by
  have hchars : ∀ c ∈ first :: name, Text.isIdentifierChar c = true :=
    List.forall_mem_cons.2 ⟨Text.isIdentifierChar_of_start hf, hc⟩
  obtain ⟨htake, hdrop⟩ := span_append hchars hb
  have hnone : constants.lookup (String.ofList (first :: name)) = none := by
    rw [Option.eq_none_iff_forall_ne_some]
    intro literal hl
    exact ho literal (lookup_constants_eq_some_iff.1 hl)
  rw [← List.cons_append, readWord_eq, htake, hdrop, hnone]
  simp only [readSteps_complete hs he (Nat.le_refl _)]
  rfl

/-! ## Operands -/

theorem Atom.length_le {text rest : List Char} {expr : Expr} (h : Atom text expr rest) :
    rest.length ≤ text.length := by
  cases h with
  | string => simp only [List.length_cons, List.length_append]; omega
  | number => simp only [List.length_append]; omega
  | constant => simp only [List.length_append]; omega
  | lookup _ _ _ _ steps =>
      have hle := steps.length_le
      simp only [List.length_cons, List.length_append]
      omega

/-- What can be the first character of an operand that is not in parentheses. -/
inductive AtomHead : Char → Prop
  | quote {c : Char} (h : c = '\'' ∨ c = '"') : AtomHead c
  | number {c : Char} (h : c = '-' ∨ c.isDigit = true) : AtomHead c
  | name {c : Char} (h : Text.isIdentifierStart c = true) : AtomHead c

theorem Number.exists_head {text : List Char} {literal : Literal} (h : Number text literal) :
    ∃ c rest, text = c :: rest ∧ (c = '-' ∨ c.isDigit = true) := by
  cases h with
  | integer spelled fits => exact Path.exists_head_of_integer spelled
  | decimal digits more =>
      obtain ⟨c, rest, rfl, hc⟩ := Path.exists_head_of_integer (.natural digits)
      exact ⟨c, _, rfl, hc⟩
  | negative digits => exact ⟨'-', _, rfl, Or.inl rfl⟩

theorem exists_head_of_mem_constants {name : String} {literal : Literal}
    (h : (name, literal) ∈ constants) :
    ∃ c rest, name.toList = c :: rest ∧ Text.isIdentifierStart c = true := by
  simp only [constants, List.mem_cons, Prod.mk.injEq, List.not_mem_nil, or_false] at h
  rcases h with ⟨rfl, -⟩ | ⟨rfl, -⟩ | ⟨rfl, -⟩
  · exact ⟨'t', _, rfl, by decide⟩
  · exact ⟨'f', _, rfl, by decide⟩
  · exact ⟨'n', _, rfl, by decide⟩

theorem Atom.exists_head {text rest : List Char} {expr : Expr} (h : Atom text expr rest) :
    ∃ c tail, text = c :: tail ∧ AtomHead c := by
  cases h with
  | string quotes spelled => exact ⟨_, _, rfl, .quote quotes⟩
  | number spelled =>
      obtain ⟨c, tail, rfl, hc⟩ := spelled.exists_head
      exact ⟨c, _, rfl, .number hc⟩
  | constant named ends =>
      obtain ⟨c, tail, hname, hc⟩ := exists_head_of_mem_constants named
      rw [hname]
      exact ⟨c, _, rfl, .name hc⟩
  | lookup start chars ends other steps => exact ⟨_, _, rfl, .name start⟩

/-- The signs of the grammar start no name. -/
theorem isIdentifierStart_of_mem {c : Char} (h : c ∈ ['!', '"', '\'', '(', '-', '=']) :
    Text.isIdentifierStart c = false := by
  have hdisjoint : Text.Ranges.intersection [(0x21, 0x22), (0x27, 0x28), (0x2d, 0x2d), (0x3d, 0x3d)]
      Text.alphabeticRanges = [] := by decide +kernel
  simp only [List.mem_cons, List.not_mem_nil, or_false] at h
  rcases h with rfl | rfl | rfl | rfl | rfl | rfl <;>
    exact isIdentifierStart_of_disjoint hdisjoint (by decide) (by decide)

/-- Digits start no name. -/
theorem isIdentifierStart_of_isDigit {c : Char} (h : c.isDigit = true) :
    Text.isIdentifierStart c = false := by
  have hdisjoint : Text.Ranges.intersection [(0x30, 0x39)] Text.alphabeticRanges = [] := by
    decide +kernel
  apply isIdentifierStart_of_disjoint hdisjoint (holds_of_isDigit h)
  rintro rfl
  cases h

theorem AtomHead.spec {c : Char} (h : AtomHead c) :
    Text.isBlank c = false ∧ c ≠ '(' ∧ c ≠ '!' ∧ c ≠ '=' := by
  cases h with
  | quote h => rcases h with rfl | rfl <;> decide
  | number h =>
      rcases h with rfl | h
      · decide
      · refine ⟨?_, ?_, ?_, ?_⟩
        · rw [Bool.eq_false_iff]
          intro hblank
          cases h.symm.trans (isDigit_of_isBlank hblank)
        · rintro rfl
          cases h
        · rintro rfl
          cases h
        · rintro rfl
          cases h
  | name h =>
      -- no sign that matters to the reader can start a name
      have hne : ∀ d ∈ ['!', '"', '\'', '(', '-', '='], c ≠ d := by
        rintro d hd rfl
        cases h.symm.trans (isIdentifierStart_of_mem hd)
      refine ⟨?_, hne _ (by simp), hne _ (by simp), hne _ (by simp)⟩
      rw [Bool.eq_false_iff]
      intro hblank
      cases h.symm.trans (isIdentifierStart_of_isBlank hblank)

section Operand

variable {inner : Reading Expr} {input tail : List Char} {c : Char}

theorem operand_of_quote (hd : Text.dropBlanks input = c :: tail) (hc : c = '\'' ∨ c = '"') :
    operand inner input =
      (readString c tail).map fun (text, rest) => (.literal (.string text), rest) := by
  have hparen := (AtomHead.quote hc).spec.2.1
  rw [operand, hd]
  simp only [if_neg hparen, if_pos hc]

theorem operand_of_number (hd : Text.dropBlanks input = c :: tail)
    (hc : c = '-' ∨ c.isDigit = true) :
    operand inner input =
      (readNumber (c :: tail)).map fun (number, rest) => (.literal number, rest) := by
  have hparen := (AtomHead.number hc).spec.2.1
  have hquote : ¬ (c = '\'' ∨ c = '"') := by
    rintro (rfl | rfl) <;> rcases hc with hc | hc <;> cases hc
  rw [operand, hd]
  simp only [if_neg hparen, if_neg hquote, if_pos hc]

theorem operand_of_name (hd : Text.dropBlanks input = c :: tail)
    (hc : Text.isIdentifierStart c = true) : operand inner input = readWord (c :: tail) := by
  have hparen := (AtomHead.name hc).spec.2.1
  have hquote : ¬ (c = '\'' ∨ c = '"') := by
    rintro (rfl | rfl) <;> cases hc.symm.trans (isIdentifierStart_of_mem (by simp))
  have hnumber : ¬ (c = '-' ∨ c.isDigit = true) := by
    rintro (rfl | hdigit)
    · cases hc.symm.trans (isIdentifierStart_of_mem (by simp))
    · cases hc.symm.trans (isIdentifierStart_of_isDigit hdigit)
  rw [operand, hd]
  simp only [if_neg hparen, if_neg hquote, if_neg hnumber, if_pos hc]

theorem operand_of_paren (hd : Text.dropBlanks input = '(' :: tail) :
    operand inner input =
      match inner tail with
      | .error stop => .error stop
      | .ok (expr, rest) =>
        match Text.dropBlanks rest with
        | ')' :: rest => .ok (expr, rest)
        | rest => .error ⟨rest, .missingParenthesis⟩ := by
  rw [operand, hd]
  rfl

end Operand

/-- **A literal or a variable is read where it ends.** -/
theorem operand_of_atom {inner : Reading Expr} {input text rest : List Char} {expr : Expr}
    (hs : Skips input text) (h : Atom text expr rest) (he : Ends rest) :
    operand inner input = .ok (expr, rest) := by
  -- the first character decides which routine reads the operand
  obtain ⟨c, tail, hhead, hc⟩ := h.exists_head
  have hdrop : Text.dropBlanks input = c :: tail := by
    rw [hhead] at hs
    exact hs.dropBlanks_eq hc.spec.1
  cases h with
  | @string quote body name _ quotes spelled =>
      cases hhead
      have hread : readString c (body ++ c :: rest) = .ok (String.ofList name, rest) :=
        (readString_eq_ok_iff quotes).2 ⟨body, name, rfl, spelled, rfl⟩
      rw [operand_of_quote hdrop quotes, hread]
      rfl
  | @number number _ literal spelled =>
      have hread := readNumber_complete spelled he
      obtain ⟨d, more, rfl, hd⟩ := spelled.exists_head
      rw [hhead] at hread
      obtain ⟨rfl, -⟩ := List.cons.inj hhead
      rw [operand_of_number hdrop hd, hread]
      rfl
  | @constant name literal _ named ends =>
      have hread := readWord_constant named ends
      obtain ⟨d, more, hname, hd⟩ := exists_head_of_mem_constants named
      rw [hhead] at hread
      rw [hname] at hhead
      obtain ⟨rfl, -⟩ := List.cons.inj hhead
      rw [operand_of_name hdrop hd, hread]
  | lookup start chars ends other steps =>
      have hread := readWord_lookup start chars ends other steps he
      obtain ⟨rfl, rfl⟩ := List.cons.inj hhead
      rw [operand_of_name hdrop start, hread]

/-- **What is read as an operand is a literal, a variable or an expression in parentheses.** -/
theorem operand_cases {inner : Reading Expr} {input rest : List Char} {expr : Expr}
    (h : operand inner input = .ok (expr, rest)) :
    (∃ text, Skips input text ∧ Atom text expr rest) ∨
      ∃ inside closing, Skips input ('(' :: inside) ∧ inner inside = .ok (expr, closing) ∧
        Skips closing (')' :: rest) := by
  have hskips := skips_dropBlanks input
  generalize hd : Text.dropBlanks input = text at hskips
  cases text with
  | nil =>
      rw [operand, hd] at h
      cases h
  | cons c tail =>
      -- the first character decides on the rule
      by_cases hparen : c = '('
      · subst hparen
        rw [operand_of_paren hd] at h
        cases hi : inner tail with
        | error stop =>
            rw [hi] at h
            cases h
        | ok result =>
            obtain ⟨found, closing⟩ := result
            rw [hi] at h
            dsimp only at h
            split at h
            · rename_i after hclosing
              cases h
              exact Or.inr ⟨tail, closing, hskips, hi, hclosing ▸ skips_dropBlanks closing⟩
            · cases h
      · refine Or.inl ⟨c :: tail, hskips, ?_⟩
        by_cases hquote : c = '\'' ∨ c = '"'
        · rw [operand_of_quote hd hquote] at h
          obtain ⟨⟨text, after⟩, hr, he⟩ := map_eq_ok_iff.1 h
          cases he
          obtain ⟨body, name, rfl, hspelled, rfl⟩ := (readString_eq_ok_iff hquote).1 hr
          exact .string hquote hspelled
        · by_cases hnumber : c = '-' ∨ c.isDigit = true
          · rw [operand_of_number hd hnumber] at h
            obtain ⟨⟨literal, after⟩, hr, he⟩ := map_eq_ok_iff.1 h
            cases he
            obtain ⟨text, htext, hspelled⟩ := readNumber_sound hnumber hr
            rw [htext]
            exact .number hspelled
          · by_cases hname : Text.isIdentifierStart c = true
            · rw [operand_of_name hd hname] at h
              exact readWord_sound hname h
            · rw [operand, hd] at h
              simp only [if_neg hparen, if_neg hquote, if_neg hnumber, if_neg hname] at h
              cases h

end PathDoc.Query

import Mathlib.Data.List.TakeWhile
import PathDoc.Proofs.Path.RoundTrip

/-!
# The grammar of path texts

`Spells` says, without a reader, which texts denote a path and which path they denote. Each routine
of the reader accepts one rule of the grammar: quoted names (`readQuoted_eq_ok_iff`), bare segments
(`scanBare_eq_ok_iff`), brackets (`scanBracket_eq_ok_iff`), the segments after the first
(`scanTail_eq_ok_iff`) and whole texts (`scan_eq_ok_iff`). Where a text has no brackets and no
quotes, splitting it at the dots comes to the same as scanning it (`splitDotted_eq_scan`). Reading
therefore accepts exactly the grammar (`parse_eq_ok_iff`).
-/

set_option autoImplicit false

namespace PathDoc.Path

/-! ## The rules -/

/-- What may stand between two quotes, and the name that it spells. -/
inductive Quoted (quote : Char) : List Char → List Char → Prop
  | nil : Quoted quote [] []
  /-- A backslash makes the next character stand for itself. -/
  | escaped (c : Char) {body name : List Char} (rest : Quoted quote body name) :
      Quoted quote ('\\' :: c :: body) (c :: name)
  /-- Any other character but the quote stands for itself anyway. -/
  | plain {c : Char} {body name : List Char} (backslash : c ≠ '\\') (closing : c ≠ quote)
      (rest : Quoted quote body name) : Quoted quote (c :: body) (c :: name)

/-- One or more decimal digits, a minus sign before them or not, and their value. -/
inductive Integer : List Char → Int → Prop
  | natural {digits : List Char} (h : Decimal.isDigits digits = true) :
      Integer digits (Decimal.natValue digits)
  | negative {digits : List Char} (h : Decimal.isDigits digits = true) :
      Integer ('-' :: digits) (-(Decimal.natValue digits : Int))

/-- Whether an integer fits a word of 64 bits. -/
def FitsWord (n : Int) : Prop :=
  -0x8000000000000000 ≤ n ∧ n < 0x8000000000000000

/-- The characters that a bare segment cannot hold. -/
def reserved : List Char :=
  ['.', '[', ']', '\'', '"']

/-- A bare segment and its token. -/
inductive Bare : List Char → Token → Prop
  /-- Digits alone are a position if it fits a word. -/
  | position {text : List Char} (digits : Decimal.isDigits text = true)
      (fits : FitsWord (Decimal.natValue text)) : Bare text (.index (Decimal.natValue text))
  /-- Everything else is a name. -/
  | name {text : List Char} (nonempty : text ≠ []) (bare : ∀ c ∈ text, c ∉ reserved)
      (other : Decimal.isDigits text = true → ¬ FitsWord (Decimal.natValue text)) :
      Bare text (.key (String.ofList text))

/-- What may stand between two brackets, and its token. -/
inductive Content : List Char → Token → Prop
  | name {quote : Char} {body name : List Char} (quotes : quote = '\'' ∨ quote = '"')
      (spelled : Quoted quote body name) :
      Content (quote :: body ++ [quote]) (.key (String.ofList name))
  | position {text : List Char} {n : Int} (spelled : Integer text n) (fits : FitsWord n) :
      Content text (.index n)

/-- A segment with its separator, and its token. -/
inductive Segment : List Char → Token → Prop
  | dotted {text : List Char} {token : Token} (bare : Bare text token) : Segment ('.' :: text) token
  | bracketed {text : List Char} {token : Token} (content : Content text token) :
      Segment ('[' :: text ++ [']']) token

/-- Any number of segments with their separators. -/
inductive Segments : List Char → Path → Prop
  | nil : Segments [] []
  | cons {text more : List Char} {token : Token} {path : Path} (first : Segment text token)
      (rest : Segments more path) : Segments (text ++ more) (token :: path)

/-- A text and the path that it denotes. The first segment needs no dot. -/
inductive Spells : List Char → Path → Prop
  | root : Spells [] []
  | bare {text more : List Char} {token : Token} {path : Path} (first : Bare text token)
      (rest : Segments more path) : Spells (text ++ more) (token :: path)
  | segment {text more : List Char} {token : Token} {path : Path} (first : Segment text token)
      (rest : Segments more path) : Spells (text ++ more) (token :: path)

/-! ## Quoted names -/

theorem readQuoted_sound {quote : Char} {input name rest : List Char}
    (h : Text.readQuoted quote input = .ok (name, rest)) :
    ∃ body, input = body ++ quote :: rest ∧ Quoted quote body name := by
  fun_induction Text.readQuoted quote input generalizing name rest with
  | case1 => cases h
  | case2 => cases h
  | case3 c input ih =>
      cases hr : Text.readQuoted quote input with
      | error fault => rw [hr] at h; cases h
      | ok result =>
          rw [hr] at h
          cases h
          obtain ⟨body, rfl, hbody⟩ := ih hr
          exact ⟨'\\' :: c :: body, rfl, .escaped c hbody⟩
  | case4 input =>
      cases h
      exact ⟨[], rfl, .nil⟩
  | case5 c input hlone hescape hquote ih =>
      -- the two cases before have taken every backslash
      have hbackslash : c ≠ '\\' := by
        intro hc
        cases input with
        | nil => exact hlone hc rfl
        | cons next rest => exact hescape next rest hc rfl
      cases hr : Text.readQuoted quote input with
      | error fault => rw [hr] at h; cases h
      | ok result =>
          rw [hr] at h
          cases h
          obtain ⟨body, rfl, hbody⟩ := ih hr
          exact ⟨c :: body, rfl, .plain hbackslash hquote hbody⟩

theorem readQuoted_complete {quote : Char} (hq : quote ≠ '\\') {body name : List Char}
    (h : Quoted quote body name) (rest : List Char) :
    Text.readQuoted quote (body ++ quote :: rest) = .ok (name, rest) := by
  induction h with
  | nil => simp [Text.readQuoted, hq]
  | escaped c _ ih => simp [Text.readQuoted, ih, Except.map]
  | plain hbackslash hclosing _ ih =>
      simp [Text.readQuoted, hbackslash, hclosing, ih, Except.map]

/-- **A quoted name is read up to its closing quote.** -/
theorem readQuoted_eq_ok_iff {quote : Char} (hq : quote ≠ '\\') {input name rest : List Char} :
    Text.readQuoted quote input = .ok (name, rest) ↔
      ∃ body, input = body ++ quote :: rest ∧ Quoted quote body name := by
  constructor
  · exact readQuoted_sound
  · rintro ⟨body, rfl, h⟩
    exact readQuoted_complete hq h rest

/-! ## Integers -/

theorem word?_eq_some_iff {n : Int} {word : Int64} :
    Decimal.word? n = some word ↔ FitsWord n ∧ word.toInt = n := by
  constructor
  · intro h
    refine ⟨?_, Decimal.toInt_of_word? h⟩
    unfold Decimal.word? at h
    split at h
    · assumption
    · cases h
  · rintro ⟨-, rfl⟩
    exact Decimal.word?_toInt word

theorem word?_eq_none_iff {n : Int} : Decimal.word? n = none ↔ ¬ FitsWord n := by
  unfold Decimal.word? FitsWord
  split
  · rename_i h
    exact ⟨fun hnone => absurd hnone (Option.some_ne_none _), fun hn => absurd h hn⟩
  · rename_i h
    exact ⟨fun _ => h, fun _ => rfl⟩

/-- Digits do not begin with a sign, so they are read as they stand. -/
theorem readWord?_of_isDigits {digits : List Char} (h : Decimal.isDigits digits = true) :
    Decimal.readWord? digits = Decimal.word? (Decimal.natValue digits) := by
  unfold Decimal.readWord?
  split
  · simp [Decimal.isDigits] at h
  · rw [if_pos h]

/-- **Words are read from the texts of integers that fit one.** -/
theorem readWord?_eq_some_iff {text : List Char} {word : Int64} :
    Decimal.readWord? text = some word ↔ ∃ n, Integer text n ∧ FitsWord n ∧ word.toInt = n := by
  constructor
  · intro h
    -- a sign decides which of the two notations is read
    unfold Decimal.readWord? at h
    split at h
    · split at h
      · rename_i hd
        exact ⟨_, .negative hd, word?_eq_some_iff.1 h⟩
      · cases h
    · split at h
      · rename_i hd
        exact ⟨_, .natural hd, word?_eq_some_iff.1 h⟩
      · cases h
  · rintro ⟨n, hn, hfits⟩
    cases hn with
    | natural hd =>
        rw [readWord?_of_isDigits hd]
        exact word?_eq_some_iff.2 hfits
    | negative hd =>
        rw [Decimal.readWord?, if_pos hd]
        exact word?_eq_some_iff.2 hfits

theorem splitInteger_append (text : List Char) :
    (splitInteger text).1 ++ (splitInteger text).2 = text := by
  unfold splitInteger
  split
  · rw [List.cons_append, List.takeWhile_append_dropWhile]
  · exact List.takeWhile_append_dropWhile

/-- An integer ends in front of a closing bracket. -/
theorem splitInteger_integer {text : List Char} {n : Int} (h : Integer text n)
    (rest : List Char) : splitInteger (text ++ ']' :: rest) = (text, ']' :: rest) := by
  cases h with
  | natural hd => exact splitInteger_of_isDigits hd rest
  | negative hd => exact splitInteger_of_sign hd rest

/-- An integer begins with a sign or a digit. -/
theorem exists_head_of_integer {text : List Char} {n : Int} (h : Integer text n) :
    ∃ c rest, text = c :: rest ∧ (c = '-' ∨ c.isDigit = true) := by
  cases h with
  | natural hd =>
      obtain ⟨c, rest, htext, hc⟩ := exists_head_of_isDigits hd
      exact ⟨c, rest, htext, Or.inr hc⟩
  | negative hd => exact ⟨'-', _, rfl, Or.inl rfl⟩

/-! ## Bare segments -/

theorem isBareChar_iff {c : Char} : isBareChar c = true ↔ c ∉ reserved := by
  simp [isBareChar, reserved, and_assoc]

/-- The token of a bare segment is the one that its rule gives. -/
theorem bare_iff {text : List Char} {token : Token} :
    Bare text token ↔
      text ≠ [] ∧ (∀ c ∈ text, isBareChar c = true) ∧ segmentToken text = token := by
  -- on a segment that is not empty, all digits and a digit notation are the same
  have hall : text ≠ [] → text.all Char.isDigit = Decimal.isDigits text := by
    intro hne
    rw [Decimal.isDigits, List.isEmpty_eq_false_iff.2 hne, Bool.not_false, Bool.true_and]
  constructor
  · intro h
    cases h with
    | position hd hfits =>
        have hne : text ≠ [] := by
          rintro rfl
          cases hd
        refine ⟨hne, fun c hc => ?_, ?_⟩
        · -- none of the reserved characters is a digit
          rw [Decimal.isDigits, Bool.and_eq_true, List.all_eq_true] at hd
          have hdigit := hd.2 c hc
          rw [isBareChar_iff]
          intro hr
          simp only [reserved, List.mem_cons, List.not_mem_nil, or_false] at hr
          rcases hr with rfl | rfl | rfl | rfl | rfl <;> cases hdigit
        · have hword : Decimal.word? (Decimal.natValue text) =
              some (Int64.ofInt (Decimal.natValue text)) := if_pos hfits
          rw [segmentToken, hall hne, if_pos hd, readWord?_of_isDigits hd, hword]
          exact congrArg Token.index (Decimal.toInt_of_word? hword)
    | name hne hbare hother =>
        refine ⟨hne, fun c hc => isBareChar_iff.2 (hbare c hc), ?_⟩
        rw [segmentToken, hall hne]
        split
        · rename_i hd
          rw [readWord?_of_isDigits hd, word?_eq_none_iff.2 (hother hd)]
        · rfl
  · rintro ⟨hne, hbare, rfl⟩
    have hname := Bare.name hne fun c hc => isBareChar_iff.1 (hbare c hc)
    -- digits that fit a word are a position, all other texts are names
    rw [segmentToken, hall hne]
    split
    · rename_i hd
      rw [readWord?_of_isDigits hd]
      split
      · rename_i word hword
        obtain ⟨hfits, hvalue⟩ := word?_eq_some_iff.1 hword
        rw [hvalue]
        exact .position hd hfits
      · rename_i hword
        exact hname fun _ => word?_eq_none_iff.1 hword
    · rename_i hd
      exact hname fun h => absurd h hd

/-- **A bare segment is read up to the next separator.** -/
theorem scanBare_eq_ok_iff {input rest : List Char} {token : Token} :
    scanBare input = .ok (token, rest) ↔
      ∃ text, input = text ++ rest ∧ Bare text token ∧ AtSeparator rest := by
  constructor
  · intro h
    -- the segment ends at a reserved character, and reading fails at all but two of them
    have hstop : ∀ c ∈ (input.dropWhile isBareChar).head?, c ∈ reserved := by
      intro c hc
      have hnot : isBareChar c = false := by
        have hhead := List.head?_dropWhile_not isBareChar input
        rw [hc] at hhead
        simpa using hhead
      by_cases hr : c ∈ reserved
      · exact hr
      · rw [isBareChar_iff.2 hr] at hnot
        cases hnot
    have hbare : ∀ c ∈ input.takeWhile isBareChar, isBareChar c = true :=
      fun c hc => List.mem_takeWhile_imp hc
    have hsplit : input.takeWhile isBareChar ++ input.dropWhile isBareChar = input :=
      List.takeWhile_append_dropWhile
    unfold scanBare at h
    split at h
    · cases h
    · cases h
    · cases h
    · rename_i hclose hsingle hdouble
      split at h
      · cases h
      · rename_i hne
        cases h
        refine ⟨_, hsplit.symm, bare_iff.2 ⟨hne, hbare, rfl⟩, fun c hc => ?_⟩
        obtain ⟨tail, htail⟩ : ∃ tail, input.dropWhile isBareChar = c :: tail := by
          cases hd : input.dropWhile isBareChar with
          | nil => rw [hd] at hc; cases hc
          | cons first tail => rw [hd] at hc; cases hc; exact ⟨tail, rfl⟩
        have hr := hstop c hc
        simp only [reserved, List.mem_cons, List.not_mem_nil, or_false] at hr
        rcases hr with rfl | rfl | rfl | rfl | rfl
        · exact Or.inl rfl
        · exact Or.inr rfl
        · exact absurd htail (hclose tail)
        · exact absurd htail (hsingle tail)
        · exact absurd htail (hdouble tail)
  · rintro ⟨text, rfl, hbare, hr⟩
    obtain ⟨hne, hchars, htoken⟩ := bare_iff.1 hbare
    exact htoken ▸ scanBare_bare hne hchars hr

/-! ## Brackets -/

theorem scanClose_eq_ok_iff {input rest : List Char} :
    scanClose input = .ok rest ↔ input = ']' :: rest := by
  constructor
  · intro h
    unfold scanClose at h
    split at h
    · cases h
      rfl
    · cases h
    · cases h
  · rintro rfl
    rfl

theorem scanContent_sound {input rest : List Char} {token : Token}
    (h : scanContent input = .ok (token, rest)) :
    ∃ text, input = text ++ rest ∧ Content text token := by
  unfold scanContent at h
  split at h
  · cases h
  · rename_i c tail
    -- a quote opens a name, a sign or a digit a position, and nothing else is content
    split at h
    · rename_i hq
      unfold scanQuoted at h
      split at h
      · rename_i name after hread
        cases h
        obtain ⟨body, rfl, hbody⟩ := readQuoted_sound hread
        exact ⟨c :: body ++ [c], by simp, .name hq hbody⟩
      · cases h
      · cases h
    · split at h
      · unfold scanInteger at h
        split at h
        · rename_i word hword
          cases h
          obtain ⟨n, hn, hfits, rfl⟩ := readWord?_eq_some_iff.1 hword
          exact ⟨_, (splitInteger_append _).symm, .position hn hfits⟩
        · cases h
      · cases h

theorem scanContent_complete {text : List Char} {token : Token} (h : Content text token)
    (rest : List Char) : scanContent (text ++ ']' :: rest) = .ok (token, ']' :: rest) := by
  cases h with
  | @name quote body name hq hbody =>
      have hbackslash : quote ≠ '\\' := by
        rcases hq with rfl | rfl <;> decide
      have hread := readQuoted_complete hbackslash hbody (']' :: rest)
      have hinput : quote :: body ++ [quote] ++ ']' :: rest =
          quote :: (body ++ quote :: ']' :: rest) := by simp
      rw [hinput, scanContent, if_pos hq, scanQuoted, hread]
  | @position text n hn hfits =>
      obtain ⟨c, tail, rfl, hc⟩ := exists_head_of_integer hn
      -- a sign or a digit is no quote
      have hquote : ¬(c = '\'' ∨ c = '"') := by
        rintro (rfl | rfl) <;> revert hc <;> decide
      have hword : Decimal.readWord? (c :: tail) = some (Int64.ofInt n) :=
        readWord?_eq_some_iff.2 ⟨n, hn, hfits, Int64.toInt_ofInt_of_le hfits.1 hfits.2⟩
      have hsplit := splitInteger_integer hn rest
      rw [List.cons_append] at hsplit ⊢
      rw [scanContent, if_neg hquote, if_pos hc, scanInteger, hsplit, hword]
      exact congrArg (fun n => Except.ok (Token.index n, ']' :: rest))
        (Int64.toInt_ofInt_of_le hfits.1 hfits.2)

/-- **A bracket is read up to its closing character.** -/
theorem scanBracket_eq_ok_iff {input rest : List Char} {token : Token} :
    scanBracket input = .ok (token, rest) ↔
      ∃ text, input = text ++ ']' :: rest ∧ Content text token := by
  constructor
  · intro h
    unfold scanBracket at h
    split at h
    · rename_i found after hcontent
      obtain ⟨text, rfl, ht⟩ := scanContent_sound hcontent
      cases hclose : scanClose after with
      | error stop => rw [hclose] at h; cases h
      | ok tail =>
          rw [hclose] at h
          cases h
          exact ⟨text, by rw [scanClose_eq_ok_iff.1 hclose], ht⟩
    · cases h
  · rintro ⟨text, rfl, ht⟩
    rw [scanBracket, scanContent_complete ht]
    rfl

/-! ## Whole texts -/

/-- A separator or the end stands in front of the segments after the first. -/
theorem atSeparator_of_segments {text : List Char} {path : Path} (h : Segments text path) :
    AtSeparator text := by
  cases h with
  | nil => exact fun c hc => by cases hc
  | cons first rest =>
      cases first with
      | dotted bare =>
          intro c hc
          cases hc
          exact Or.inl rfl
      | bracketed content =>
          intro c hc
          cases hc
          exact Or.inr rfl

theorem scanTail_sound {input : List Char} {path : Path} (h : scanTail input = .ok path) :
    Segments input path := by
  -- the cases are a dot, a bracket, the end of the text, and the three faults
  fun_induction scanTail input generalizing path with
  | case1 =>
      cases h
      exact .nil
  | case2 input token rest hread ih =>
      obtain ⟨text, rfl, hbare, -⟩ := scanBare_eq_ok_iff.1 hread
      cases hr : scanTail rest with
      | error stop => rw [hr] at h; cases h
      | ok tokens =>
          rw [hr] at h
          cases h
          exact .cons (.dotted hbare) (ih hr)
  | case3 => cases h
  | case4 input token rest hread ih =>
      obtain ⟨text, rfl, hcontent⟩ := scanBracket_eq_ok_iff.1 hread
      cases hr : scanTail rest with
      | error stop => rw [hr] at h; cases h
      | ok tokens =>
          rw [hr] at h
          cases h
          have hsegments := Segments.cons (.bracketed hcontent) (ih hr)
          simpa using hsegments
  | case5 => cases h
  | case6 => cases h

theorem scanTail_complete {input : List Char} {path : Path} (h : Segments input path) :
    scanTail input = .ok path := by
  induction h with
  | nil => rw [scanTail]
  | @cons text more token path first rest ih =>
      cases first with
      | dotted bare =>
          have hread := scanBare_eq_ok_iff.2 ⟨_, rfl, bare, atSeparator_of_segments rest⟩
          rw [List.cons_append, scanTail_of_bare hread, ih]
          rfl
      | @bracketed content _ hcontent =>
          have hread : scanBracket (content ++ ']' :: more) = .ok (token, more) :=
            scanBracket_eq_ok_iff.2 ⟨content, rfl, hcontent⟩
          have hinput : '[' :: content ++ [']'] ++ more = '[' :: (content ++ ']' :: more) := by simp
          rw [hinput, scanTail_of_bracket hread, ih]
          rfl

/-- **The segments after the first are read to the end.** -/
theorem scanTail_eq_ok_iff {input : List Char} {path : Path} :
    scanTail input = .ok path ↔ Segments input path :=
  ⟨scanTail_sound, scanTail_complete⟩

theorem scanTail_dot (text : List Char) :
    scanTail ('.' :: text) =
      match scanBare text with
      | .ok (token, rest) => (scanTail rest).map (token :: ·)
      | .error stop => .error stop := by
  cases hread : scanBare text with
  | error stop =>
      rw [scanTail]
      split
      · rename_i hs
        rw [hread] at hs
        cases hs
      · rename_i hs
        rw [hread] at hs
        cases hs
        rfl
  | ok result =>
      obtain ⟨token, rest⟩ := result
      exact scanTail_of_bare hread

/-- A text whose first segment has no separator is scanned as if it had a dot. -/
theorem scan_bare {text : List Char} (hdot : ∀ c ∈ text.head?, c ≠ '.' ∧ c ≠ '[') :
    scan text = scanTail ('.' :: text) := by
  rw [scanTail_dot]
  cases text with
  | nil => rfl
  | cons c rest =>
      obtain ⟨hdot, hbracket⟩ := hdot c rfl
      -- the last case of the scanner
      apply scan.eq_3
      · intro text he
        exact hdot (List.cons.inj he).1
      · intro text he
        exact hbracket (List.cons.inj he).1

/-- A bare segment does not begin with a separator. -/
theorem head_of_bare {text : List Char} {token : Token} (h : Bare text token)
    (more : List Char) : ∀ c ∈ (text ++ more).head?, c ≠ '.' ∧ c ≠ '[' := by
  obtain ⟨hne, hbare, -⟩ := bare_iff.1 h
  obtain ⟨first, rest, rfl⟩ := List.exists_cons_of_ne_nil hne
  intro c hc
  cases hc
  have hfirst := isBareChar_iff.1 (hbare first List.mem_cons_self)
  constructor
  · rintro rfl
    exact hfirst List.mem_cons_self
  · rintro rfl
    exact hfirst (List.mem_cons_of_mem _ List.mem_cons_self)

/-- **The scanner accepts the grammar, but for the root.** -/
theorem scan_eq_ok_iff {input : List Char} (hne : input ≠ []) {path : Path} :
    scan input = .ok path ↔ Spells input path := by
  constructor
  · intro h
    by_cases hdot : ∀ c ∈ input.head?, c ≠ '.' ∧ c ≠ '['
    · -- without a separator in front the first segment is bare
      rw [scan_bare hdot, scanTail_eq_ok_iff] at h
      generalize htext : '.' :: input = text at h
      cases h with
      | nil => cases htext
      | cons first rest =>
          cases first with
          | dotted bare =>
              obtain rfl := (List.cons.inj htext).2
              exact .bare bare rest
          | bracketed content => cases htext
    · have htail : scan input = scanTail input := by
        cases input with
        | nil => exact absurd rfl hne
        | cons c rest =>
            by_cases hd : c = '.'
            · subst hd
              rfl
            · by_cases hb : c = '['
              · subst hb
                rfl
              · refine absurd (fun first hfirst => ?_) hdot
                cases hfirst
                exact ⟨hd, hb⟩
      rw [htail, scanTail_eq_ok_iff] at h
      cases h with
      | nil => exact absurd rfl hne
      | cons first rest => exact .segment first rest
  · intro h
    cases h with
    | root => exact absurd rfl hne
    | bare first rest =>
        rw [scan_bare (head_of_bare first _)]
        exact scanTail_complete (.cons (.dotted first) rest)
    | segment first rest =>
        have htail := scanTail_complete (.cons first rest)
        cases first with
        | dotted bare => exact htail
        | bracketed content => exact htail

/-! ## Texts without brackets and quotes -/

theorem hasBrackets_cons {c : Char} {text : List Char} (h : hasBrackets (c :: text) = false) :
    c ∉ ['[', ']', '\'', '"'] ∧ hasBrackets text = false := by
  rw [hasBrackets, List.any_cons, Bool.or_eq_false_iff] at h
  refine ⟨?_, h.2⟩
  simpa [and_assoc] using h.1

/-- Without brackets and quotes the dot is the only reserved character. -/
theorem isBareChar_of_not_hasBrackets {text : List Char} (h : hasBrackets text = false) :
    ∀ c ∈ text, isBareChar c = (c != '.') := by
  induction text with
  | nil => exact fun c hc => by cases hc
  | cons first rest ih =>
      obtain ⟨hfirst, hrest⟩ := hasBrackets_cons h
      intro c hc
      rcases List.mem_cons.1 hc with rfl | hc
      · simp only [List.mem_cons, List.not_mem_nil, or_false, not_or,
          ← beq_eq_false_iff_ne] at hfirst
        simp [isBareChar, bne, hfirst]
      · exact ih hrest c hc

/-- Induction over a text with a hypothesis for what stands behind its first dot. -/
@[elab_as_elim]
theorem segments_induct {motive : List Char → Prop}
    (last : ∀ segment : List Char, (∀ c ∈ segment, (c != '.') = true) → motive segment)
    (dot : ∀ segment rest : List Char, (∀ c ∈ segment, (c != '.') = true) → motive rest →
      motive (segment ++ '.' :: rest)) (text : List Char) : motive text := by
  induction hn : text.length using Nat.strongRecOn generalizing text with
  | _ n ih =>
    -- the text is its part before the first dot and the rest, which is shorter
    subst hn
    have hwhole := List.takeWhile_append_dropWhile (p := (· != '.')) (l := text)
    have hsegment : ∀ c ∈ text.takeWhile (· != '.'), (c != '.') = true :=
      fun c hc => List.mem_takeWhile_imp (p := (· != '.')) hc
    cases hrest : text.dropWhile (· != '.') with
    | nil =>
        rw [hrest, List.append_nil] at hwhole
        rw [hwhole] at hsegment
        exact last text hsegment
    | cons c rest =>
        have hdot : c = '.' := by
          have hhead := List.head?_dropWhile_not (· != '.') text
          rw [hrest] at hhead
          simpa using hhead
        rw [hrest, hdot] at hwhole
        rw [← hwhole]
        refine dot _ rest hsegment (ih rest.length ?_ rest rfl)
        rw [← hwhole, List.length_append, List.length_cons]
        omega

/-- The splitter stops in front of an empty segment. -/
theorem splitSegments_of_empty {text : List Char} (h : text.takeWhile (· != '.') = []) :
    splitSegments text = .error ⟨text, .emptySegment⟩ := by
  rw [splitSegments, if_pos h]

/-- **Splitting at the dots reads what scanning after a dot reads.** -/
theorem splitSegments_eq_scanTail {text : List Char} (h : hasBrackets text = false) :
    splitSegments text = scanTail ('.' :: text) := by
  rw [scanTail_dot]
  -- both readers cut off the same first segment, and what follows a dot is split or scanned alike
  induction text using segments_induct with
  | last segment hsegment =>
      by_cases hne : segment = []
      · rw [hne, splitSegments_of_empty rfl]
        rfl
      · have hbare : ∀ c ∈ segment, isBareChar c = true :=
          fun c hc => (isBareChar_of_not_hasBrackets h c hc).trans (hsegment c hc)
        have hread := scanBare_bare hne hbare
          (show AtSeparator [] from fun c hc => by cases hc)
        rw [List.append_nil] at hread
        rw [splitSegments_last hsegment hne, hread]
        simp only [scanTail, Except.map]
  | dot segment rest hsegment ih =>
      by_cases hne : segment = []
      · rw [hne, splitSegments_of_empty rfl]
        rfl
      · have hbare : ∀ c ∈ segment, isBareChar c = true := fun c hc =>
          (isBareChar_of_not_hasBrackets h c (List.mem_append_left _ hc)).trans (hsegment c hc)
        have hread := scanBare_bare hne hbare
          (show AtSeparator ('.' :: rest) from fun c hc => Or.inl (Option.some.inj hc).symm)
        have hrest : hasBrackets rest = false := by
          rw [hasBrackets, List.any_append, List.any_cons, Bool.or_eq_false_iff,
            Bool.or_eq_false_iff] at h
          exact h.2.2
        rw [splitSegments_dot hsegment hne, hread, ih hrest]
        simp only [scanTail_dot]

/-- **Where a text has no brackets and no quotes, both readers come to the same.** -/
theorem splitDotted_eq_scan {text : List Char} (h : hasBrackets text = false) :
    splitDotted text = scan text := by
  unfold splitDotted
  split
  · exact splitSegments_eq_scanTail (hasBrackets_cons h).2
  · rename_i hdot
    rw [splitSegments_eq_scanTail h, scan_bare]
    intro c hc
    cases text with
    | nil => cases hc
    | cons first rest =>
        cases hc
        constructor
        · rintro rfl
          exact hdot rest rfl
        · rintro rfl
          exact (hasBrackets_cons h).1 List.mem_cons_self

/-! ## Reading -/

theorem parse_eq_ok_iff_parseChars {text : String} {path : Path} :
    parse text = .ok path ↔ parseChars text.toList = .ok path := by
  rw [parse]
  cases parseChars text.toList with
  | ok tokens => simp
  | error stop => simp

/-- Only the root is spelled by nothing. -/
theorem spells_nil_iff {path : Path} : Spells [] path ↔ path = [] := by
  constructor
  · intro h
    generalize htext : [] = text at h
    cases h with
    | root => rfl
    | bare first rest =>
        obtain ⟨hne, -, -⟩ := bare_iff.1 first
        exact absurd (List.append_eq_nil_iff.1 htext.symm).1 hne
    | segment first rest =>
        cases first with
        | dotted bare => cases htext
        | bracketed content => cases htext
  · rintro rfl
    exact .root

/-- **Reading accepts exactly the grammar.** A text is read as a path if and only if the grammar
derives that path from it. -/
theorem parse_eq_ok_iff (text : String) (path : Path) :
    parse text = .ok path ↔ Spells text.toList path := by
  rw [parse_eq_ok_iff_parseChars, parseChars]
  split
  · rename_i hnil
    rw [hnil, spells_nil_iff]
    exact ⟨fun h => (Except.ok.inj h).symm, fun h => congrArg Except.ok h.symm⟩
  · rename_i hne
    split
    · exact scan_eq_ok_iff hne
    -- a text without brackets and quotes is split, which comes to the same as scanning it
    · rename_i hb
      rw [splitDotted_eq_scan (Bool.not_eq_true _ ▸ hb)]
      exact scan_eq_ok_iff hne

end PathDoc.Path

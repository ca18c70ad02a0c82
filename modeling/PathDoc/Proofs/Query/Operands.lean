import PathDoc.Proofs.Query.Grammar

/-!
# The texts of literals and paths in queries

What the printer of queries writes for a literal or for a path below a variable, seen from the
reader. A literal is read back unless it is a floating-point number whose text has no point or
denotes another number (`atom_literal`, `operand_literal`). A path is read back unless one of its
names is written without quotes and holds a hyphen or a dollar sign; then reading stops there
(`steps_render`, `readSteps_render`). Either way what follows in a printed query is left alone.
-/

set_option autoImplicit false

namespace PathDoc.Query

open Decimal (isDigits_iff isDigit_of_mem_dropTrailingZeros)
open Text (span_append)

/-! ## What follows an operand -/

/-- What follows an expression in the text of a query: nothing, a closing parenthesis, or a blank
and the sign of "and" or "or". -/
inductive Closer : List Char → Prop
  | nil : Closer []
  | paren (rest : List Char) : Closer (')' :: rest)
  | and (rest : List Char) : Closer (' ' :: '&' :: '&' :: rest)
  | or (rest : List Char) : Closer (' ' :: '|' :: '|' :: rest)

/-- What follows an operand in the text of a query: what follows an expression, or the sign of a
comparison between blanks. -/
inductive Follow : List Char → Prop
  | closer {rest : List Char} (h : Closer rest) : Follow rest
  | sign (comparison : Comparison) (rest : List Char) :
      Follow (' ' :: (comparison.sign.toList ++ ' ' :: rest))

/-- Whether something follows that neither ends an expression nor joins it to another one. -/
def Blocked (rest : List Char) : Prop :=
  ∃ c tail, Text.dropBlanks rest = c :: tail ∧ c ∉ ['&', '|', ')']

theorem Follow.head {rest : List Char} (h : Follow rest) :
    ∀ c ∈ rest.head?, c = ' ' ∨ c = ')' := by
  intro c hc
  cases h with
  | closer h =>
      cases h with
      | nil => cases hc
      | paren => exact Or.inr (Option.mem_some.1 hc).symm
      | and => exact Or.inl (Option.mem_some.1 hc).symm
      | or => exact Or.inl (Option.mem_some.1 hc).symm
  | sign => exact Or.inl (Option.mem_some.1 hc).symm

theorem Follow.ends {rest : List Char} (h : Follow rest) : Ends rest := by
  intro c hc
  rcases h.head c hc with rfl | rfl <;> decide

theorem Follow.breaksName {rest : List Char} (h : Follow rest) : BreaksName rest := by
  intro c hc
  rcases h.head c hc with rfl | rfl <;> decide +kernel

theorem Closer.splitComparison?_eq_none {rest : List Char} (h : Closer rest) :
    splitComparison? (Text.dropBlanks rest) = none := by
  cases h <;> rfl

theorem dropBlanks_sign (comparison : Comparison) (rest : List Char) :
    Text.dropBlanks (' ' :: (comparison.sign.toList ++ rest)) = comparison.sign.toList ++ rest := by
  cases comparison <;> rfl

theorem blocked_sign (comparison : Comparison) (rest : List Char) :
    Blocked (' ' :: (comparison.sign.toList ++ rest)) := by
  rw [Blocked, dropBlanks_sign]
  cases comparison <;> exact ⟨_, _, rfl, by decide⟩

/-! ## Literals -/

theorem integer_intText (n : Int) : Path.Integer (Decimal.intText n) n := by
  cases n with
  | ofNat n =>
      have h := Path.Integer.natural (Decimal.isDigits_natText n)
      rwa [Decimal.natValue_natText] at h
  | negSucc n =>
      have h := Path.Integer.negative (Decimal.isDigits_natText (n + 1))
      rwa [Decimal.natValue_natText] at h

theorem quoted_escape (text : List Char) : Path.Quoted '\'' (Text.escape text) text := by
  induction text with
  | nil => exact .nil
  | cons c text ih =>
      rw [Text.escape]
      split
      · exact .escaped c ih
      · rename_i h
        obtain ⟨hbackslash, hquote⟩ := not_or.1 h
        exact .plain hbackslash hquote ih

/-- Whether a literal is read back from its text: a floating-point number if its text has a point
and denotes it. -/
def Literal.ReadsBack : Literal → Prop
  | .float value => Number (Literal.render (.float value)) (.float value)
  | _ => True

theorem atom_literal {value : Literal} (h : value.ReadsBack) {rest : List Char}
    (hb : BreaksName rest) : Atom (value.render ++ rest) (.literal value) rest := by
  cases value with
  -- names are looked up, numbers are spelled as such, and a text is escaped between quotes
  | null =>
      have hnamed : ("null", Literal.null) ∈ constants := by simp [constants]
      exact .constant hnamed hb
  | bool value =>
      cases value with
      | true =>
          have hnamed : ("true", Literal.bool true) ∈ constants := by simp [constants]
          exact .constant hnamed hb
      | false =>
          have hnamed : ("false", Literal.bool false) ∈ constants := by simp [constants]
          exact .constant hnamed hb
  | int value => exact .number (.integer (integer_intText value.toInt) rfl)
  | float value => exact .number h
  | string value =>
      have hatom : Atom ('\'' :: (Text.escape value.toList ++ '\'' :: rest)) _ rest :=
        .string (Or.inl rfl) (quoted_escape value.toList)
      rw [String.ofList_toList] at hatom
      rw [Literal.render, List.cons_append, List.append_assoc]
      exact hatom

/-! ### Floating-point numbers -/

/-- A text without a sign in the layout of messages. -/
inductive Positional : List Char → Prop
  | whole {text : List Char} (digits : Decimal.isDigits text = true) : Positional text
  | decimal {whole fraction : List Char} (digits : Decimal.isDigits whole = true)
      (more : ∀ c ∈ fraction, c.isDigit = true) : Positional (whole ++ '.' :: fraction)

theorem positional_positionalText {digits : List Char} (h : ∀ c ∈ digits, c.isDigit = true)
    (exponent : Int) : Positional (Decimal.positionalText Decimal.plain digits exponent) := by
  rw [Decimal.positionalText]
  split
  · -- the digits before the point are filled up with zeros
    generalize exponent.toNat = places
    have hwhole :
        Decimal.isDigits ((digits.take (places + 1)).rightpad (places + 1) '0') = true := by
      refine isDigits_iff.2 ⟨?_, fun c hc => ?_⟩
      · rw [← List.length_pos_iff, List.length_rightpad]
        exact Nat.lt_of_lt_of_le (Nat.succ_pos places) (Nat.le_max_left _ _)
      · rw [List.rightpad, List.mem_append] at hc
        rcases hc with hc | hc
        · exact h c (List.mem_of_mem_take hc)
        · rw [List.eq_of_mem_replicate hc]
          rfl
    dsimp only
    rw [Decimal.fractionText]
    split
    · have hnone : Decimal.plain.keepsPoint = false := rfl
      rw [hnone, if_neg Bool.false_ne_true, List.append_nil]
      exact .whole hwhole
    · exact .decimal hwhole fun c hc => h c (List.mem_of_mem_drop hc)
  · have hzeros : ∀ c ∈ List.replicate (-exponent - 1).toNat '0' ++ digits, c.isDigit = true := by
      refine List.forall_mem_append.2 ⟨fun c hc => ?_, h⟩
      rw [List.eq_of_mem_replicate hc]
      rfl
    have hzero : Decimal.isDigits ['0'] = true := rfl
    exact .decimal hzero hzeros

theorem positional_magnitudeText (x : Decimal.Magnitude) :
    Positional (Decimal.magnitudeText Decimal.plain x) := by
  rw [Decimal.magnitudeText]
  split
  · exact .whole rfl
  · refine positional_positionalText (fun c hc => ?_) _
    exact isDigit_of_mem_dropTrailingZeros (isDigits_iff.1 (Decimal.isDigits_natText _)).2 hc

/-- The text of a floating-point number in messages. -/
theorem floatText_cases (value : Float) :
    Decimal.floatText Decimal.plain value ∈
        [['N', 'a', 'N'], ['i', 'n', 'f'], ['-', 'i', 'n', 'f']] ∨
      ∃ text, Positional text ∧
        (Decimal.floatText Decimal.plain value = text ∨
          Decimal.floatText Decimal.plain value = '-' :: text) := by
  rw [Decimal.floatText]
  -- what has no digits comes first: `NaN`, then the infinities with their sign
  by_cases hnan : value.isNaN = true
  · rw [if_pos hnan]
    exact Or.inl (by simp)
  · rw [if_neg hnan]
    dsimp only
    by_cases hinf : value.isInf = true
    · rw [if_pos hinf]
      refine Or.inl ?_
      split <;> simp
    · rw [if_neg hinf]
      refine Or.inr ⟨_, positional_magnitudeText (Decimal.Magnitude.ofBits value.toBits), ?_⟩
      split
      · exact Or.inr rfl
      · exact Or.inl rfl

theorem Positional.exists_head {text : List Char} (h : Positional text) :
    ∃ c tail, text = c :: tail ∧ AtomHead c := by
  cases h with
  | whole digits =>
      obtain ⟨c, tail, rfl, hc⟩ := Path.exists_head_of_integer (.natural digits)
      exact ⟨c, tail, rfl, .number hc⟩
  | decimal digits more =>
      obtain ⟨c, tail, rfl, hc⟩ := Path.exists_head_of_integer (.natural digits)
      exact ⟨c, _, rfl, .number hc⟩

theorem Literal.exists_head (value : Literal) :
    ∃ c tail, value.render = c :: tail ∧ AtomHead c := by
  -- only the texts of floating-point numbers may fail to be read back
  have hexact : value.ReadsBack → ∃ c tail, value.render = c :: tail ∧ AtomHead c := by
    intro hv
    have hatom : Atom (value.render ++ []) (.literal value) [] := atom_literal hv nofun
    rw [List.append_nil] at hatom
    exact hatom.exists_head
  cases value with
  | float value =>
      rw [Literal.render]
      rcases floatText_cases value with hname | ⟨text, hpositional, htext⟩
      · simp only [List.mem_cons, List.not_mem_nil, or_false] at hname
        rcases hname with htext | htext | htext
        · exact ⟨_, _, htext, .name (by decide)⟩
        · exact ⟨_, _, htext, .name (by decide)⟩
        · exact ⟨_, _, htext, .number (Or.inl rfl)⟩
      · rcases htext with htext | htext
        · obtain ⟨c, tail, rfl, hc⟩ := hpositional.exists_head
          exact ⟨c, tail, htext, hc⟩
        · exact ⟨_, _, htext, .number (Or.inl rfl)⟩
  | _ => exact hexact trivial

/-- What is read where digits stand without a point: an integer, if they are one that fits a
word. -/
theorem operand_of_digits (digits : List Char) {inner : Reading Expr} {c : Char}
    {tail rest : List Char} {negative : Bool} (hc : c = '-' ∨ c.isDigit = true)
    (hs : splitSign (c :: tail) = (negative, digits ++ rest))
    (hd : ∀ c ∈ digits, c.isDigit = true) (he : Ends rest) {expr : Expr} {rest' : List Char}
    (h : operand inner (c :: tail) = .ok (expr, rest')) :
    rest' = rest ∧ ∃ word, expr = .literal (.int word) ∧
      Decimal.readWord? (if negative then '-' :: digits else digits) = some word := by
  have hdrop : Text.dropBlanks (c :: tail) = c :: tail :=
    dropBlanks_cons (AtomHead.number hc).spec.1 tail
  rw [operand_of_number hdrop hc, readNumber_of_digits hs hd he] at h
  split at h
  · rename_i word hword
    cases h
    exact ⟨rfl, word, rfl, hword⟩
  · cases h

/-- What is read where a literal or a variable ends is that. -/
theorem eq_of_operand_atom {inner : Reading Expr} {input rest rest' : List Char}
    {expr found : Expr} (ha : Atom input found rest) (he : Ends rest)
    (h : operand inner input = .ok (expr, rest')) : expr = found ∧ rest' = rest := by
  rw [operand_of_atom (.none input) ha he] at h
  cases h
  exact ⟨rfl, rfl⟩

/-- `NaN` and `inf` are read as variables. -/
theorem operand_of_letters {inner : Reading Expr} {name rest rest' : List Char} {expr : Expr}
    (hn : name = ['N', 'a', 'N'] ∨ name = ['i', 'n', 'f']) (hf : Follow rest)
    (h : operand inner (name ++ rest) = .ok (expr, rest')) :
    rest' = rest ∧ ∃ unbound, expr = .lookup unbound [] := by
  -- both names are words of letters that stand for no literal
  have hvariable : ∀ first more, Text.isIdentifierStart first = true →
      (∀ c ∈ more, Text.isIdentifierStart c = true) →
      (∀ literal, (String.ofList (first :: more), literal) ∉ constants) → name = first :: more →
        rest' = rest ∧ ∃ unbound, expr = .lookup unbound [] := by
    intro first more hfirst hmore hnone hname
    rw [hname] at h
    obtain ⟨hexpr, hrest⟩ := eq_of_operand_atom
      (.lookup hfirst (fun c hc => Text.isIdentifierChar_of_start (hmore c hc)) hf.breaksName hnone
        (.nil rest)) hf.ends h
    exact ⟨hrest, _, hexpr⟩
  have hletters : ∀ c d, Text.isIdentifierStart c = true → Text.isIdentifierStart d = true →
      ∀ letter ∈ [c, d], Text.isIdentifierStart letter = true :=
    fun c d hc hd => List.forall_mem_cons.2 ⟨hc, List.forall_mem_singleton.2 hd⟩
  rcases hn with hn | hn
  · exact hvariable 'N' ['a', 'N'] (by decide) (hletters _ _ (by decide) (by decide))
      (by simp [constants]) hn
  · exact hvariable 'i' ['n', 'f'] (by decide) (hletters _ _ (by decide) (by decide))
      (by simp [constants]) hn

/-- In the layout of messages an integer is read where no point is written, and otherwise the number
that the text denotes. -/
theorem operand_of_positional {inner : Reading Expr} {text written rest rest' : List Char}
    {expr : Expr} (hp : Positional text) (hw : written = text ∨ written = '-' :: text)
    (he : Ends rest) (h : operand inner (written ++ rest) = .ok (expr, rest')) :
    rest' = rest ∧ ((∃ word, expr = .literal (.int word)) ∨
      ∃ found, expr = .literal (.float found) ∧ Number written (.float found)) := by
  -- with a point the text is a number by the grammar, and reading is unique
  have hpoint : ∀ {found : Float}, Number written (.float found) →
      rest' = rest ∧ ((∃ word, expr = .literal (.int word)) ∨
        ∃ found, expr = .literal (.float found) ∧ Number written (.float found)) := by
    intro found hnumber
    obtain ⟨hexpr, hrest⟩ := eq_of_operand_atom (.number hnumber) he h
    exact ⟨hrest, Or.inr ⟨found, hexpr, hnumber⟩⟩
  cases hp with
  | whole digits =>
      have hdigits := (isDigits_iff.1 digits).2
      rcases hw with rfl | rfl
      · obtain ⟨c, tail, rfl, hc⟩ := Path.exists_head_of_integer (.natural digits)
        obtain ⟨hrest, word, hexpr, -⟩ := operand_of_digits _ hc
          (splitSign_of_digits digits rest) hdigits he h
        exact ⟨hrest, Or.inl ⟨word, hexpr⟩⟩
      · obtain ⟨hrest, word, hexpr, -⟩ := operand_of_digits text (Or.inl rfl) rfl hdigits he h
        exact ⟨hrest, Or.inl ⟨word, hexpr⟩⟩
  | @decimal whole fraction digits more =>
      rcases hw with rfl | rfl
      · exact hpoint (.decimal digits more)
      · have hall : Decimal.isDigits (whole ++ fraction) = true :=
          isDigits_iff.2 ⟨List.append_ne_nil_of_left_ne_nil (isDigits_iff.1 digits).1 fraction,
            List.forall_mem_append.2 ⟨(isDigits_iff.1 digits).2, more⟩⟩
        exact hpoint (.negative hall)

theorem operand_float {inner : Reading Expr} {value : Float} {rest rest' : List Char} {expr : Expr}
    (hf : Follow rest)
    (h : operand inner (Literal.render (.float value) ++ rest) = .ok (expr, rest')) :
    rest' = rest ∧ (expr = .literal (.float value) → Literal.ReadsBack (.float value)) := by
  rw [Literal.ReadsBack, Literal.render] at *
  -- a name is read as a variable, which is no number at all
  have hletters : Decimal.floatText Decimal.plain value = ['N', 'a', 'N'] ∨
      Decimal.floatText Decimal.plain value = ['i', 'n', 'f'] →
        rest' = rest ∧ (expr = .literal (.float value) →
          Number (Decimal.floatText Decimal.plain value) (.float value)) := by
    intro hname
    obtain ⟨hrest, unbound, rfl⟩ := operand_of_letters hname hf h
    exact ⟨hrest, nofun⟩
  rcases floatText_cases value with hname | ⟨text, hpositional, htext⟩
  · simp only [List.mem_cons, List.not_mem_nil, or_false] at hname
    rcases hname with htext | htext | htext
    · exact hletters (Or.inl htext)
    · exact hletters (Or.inr htext)
    · -- a sign without digits behind it is not read
      rw [htext] at h
      obtain ⟨-, word, -, hword⟩ := operand_of_digits [] (Or.inl rfl) rfl
        (List.forall_mem_nil _) (Ends.cons (by decide) _) h
      cases hword
  · obtain ⟨hrest, ⟨word, rfl⟩ | ⟨found, rfl, hnumber⟩⟩ :=
      operand_of_positional hpositional htext hf.ends h
    · exact ⟨hrest, nofun⟩
    · refine ⟨hrest, fun he => ?_⟩
      cases he
      exact hnumber

/-- **A literal is read up to its end**, as itself only if it is read back. -/
theorem operand_literal {inner : Reading Expr} {value : Literal} {rest rest' : List Char}
    {expr : Expr} (hf : Follow rest)
    (h : operand inner (value.render ++ rest) = .ok (expr, rest')) :
    rest' = rest ∧ (expr = .literal value → value.ReadsBack) := by
  have hexact : value.ReadsBack → rest' = rest ∧ (expr = .literal value → value.ReadsBack) :=
    fun hv => ⟨(eq_of_operand_atom (atom_literal hv hf.breaksName) hf.ends h).2, fun _ => hv⟩
  cases value with
  | float value => exact operand_float hf h
  | _ => exact hexact trivial

/-! ## Paths -/

/-- Whether a token of a path below a variable is read back: a name that is written without quotes
holds no hyphen and no dollar sign, which go on in the text of a path but not in a query. -/
def TokenReadsBack : Token → Prop
  | .index _ => True
  | .key name => Text.isPlainName name.toList = true → '-' ∉ name.toList ∧ '$' ∉ name.toList

theorem isIdentifierChar_of_isPlainChar {c : Char} (h : Text.isPlainChar c = true)
    (hyphen : c ≠ '-') (dollar : c ≠ '$') : Text.isIdentifierChar c = true := by
  simpa [Text.isPlainChar, Text.isIdentifierChar, hyphen, dollar] using h

/-- Below a variable every name has its dot, the first one too. -/
theorem renderBelow_eq (path : Path) : renderBelow path = path.flatMap (Token.render false) := by
  cases path with
  | nil => rfl
  | cons token rest =>
      rw [renderBelow, Path.render, List.flatMap_cons]
      -- a name that needs no quotes is the only token whose text depends on its place
      cases token with
      | index position => rfl
      | key name =>
          cases hplain : Text.isPlainName name.toList with
          | true =>
              obtain ⟨c, tail, hname, hdot, hbracket⟩ := Text.exists_head_of_isPlainName hplain
              have hstart : Token.render true (.key name) = c :: tail := by
                rw [Token.render, if_pos hplain, if_pos rfl, hname]
              have hlater : Token.render false (.key name) = '.' :: c :: tail := by
                rw [Token.render, if_pos hplain, if_neg Bool.false_ne_true, hname]
              rw [hstart, hlater, List.cons_append]
              split
              · rename_i he
                cases he
              · rename_i he
                exact absurd (List.cons.inj he).1 hbracket
              · rfl
          | false =>
              rw [Token.render, Token.render, hplain]
              rfl

/-- A bracket with a position or a quoted name in it is read back. -/
theorem readBracket_render {token : Token} (ht : token.inRange = true)
    (hp : ∀ name, token = .key name → Text.isPlainName name.toList = false) (rest : List Char) :
    ∃ inside, token.render false ++ rest = '[' :: inside ∧
      readBracket inside = .ok (token, rest) := by
  cases token with
  | index position =>
      obtain ⟨word, hword⟩ := Option.isSome_iff_exists.1 ht
      have hfits := (Path.word?_eq_some_iff.1 hword).1
      refine ⟨Decimal.intText position ++ ']' :: rest, by simp [Token.render], ?_⟩
      exact readBracket_eq_ok_iff.2 ⟨Decimal.intText position, ']' :: rest, .none _,
        .position (integer_intText position) hfits, .none _⟩
  | key name =>
      refine ⟨'\'' :: Text.escape name.toList ++ ['\''] ++ ']' :: rest, ?_, ?_⟩
      · simp [Token.render, hp name rfl]
      · have hcontent := Path.Content.name (Or.inl rfl) (quoted_escape name.toList)
        rw [String.ofList_toList] at hcontent
        exact readBracket_eq_ok_iff.2 ⟨_, ']' :: rest, .none _, hcontent, .none _⟩

/-- A name ends at a separator. -/
theorem breaksName_append {text rest : List Char} (ht : Path.AtSeparator text)
    (hr : BreaksName rest) : BreaksName (text ++ rest) := by
  cases text with
  | nil => exact hr
  | cons c text =>
      intro d hd
      cases hd
      rcases ht c rfl with rfl | rfl <;> decide +kernel

/-- What stands behind a token in the text of a path. -/
theorem breaksName_render (path : Path) {rest : List Char} (hf : Follow rest) :
    BreaksName (path.flatMap (Token.render false) ++ rest) :=
  breaksName_append (Path.atSeparator_tokens path) hf.breaksName

/-- A name that is written without quotes and holds neither hyphens nor dollar signs. -/
theorem nameToken_of_isPlainName {name : String} (hp : Text.isPlainName name.toList = true)
    (hc : '-' ∉ name.toList ∧ '$' ∉ name.toList) : NameToken name.toList (.key name) := by
  obtain ⟨-, hdigits, hplain⟩ := Text.isPlainName_iff.1 hp
  have hchars : ∀ c ∈ name.toList, Text.isIdentifierChar c = true := by
    intro c hm
    refine isIdentifierChar_of_isPlainChar (hplain c hm) ?_ ?_
    · rintro rfl
      exact hc.1 hm
    · rintro rfl
      exact hc.2 hm
  have htoken := NameToken.key hchars (by simpa using hdigits)
  rwa [String.ofList_toList] at htoken

/-- **The steps of a path whose tokens are read back.** -/
theorem steps_render {path : Path} (hr : path.inRange = true)
    (hp : ∀ token ∈ path, TokenReadsBack token) {rest : List Char} (hf : Follow rest) :
    Steps (path.flatMap (Token.render false) ++ rest) path rest := by
  induction path with
  | nil => exact .nil rest
  | cons token path ih =>
      obtain ⟨hpt, hp⟩ := List.forall_mem_cons.1 hp
      rw [Path.inRange, List.all_cons, Bool.and_eq_true] at hr
      have hmore := ih hr.2 hp
      rw [List.flatMap_cons, List.append_assoc]
      -- a name without quotes ends at the next step, all other tokens stand in brackets
      by_cases hplain : ∃ name, token = .key name ∧ Text.isPlainName name.toList = true
      · obtain ⟨name, rfl, hname⟩ := hplain
        rw [Token.render, if_pos hname, if_neg Bool.false_ne_true]
        exact .name (nameToken_of_isPlainName hname (hpt hname)) (breaksName_render path hf) hmore
      · obtain ⟨inside, htext, hread⟩ := readBracket_render hr.1
          (fun name ht => Bool.eq_false_iff.2 fun hname => hplain ⟨name, ht, hname⟩)
          (path.flatMap (Token.render false) ++ rest)
        obtain ⟨content, closing, hopening, hspelled, hclosed⟩ := readBracket_eq_ok_iff.1 hread
        rw [htext]
        exact .bracket hopening hspelled hclosed hmore

/-- Whether something follows that goes on neither with a comparison nor behind an expression. -/
def Jammed (rest : List Char) : Prop :=
  Blocked rest ∧ splitComparison? (Text.dropBlanks rest) = none

theorem jammed_of_mem {c : Char} (h : c = '-' ∨ c = '$') (rest : List Char) :
    Jammed (c :: rest) ∧ Ends (c :: rest) := by
  rcases h with rfl | rfl
  · exact ⟨⟨⟨_, _, rfl, by decide⟩, rfl⟩, .cons (by decide) rest⟩
  · exact ⟨⟨⟨_, _, rfl, by decide⟩, rfl⟩, .cons (by decide) rest⟩

/-- A name that is written without quotes is read up to its first hyphen or dollar sign. -/
theorem readName_jammed {name rest rest' : List Char} {token : Token}
    (hp : ∀ c ∈ name, Text.isPlainChar c = true) (hc : '-' ∈ name ∨ '$' ∈ name)
    (h : readName (name ++ rest) = .ok (token, rest')) :
    rest'.length ≤ (name ++ rest).length ∧ ∃ c tail, rest' = c :: tail ∧ (c = '-' ∨ c = '$') := by
  obtain ⟨front, hfront, htoken, hbreaks⟩ := readName_eq_ok_iff.1 h
  obtain ⟨-, hchars⟩ := htoken.chars
  refine ⟨by rw [hfront, List.length_append]; exact Nat.le_add_left _ _, ?_⟩
  -- the name does not lie in what was read
  have hbreak : ∃ c ∈ name, Text.isIdentifierChar c = false := by
    rcases hc with hc | hc
    · exact ⟨'-', hc, by decide +kernel⟩
    · exact ⟨'$', hc, by decide +kernel⟩
  obtain ⟨d, hd, hbreak⟩ := hbreak
  have hnot : d ∉ front := fun hm => by
    cases hbreak.symm.trans (hchars d hm)
  rcases List.append_eq_append_iff.1 hfront with ⟨more, rfl, -⟩ | ⟨more, rfl, rfl⟩
  · exact absurd (List.mem_append_left more hd) hnot
  · cases more with
    | nil =>
        rw [List.append_nil] at hd
        exact absurd hd hnot
    | cons c tail =>
        refine ⟨c, tail ++ rest, rfl, ?_⟩
        have hplain := hp c (List.mem_append_right front List.mem_cons_self)
        have hends : Text.isIdentifierChar c = false := hbreaks c rfl
        by_cases hhyphen : c = '-'
        · exact Or.inl hhyphen
        · by_cases hdollar : c = '$'
          · exact Or.inr hdollar
          · cases hends.symm.trans (isIdentifierChar_of_isPlainChar hplain hhyphen hdollar)

/-- A token is read and the steps behind it follow, or reading stops in a name. -/
theorem readSteps_token {token : Token} (ht : token.inRange = true) {more : List Char}
    (hm : BreaksName more) {fuel : Nat} (hfuel : (token.render false ++ more).length ≤ fuel)
    {found : Path} {rest' : List Char}
    (h : readSteps fuel (token.render false ++ more) = .ok (found, rest')) :
    (TokenReadsBack token ∧
        ∃ less path, more.length ≤ less ∧ readSteps less more = .ok (path, rest')) ∨
      Jammed rest' := by
  by_cases hplain : ∃ name, token = .key name ∧ Text.isPlainName name.toList = true
  · obtain ⟨name, rfl, hname⟩ := hplain
    rw [Token.render, if_pos hname, if_neg Bool.false_ne_true, List.cons_append] at h hfuel
    obtain ⟨fuel, rfl⟩ : ∃ less, fuel = less + 1 := ⟨fuel - 1, by
      rw [List.length_cons] at hfuel
      omega⟩
    have hlength : (name.toList ++ more).length ≤ fuel := Nat.le_of_succ_le_succ hfuel
    rw [readSteps] at h
    obtain ⟨⟨first, middle⟩, hn, h⟩ := bind_eq_ok_iff.1 h
    obtain ⟨⟨path, last⟩, hread, h⟩ := bind_eq_ok_iff.1 h
    cases h
    by_cases hc : '-' ∈ name.toList ∨ '$' ∈ name.toList
    · -- a part of the name is read, and no step begins at the character behind it
      obtain ⟨hle, c, after, rfl, hc⟩ := readName_jammed (Text.isPlainName_iff.1 hname).2.2 hc hn
      obtain ⟨hjam, hends⟩ := jammed_of_mem hc after
      rw [readSteps_complete (.nil _) hends (Nat.le_trans hle hlength)] at hread
      cases hread
      exact Or.inr hjam
    · have hexact := readName_eq_ok_iff.2 ⟨name.toList, rfl,
        nameToken_of_isPlainName hname (not_or.1 hc), hm⟩
      rw [hexact] at hn
      cases hn
      rw [List.length_append] at hlength
      exact Or.inl ⟨fun _ => not_or.1 hc, fuel, path, by omega, hread⟩
  · -- in brackets everything is read back
    have hquoted : ∀ name, token = .key name → Text.isPlainName name.toList = false :=
      fun name ht => Bool.eq_false_iff.2 fun hname => hplain ⟨name, ht, hname⟩
    obtain ⟨inside, htext, hexact⟩ := readBracket_render ht hquoted more
    rw [htext] at h hfuel
    obtain ⟨fuel, rfl⟩ : ∃ less, fuel = less + 1 := ⟨fuel - 1, by
      rw [List.length_cons] at hfuel
      omega⟩
    rw [readSteps] at h
    obtain ⟨⟨first, middle⟩, hb, h⟩ := bind_eq_ok_iff.1 h
    cases hexact.symm.trans hb
    obtain ⟨⟨path, last⟩, hread, h⟩ := bind_eq_ok_iff.1 h
    cases h
    obtain ⟨content, closing, hopening, -, hclosed⟩ := readBracket_eq_ok_iff.1 hexact
    have hle := hopening.length_le
    have hle' := hclosed.length_le
    simp only [List.length_append, List.length_cons] at hle hle' hfuel
    refine Or.inl ⟨?_, fuel, path, by omega, hread⟩
    cases token with
    | index position => trivial
    | key name =>
        intro hname
        cases hname.symm.trans (hquoted name rfl)

/-- **The steps of a path in the text of a query are read up to their end**, or reading stops at a
hyphen or a dollar sign in a name. -/
theorem readSteps_render {path : Path} (hr : path.inRange = true) {rest : List Char}
    (hf : Follow rest) {fuel : Nat}
    (hfuel : (path.flatMap (Token.render false) ++ rest).length ≤ fuel)
    {found : Path} {rest' : List Char}
    (h : readSteps fuel (path.flatMap (Token.render false) ++ rest) = .ok (found, rest')) :
    (∀ token ∈ path, TokenReadsBack token) ∧ rest' = rest ∨ Jammed rest' := by
  -- induction on the path: once reading is stuck in a name it does not matter what follows
  induction path generalizing fuel found with
  | nil =>
      rw [List.flatMap_nil, List.nil_append] at h hfuel
      rw [readSteps_complete (.nil rest) hf.ends hfuel] at h
      cases h
      exact Or.inl ⟨List.forall_mem_nil _, rfl⟩
  | cons token path ih =>
      rw [Path.inRange, List.all_cons, Bool.and_eq_true] at hr
      rw [List.flatMap_cons, List.append_assoc] at h hfuel
      rcases readSteps_token hr.1 (breaksName_render path hf) hfuel h with
        ⟨ht, less, tail, hless, hread⟩ | hjam
      · rcases ih hr.2 hless hread with ⟨hp, he⟩ | hjam
        · exact Or.inl ⟨List.forall_mem_cons.2 ⟨ht, hp⟩, he⟩
        · exact Or.inr hjam
      · exact Or.inr hjam

/-! ## Variables -/

/-- Whether a name is read as a variable: an identifier that is none of the named literals. -/
def IsVariable (name : String) : Prop :=
  ∃ first more, name.toList = first :: more ∧ Text.isIdentifierStart first = true ∧
    (∀ c ∈ more, Text.isIdentifierChar c = true) ∧ ∀ literal, (name, literal) ∉ constants

theorem atom_lookup {name : String} {path : Path} (hn : IsVariable name)
    (hr : path.inRange = true) (hp : ∀ token ∈ path, TokenReadsBack token) {rest : List Char}
    (hf : Follow rest) :
    Atom (name.toList ++ (renderBelow path ++ rest)) (.lookup name path) rest := by
  obtain ⟨first, more, hname, hfirst, hchars, hnone⟩ := hn
  have hstring : String.ofList (first :: more) = name := by rw [← hname, String.ofList_toList]
  rw [hname, renderBelow_eq, List.cons_append, ← hstring]
  exact .lookup hfirst hchars (breaksName_render path hf) (hstring ▸ hnone) (steps_render hr hp hf)

/-- **A variable with a path is read up to its end**, or reading stops at a hyphen or a dollar sign
in a name. -/
theorem operand_lookup {inner : Reading Expr} {name : String} {path : Path} (hn : IsVariable name)
    (hr : path.inRange = true) {rest rest' : List Char} {expr : Expr} (hf : Follow rest)
    (h : operand inner (name.toList ++ (renderBelow path ++ rest)) = .ok (expr, rest')) :
    (∀ token ∈ path, TokenReadsBack token) ∧ rest' = rest ∨ Jammed rest' := by
  obtain ⟨first, more, hname, hfirst, hchars, hnone⟩ := hn
  have hstring : String.ofList (first :: more) = name := by rw [← hname, String.ofList_toList]
  have hall : ∀ c ∈ first :: more, Text.isIdentifierChar c = true :=
    List.forall_mem_cons.2 ⟨Text.isIdentifierChar_of_start hfirst, hchars⟩
  obtain ⟨htake, hdrop⟩ := span_append hall (breaksName_render path hf)
  have hlookup : constants.lookup name = none := by
    rw [Option.eq_none_iff_forall_ne_some]
    exact fun literal hl => hnone literal (lookup_constants_eq_some_iff.1 hl)
  rw [hname, renderBelow_eq, List.cons_append,
    operand_of_name (dropBlanks_cons (AtomHead.name hfirst).spec.1 _) hfirst, ← List.cons_append,
    readWord_eq, htake, hdrop, hstring, hlookup] at h
  obtain ⟨⟨found, last⟩, hread, he⟩ := map_eq_ok_iff.1 h
  cases he
  exact readSteps_render hr hf (Nat.le_refl _) hread

end PathDoc.Query

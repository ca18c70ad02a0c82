import PathDoc.Json.Printer
import PathDoc.Json.Reader
import PathDoc.Proofs.Decimal.Digits

/-!
# The texts of JSON numbers

A number is written as the parts that a reader takes it apart into: the text of a numeral in proper
form is read as this numeral, up to where no number goes on (`readNumeral_text`). The text of a
finite floating-point number is one of a numeral in proper form with a point or an exponent
(`exists_numeral_of_isFinite`), so it is never read as an integer, while the text of an integer has
neither and is (`readLexeme_intText`). Whether a floating-point number is read as itself is a
question of rounding only (`readsBack`, `readLexeme_floatChars`).
-/

set_option autoImplicit false

namespace PathDoc.Json

open Decimal (isDigits isDigits_iff natText)

/-! ## Numerals -/

/-- A place where a number does not go on. -/
def BreaksNumber (rest : List Char) : Prop :=
  ∀ c ∈ rest.head?, c.isDigit = false ∧ c ≠ '.' ∧ c ≠ 'e' ∧ c ≠ 'E'

theorem breaksNumber_nil : BreaksNumber [] := nofun

namespace Numeral

/-- The text of the digits after a point. -/
def fractionText : Option (List Char) → List Char
  | none => []
  | some digits => '.' :: digits

/-- The text of an exponent, with its sign. -/
def exponentText : Option (Bool × List Char) → List Char
  | none => []
  | some (negative, digits) => 'e' :: (if negative then '-' else '+') :: digits

/-- The text of a numeral. -/
def text (numeral : Numeral) : List Char :=
  (if numeral.negative then ['-'] else []) ++ numeral.whole ++ fractionText numeral.fraction ++
    exponentText numeral.exponent

/-- Every part of a numeral that is there has a digit, and a number of several digits does not start
with a zero. -/
structure IsProper (numeral : Numeral) : Prop where
  /-- There are digits before the point. -/
  whole : isDigits numeral.whole = true
  /-- A zero in front stands alone. -/
  lead : numeral.whole = ['0'] ∨ numeral.whole.head? ≠ some '0'
  /-- There are digits after the point. -/
  fraction : ∀ digits ∈ numeral.fraction, isDigits digits = true
  /-- There are digits in the exponent. -/
  exponent : ∀ exponent ∈ numeral.exponent, isDigits exponent.2 = true

/-- Whether a numeral has a point or an exponent. -/
def isFractional (numeral : Numeral) : Bool :=
  numeral.fraction.isSome || numeral.exponent.isSome

end Numeral

/-! ## Reading a numeral -/

theorem head?_exponentText {exponent : Option (Bool × List Char)} {rest : List Char}
    (hrest : BreaksNumber rest) :
    ∀ c ∈ (Numeral.exponentText exponent ++ rest).head?, c.isDigit = false ∧ c ≠ '.' := by
  cases exponent with
  | none =>
      intro c hc
      exact ⟨(hrest c hc).1, (hrest c hc).2.1⟩
  | some exponent =>
      rintro c ⟨⟩
      exact ⟨rfl, by decide⟩

theorem head?_fractionText (fraction : Option (List Char)) (exponent : Option (Bool × List Char))
    {rest : List Char} (hrest : BreaksNumber rest) :
    ∀ c ∈ (Numeral.fractionText fraction ++ (Numeral.exponentText exponent ++ rest)).head?,
      c.isDigit = false := by
  cases fraction with
  | none => exact fun c hc => (head?_exponentText hrest c hc).1
  | some digits =>
      rintro c ⟨⟩
      rfl

theorem readExponent_text {exponent : Option (Bool × List Char)}
    (h : ∀ found ∈ exponent, isDigits found.2 = true) {rest : List Char}
    (hrest : BreaksNumber rest) :
    readExponent (Numeral.exponentText exponent ++ rest) = some (exponent, rest) := by
  cases exponent with
  | none =>
      cases rest with
      | nil => rfl
      | cons c rest =>
          -- what follows is neither an e nor an E
          obtain ⟨-, -, hlower, hupper⟩ := hrest c rfl
          rw [Numeral.exponentText, List.nil_append, readExponent,
            if_neg (not_or.2 ⟨hlower, hupper⟩)]
  | some exponent =>
      obtain ⟨negative, digits⟩ := exponent
      obtain ⟨hne, hdigits⟩ := isDigits_iff.1 (h _ rfl)
      -- the text has no digit behind those of the exponent that would be taken along
      obtain ⟨htake, hdrop⟩ := Text.span_append hdigits fun c hc => (hrest c hc).1
      have hsign : readExponentSign ((if negative then '-' else '+') :: (digits ++ rest)) =
          (negative, digits ++ rest) := by
        cases negative <;> rfl
      rw [Numeral.exponentText, List.cons_append, List.cons_append, readExponent,
        if_pos (Or.inl rfl), hsign]
      simp only [htake, hdrop, if_neg hne]

theorem readFraction_text {fraction : Option (List Char)}
    (h : ∀ digits ∈ fraction, isDigits digits = true) {rest : List Char}
    (hrest : ∀ c ∈ rest.head?, c.isDigit = false ∧ c ≠ '.') :
    readFraction (Numeral.fractionText fraction ++ rest) = some (fraction, rest) := by
  cases fraction with
  | none =>
      rw [Numeral.fractionText, List.nil_append, readFraction.eq_def]
      split
      · exact absurd rfl (hrest '.' rfl).2
      · rfl
  | some digits =>
      obtain ⟨hne, hdigits⟩ := isDigits_iff.1 (h _ rfl)
      obtain ⟨htake, hdrop⟩ := Text.span_append hdigits fun c hc => (hrest c hc).1
      rw [Numeral.fractionText, List.cons_append, readFraction]
      simp only [htake, hdrop, if_neg hne]

/-- **A numeral in proper form is read from its text**, up to where no number goes on. -/
theorem readNumeral_text {numeral : Numeral} (h : numeral.IsProper) {rest : List Char}
    (hrest : BreaksNumber rest) : readNumeral (numeral.text ++ rest) = some (numeral, rest) := by
  obtain ⟨negative, whole, fraction, exponent⟩ := numeral
  obtain ⟨hne, hdigits⟩ := isDigits_iff.1 h.whole
  have hsign : readSign (Numeral.text ⟨negative, whole, fraction, exponent⟩ ++ rest) =
      (negative, whole ++ (Numeral.fractionText fraction ++
        (Numeral.exponentText exponent ++ rest))) := by
    simp only [Numeral.text, List.append_assoc]
    cases negative with
    | true => rfl
    | false =>
        -- a sign is no digit
        rw [if_neg Bool.false_ne_true, List.nil_append, readSign.eq_def]
        split
        · rename_i tail hminus
          cases whole with
          | nil => exact absurd rfl hne
          | cons c whole =>
              cases (List.cons.inj hminus).1
              cases hdigits '-' List.mem_cons_self
        · rfl
  obtain ⟨htake, hdrop⟩ := Text.span_append hdigits (head?_fractionText fraction exponent hrest)
  rw [readNumeral, hsign]
  simp only [htake, hdrop]
  split
  · exact absurd rfl hne
  · rename_i c tail
    rcases h.lead with hlead | hlead
    · cases hlead
    · exact absurd rfl hlead
  · rw [readFraction_text h.fraction (head?_exponentText hrest), Option.bind_eq_bind,
      Option.bind_some, readExponent_text h.exponent hrest]
    rfl

/-! ## Floating-point numbers -/

namespace Numeral

/-- Digits are filled up with zeros. -/
theorem isDigits_rightpad {c : Char} {digits : List Char} (h : ∀ d ∈ c :: digits, d.isDigit = true)
    (places : Nat) :
    ∃ whole, ((c :: digits).take (places + 1)).rightpad (places + 1) '0' = c :: whole ∧
      isDigits (c :: whole) = true := by
  refine ⟨_, rfl, isDigits_iff.2 ⟨List.cons_ne_nil _ _, ?_⟩⟩
  intro d hd
  have hm : d ∈ (c :: digits).take (places + 1) ++
      List.replicate (places + 1 - ((c :: digits).take (places + 1)).length) '0' := hd
  rcases List.mem_append.1 hm with hd | hd
  · exact h d (List.mem_of_mem_take hd)
  · rw [List.eq_of_mem_replicate hd]
    rfl

/-- Something stands behind the point, a zero if there are no more digits. -/
theorem exists_fractionText {digits : List Char} (h : ∀ d ∈ digits, d.isDigit = true) :
    ∃ fraction, isDigits fraction = true ∧
      Decimal.fractionText numberLayout digits = '.' :: fraction := by
  rw [Decimal.fractionText]
  split
  · exact ⟨['0'], rfl, rfl⟩
  · rename_i hne
    exact ⟨digits, isDigits_iff.2 ⟨hne, h⟩, rfl⟩

/-- Digits without a zero in front, written without an exponent. -/
theorem exists_positional {c : Char} {digits : List Char} (hc : c ≠ '0')
    (h : ∀ d ∈ c :: digits, d.isDigit = true) (exponent : Int) :
    ∃ numeral : Numeral, numeral.IsProper ∧ numeral.isFractional = true ∧
      numeral.negative = false ∧
      Decimal.positionalText numberLayout (c :: digits) exponent = numeral.text := by
  rw [Decimal.positionalText]
  split
  · -- a point within the digits or behind them, after zeros that fill the gap
    obtain ⟨whole, hpadded, hwhole⟩ := isDigits_rightpad h exponent.toNat
    have hlead : (c :: whole).head? ≠ some '0' := fun hzero => hc (Option.some.inj hzero)
    have hdropped : ∀ d ∈ (c :: digits).drop (exponent.toNat + 1), d.isDigit = true :=
      fun d hd => h d (List.mem_of_mem_drop hd)
    obtain ⟨fraction, hfraction, htext⟩ := exists_fractionText hdropped
    refine ⟨⟨false, c :: whole, some fraction, none⟩, ⟨hwhole, Or.inr hlead, ?_, nofun⟩, rfl, rfl,
      ?_⟩
    · rintro found ⟨⟩
      exact hfraction
    · dsimp only
      rw [hpadded, htext]
      simp [text, fractionText, exponentText]
  · -- a point before all digits: a zero in front, and zeros between
    have hfraction :
        isDigits (List.replicate (-exponent - 1).toNat '0' ++ c :: digits) = true := by
      refine isDigits_iff.2 ⟨by simp, List.forall_mem_append.2 ⟨?_, h⟩⟩
      intro d hd
      rw [List.eq_of_mem_replicate hd]
      rfl
    refine ⟨⟨false, ['0'], some (List.replicate (-exponent - 1).toNat '0' ++ c :: digits), none⟩,
      ⟨rfl, Or.inl rfl, ?_, nofun⟩, rfl, rfl, ?_⟩
    · rintro found ⟨⟩
      exact hfraction
    · simp [text, fractionText, exponentText]

/-- Digits without a zero in front, written with an exponent. -/
theorem exists_scientific {c : Char} {digits : List Char} (hc : c ≠ '0')
    (h : ∀ d ∈ c :: digits, d.isDigit = true) (exponent : Int) :
    ∃ numeral : Numeral, numeral.IsProper ∧ numeral.isFractional = true ∧
      numeral.negative = false ∧
      Decimal.scientificText (c :: digits) exponent = numeral.text := by
  obtain ⟨hfirst, hrest⟩ := List.forall_mem_cons.1 h
  have hlead : [c].head? ≠ some '0' := fun hzero => hc (Option.some.inj hzero)
  -- the exponent has a sign in any case
  have hexponent : ∃ found : Bool × List Char, isDigits found.2 = true ∧
      'e' :: (if exponent < 0 then Decimal.intText exponent else '+' :: Decimal.intText exponent) =
        exponentText (some found) := by
    cases exponent with
    | ofNat n => exact ⟨(false, natText n), Decimal.isDigits_natText n, rfl⟩
    | negSucc n =>
        rw [if_pos (Int.negSucc_lt_zero n)]
        exact ⟨(true, natText (n + 1)), Decimal.isDigits_natText (n + 1), rfl⟩
  obtain ⟨found, hfound, htext⟩ := hexponent
  refine ⟨⟨false, [c], if digits = [] then none else some digits, some found⟩,
    ⟨isDigits_iff.2 ⟨List.cons_ne_nil _ _, List.forall_mem_singleton.2 hfirst⟩, Or.inr hlead, ?_,
      ?_⟩, ?_, rfl, ?_⟩
  · intro fraction hm
    dsimp only at hm
    split at hm
    · cases hm
    · rename_i hne
      cases hm
      exact isDigits_iff.2 ⟨hne, hrest⟩
  · rintro exponent ⟨⟩
    exact hfound
  · rw [isFractional, Option.isSome_some, Bool.or_true]
  · rw [Decimal.scientificText, htext, text, List.take_succ_cons, List.take_zero,
      List.drop_succ_cons, List.drop_zero]
    dsimp only
    split <;> rfl

/-- **The text of a magnitude is one of a numeral with a point or an exponent.** -/
theorem exists_magnitude (x : Decimal.Magnitude) :
    ∃ numeral : Numeral, numeral.IsProper ∧ numeral.isFractional = true ∧
      numeral.negative = false ∧ Decimal.magnitudeText numberLayout x = numeral.text := by
  rw [Decimal.magnitudeText]
  split
  · -- zero is written as `0.0`
    refine ⟨⟨false, ['0'], some ['0'], none⟩, ⟨rfl, Or.inl rfl, ?_, nofun⟩, rfl, rfl, rfl⟩
    rintro found ⟨⟩
    rfl
  · rename_i hx
    have hhead := Decimal.head?_natText_ne_zero
      (Decimal.shortest_digits_ne_zero numberLayout.tie hx)
    have hall := isDigits_iff.1
      (Decimal.isDigits_natText (Decimal.shortest numberLayout.tie x).digits)
    dsimp only
    generalize (Decimal.shortest numberLayout.tie x).exponent +
      (natText (Decimal.shortest numberLayout.tie x).digits).length - 1 = exponent
    cases hdigits : natText (Decimal.shortest numberLayout.tie x).digits with
    | nil => exact absurd hdigits hall.1
    | cons c digits =>
        -- the shortest digits begin with no zero, and dropping zeros at the end keeps the first
        -- digit
        have hc : c ≠ '0' := by
          rintro rfl
          exact hhead (by rw [hdigits]; rfl)
        obtain ⟨kept, hkept⟩ := Decimal.exists_dropTrailingZeros_cons hc digits
        have hmem : ∀ d ∈ c :: kept, d.isDigit = true := by
          rw [← hkept, ← hdigits]
          exact fun d hd => Decimal.isDigit_of_mem_dropTrailingZeros hall.2 hd
        rw [hkept]
        split
        · exact exists_positional hc hmem exponent
        · exact exists_scientific hc hmem exponent

end Numeral

/-- **A finite number is written as a numeral with a point or an exponent.** -/
theorem exists_numeral_of_isFinite {x : Float} (h : x.isFinite = true) :
    ∃ numeral : Numeral, numeral.IsProper ∧ numeral.isFractional = true ∧
      floatChars x = numeral.text := by
  -- what is finite is neither of the numbers that have names
  have hstatus : x.isNaN = false ∧ x.isInf = false := by
    rw [Float.isFinite, Float.Model.isFinite] at h
    rw [Float.isNaN, Float.isInf, Float.Model.isNaN, Float.Model.isInf]
    cases hx : x.toModel.unpack with
    | notANumber => rw [hx] at h; cases h
    | infinity sign => rw [hx] at h; cases h
    | zero sign => exact ⟨rfl, rfl⟩
    | finite sign m e hm => exact ⟨rfl, rfl⟩
  obtain ⟨hnan, hinf⟩ := hstatus
  obtain ⟨numeral, hproper, hfractional, hpositive, htext⟩ :=
    Numeral.exists_magnitude (Decimal.Magnitude.ofBits x.toBits)
  rw [floatChars, if_pos h, Decimal.floatText, if_neg (Bool.eq_false_iff.1 hnan)]
  simp only [if_neg (Bool.eq_false_iff.1 hinf), htext]
  split
  · -- a sign in front changes nothing else
    refine ⟨{ numeral with negative := true }, ⟨hproper.whole, hproper.lead, hproper.fraction,
      hproper.exponent⟩, hfractional, ?_⟩
    simp [Numeral.text, hpositive]
  · exact ⟨numeral, hproper, hfractional, rfl⟩

/-! ## Numbers as lexemes -/

namespace Numeral

/-- The text of a numeral starts with a sign or a digit. -/
theorem exists_text_cons {numeral : Numeral} (h : numeral.IsProper) :
    ∃ c tail, numeral.text = c :: tail ∧ (c = '-' ∨ c.isDigit = true) := by
  obtain ⟨negative, whole, fraction, exponent⟩ := numeral
  obtain ⟨hne, hdigits⟩ := isDigits_iff.1 h.whole
  cases negative with
  | true => exact ⟨'-', _, rfl, Or.inl rfl⟩
  | false =>
      cases whole with
      | nil => exact absurd rfl hne
      | cons c whole => exact ⟨c, _, rfl, Or.inr (hdigits c List.mem_cons_self)⟩

end Numeral

/-- What starts with a sign or a digit is read as a number. -/
theorem readLexeme_number {c : Char} (hc : c = '-' ∨ c.isDigit = true) (tail : List Char) :
    readLexeme (c :: tail) =
      (readNumeral (c :: tail)).bind fun found =>
        found.1.value?.map fun value => (.leaf value, found.2) := by
  -- none of the characters that start another lexeme
  have hne : ∀ d : Char, d ≠ '-' → d.isDigit = false → c ≠ d := by
    rintro d hminus hdigit rfl
    rcases hc with rfl | hc
    · exact hminus rfl
    · exact Bool.false_ne_true (hdigit.symm.trans hc)
  rw [readLexeme.eq_def]
  split
  case h_12 =>
    rw [Option.bind_eq_bind]
    congr 1
    funext found
    rw [Option.bind_eq_bind, Option.map_eq_bind]
    rfl
  case h_1 h => cases h
  all_goals
    rename_i h
    exact absurd (List.cons.inj h).1 (hne _ (by decide) (by decide))

/-- **A numeral in proper form is one lexeme.** -/
theorem readLexeme_text {numeral : Numeral} (h : numeral.IsProper) {value : Json}
    (hvalue : numeral.value? = some value) {rest : List Char} (hrest : BreaksNumber rest) :
    readLexeme (numeral.text ++ rest) = some (.leaf value, rest) := by
  have hread := readNumeral_text h hrest
  obtain ⟨c, tail, htext, hc⟩ := Numeral.exists_text_cons h
  rw [htext, List.cons_append] at hread ⊢
  rw [readLexeme_number hc, hread, Option.bind_some, hvalue]
  rfl

/-- **An integer is read from its text** if it fits a word or an unsigned word. -/
theorem readLexeme_intText {n : Int} (hlow : -0x8000000000000000 ≤ n)
    (hhigh : n < 0x10000000000000000) {rest : List Char} (hrest : BreaksNumber rest) :
    readLexeme (Decimal.intText n ++ rest) = some (.leaf (.int n), rest) := by
  have hproper : ∀ negative n, Numeral.IsProper ⟨negative, natText n, none, none⟩ := by
    intro negative n
    refine ⟨Decimal.isDigits_natText n, ?_, nofun, nofun⟩
    -- a zero in front is the whole number
    by_cases hzero : n = 0
    · exact Or.inl (by rw [hzero]; rfl)
    · exact Or.inr (Decimal.head?_natText_ne_zero hzero)
  have htext : ∀ negative n, Numeral.text ⟨negative, natText n, none, none⟩ =
      (if negative then ['-'] else []) ++ natText n := by
    intro negative n
    rw [Numeral.text, Numeral.fractionText, Numeral.exponentText, List.append_nil, List.append_nil]
  cases n with
  | ofNat n =>
      have hfits : n < 0x10000000000000000 := by
        rw [Int.ofNat_eq_natCast] at hhigh
        omega
      have hvalue : Numeral.value? ⟨false, natText n, none, none⟩ = some (.int n) := by
        simp [Numeral.value?, Decimal.natValue_natText, hfits]
      have hread := readLexeme_text (hproper false n) hvalue hrest
      rwa [htext] at hread
  | negSucc n =>
      -- one more than the greatest word is possible below zero
      have hfits : n + 1 ≤ 0x8000000000000000 := by omega
      have hvalue : Numeral.value? ⟨true, natText (n + 1), none, none⟩ =
          some (.int (Int.negSucc n)) := by
        simp [Numeral.value?, Decimal.natValue_natText, hfits]
        omega
      have hread := readLexeme_text (hproper true (n + 1)) hvalue hrest
      rwa [htext] at hread

/-- Whether the decimal that is written for a number is rounded to the number again. A reader that
computes it with one multiplication or division may be off by the last place. -/
def readsBack (x : Float) : Bool :=
  (readNumeral (floatChars x)).all fun found =>
    decide (found.1.magnitude?.map (fun y => if found.1.negative then -y else y) = some x)

/-- **A finite number is read from its text**, as a floating-point number, if it is rounded to
itself. -/
theorem readLexeme_floatChars {x : Float} (hfinite : x.isFinite = true) (h : readsBack x = true)
    {rest : List Char} (hrest : BreaksNumber rest) :
    readLexeme (floatChars x ++ rest) = some (.leaf (.float x), rest) := by
  obtain ⟨numeral, hproper, hfractional, htext⟩ := exists_numeral_of_isFinite hfinite
  have hread := readNumeral_text hproper breaksNumber_nil
  rw [List.append_nil] at hread
  rw [readsBack, htext, hread, Option.all_some, decide_eq_true_eq] at h
  have hvalue : numeral.value? = some (.float x) := by
    have hpoint : (numeral.fraction.isNone && numeral.exponent.isNone) = false := by
      rw [Numeral.isFractional] at hfractional
      cases hf : numeral.fraction <;> cases he : numeral.exponent <;> simp_all
    rw [Numeral.value?, hpoint, if_neg Bool.false_ne_true, Numeral.toFloat?]
    obtain ⟨y, hy, hx⟩ := Option.map_eq_some_iff.1 h
    rw [hy, Option.map_some, hx]
  rw [htext]
  exact readLexeme_text hproper hvalue hrest

end PathDoc.Json

/-!
# Whole numbers in decimal

Whole numbers are written without a leading zero and read back digit by digit. `readWord?` accepts
an optional minus sign, at least one digit and nothing else, and refuses numbers outside the range
of a 64-bit word.
-/

set_option autoImplicit false

namespace PathDoc.Decimal

/-- The decimal digits of a natural number. -/
def natText (n : Nat) : List Char :=
  Nat.toDigits 10 n

/-- The decimal text of an integer. -/
def intText : Int → List Char
  | .ofNat n => natText n
  | .negSucc n => '-' :: natText (n + 1)

/-- The decimal text of a word. -/
def wordText (word : Int64) : String :=
  String.ofList (intText word.toInt)

/-- The value of a decimal digit. -/
def digitValue (c : Char) : Nat :=
  c.toNat - '0'.toNat

/-- The number that a list of decimal digits denotes. -/
def natValue (digits : List Char) : Nat :=
  digits.foldl (fun total c => 10 * total + digitValue c) 0

/-- The word equal to an integer, if there is one. -/
def word? (n : Int) : Option Int64 :=
  if -0x8000000000000000 ≤ n ∧ n < 0x8000000000000000 then some (Int64.ofInt n) else none

/-- Whether a text consists of one or more decimal digits. -/
def isDigits (text : List Char) : Bool :=
  !text.isEmpty && text.all Char.isDigit

/-- Reads a word: an optional minus sign and one or more digits. -/
def readWord? : List Char → Option Int64
  | '-' :: digits => if isDigits digits then word? (-(natValue digits : Int)) else none
  | digits => if isDigits digits then word? (natValue digits : Int) else none

/-- **A word is recovered from its integer value.** -/
theorem word?_toInt (word : Int64) : word? word.toInt = some word := by
  have hlo := Int64.le_toInt word
  have hhi := Int64.toInt_lt word
  simp only [word?, Int64.ofInt_toInt]
  rw [if_pos (by omega)]

/-- A word that equals an integer has its value. -/
theorem toInt_of_word? {n : Int} {word : Int64} (h : word? n = some word) : word.toInt = n := by
  unfold word? at h
  split at h
  · rename_i hn
    cases h
    exact Int64.toInt_ofInt_of_le hn.1 hn.2
  · cases h

/-- The text of a number is made of digits. -/
theorem isDigits_natText (n : Nat) : isDigits (natText n) = true := by
  rw [isDigits, Bool.and_eq_true, Bool.not_eq_true', List.isEmpty_eq_false_iff, List.all_eq_true]
  exact ⟨Nat.toDigits_ne_nil, fun c hc => Nat.isDigit_of_mem_toDigits (by decide) (by decide) hc⟩

/-- **A number is read back from its text.** -/
theorem natValue_natText (n : Nat) : natValue (natText n) = n :=
  Nat.ofDigitChars_ten_toDigits

/-- The text of a number does not begin with a sign. -/
theorem readWord?_natText (n : Nat) : readWord? (natText n) = word? n := by
  have hd := isDigits_natText n
  have hv := natValue_natText n
  generalize natText n = text at hd hv
  unfold readWord?
  split
  · rename_i digits
    simp [isDigits] at hd
  · rw [if_pos hd, hv]

/-- **An integer is read back from its text if it is a word.** -/
theorem readWord?_intText (n : Int) : readWord? (intText n) = word? n := by
  cases n with
  | ofNat n => exact readWord?_natText n
  | negSucc n =>
    rw [intText, readWord?, if_pos (isDigits_natText _), natValue_natText]
    rfl

/-- **Different integers have different texts.** -/
theorem intText_inj {m n : Int} (h : intText m = intText n) : m = n := by
  -- no sign is a digit
  have hsign : ∀ i j : Nat, natText i ≠ '-' :: natText j := by
    intro i j hij
    have hd := isDigits_natText i
    rw [hij] at hd
    simp [isDigits] at hd
  cases m with
  | ofNat m =>
    cases n with
    | ofNat n =>
      have hv := congrArg natValue (show natText m = natText n from h)
      rw [natValue_natText, natValue_natText] at hv
      rw [hv]
    | negSucc n => exact absurd h (hsign m (n + 1))
  | negSucc m =>
    cases n with
    | ofNat n => exact absurd h.symm (hsign n (m + 1))
    | negSucc n =>
      have hv := congrArg natValue (List.cons.inj h).2
      rw [natValue_natText, natValue_natText] at hv
      rw [Nat.succ.inj hv]

end PathDoc.Decimal

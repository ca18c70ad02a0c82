import PathDoc.Decimal.Whole
import PathDoc.Json.Value

/-!
# Reading JSON numbers

A number without point and exponent that fits a word, or a non-negative one that fits an unsigned
word, is an integer. All others are floating-point numbers, computed from the longest run of leading
digits that fits an unsigned word and one power of ten (several when the exponent falls short of
-308). A number that grows beyond all doubles is refused.
-/

set_option autoImplicit false

namespace PathDoc.Json

/-- The parts of a written number. -/
structure Numeral where
  /-- Whether a minus sign comes first. -/
  negative : Bool
  /-- The digits before the point. -/
  whole : List Char
  /-- The digits after the point, if there is one. -/
  fraction : Option (List Char)
  /-- The sign and the digits of the exponent, if there is one. -/
  exponent : Option (Bool × List Char)

/-! ## Parts -/

/-- Reads an optional minus sign. -/
def readSign : List Char → Bool × List Char
  | '-' :: rest => (true, rest)
  | text => (false, text)

/-- Reads an optional point with at least one digit. -/
def readFraction : List Char → Option (Option (List Char) × List Char)
  | '.' :: rest =>
    if rest.takeWhile Char.isDigit = [] then none
    else some (some (rest.takeWhile Char.isDigit), rest.dropWhile Char.isDigit)
  | text => some (none, text)

/-- Reads an optional sign of an exponent. -/
def readExponentSign : List Char → Bool × List Char
  | '+' :: rest => (false, rest)
  | '-' :: rest => (true, rest)
  | text => (false, text)

/-- Reads an optional exponent with at least one digit. -/
def readExponent : List Char → Option (Option (Bool × List Char) × List Char)
  | c :: rest =>
    if c = 'e' ∨ c = 'E' then
      let (negative, rest) := readExponentSign rest
      if rest.takeWhile Char.isDigit = [] then none
      else some (some (negative, rest.takeWhile Char.isDigit), rest.dropWhile Char.isDigit)
    else some (none, c :: rest)
  | [] => some (none, [])

/-- Reads the parts of a number. A number of several digits does not start with a zero. -/
def readNumeral (text : List Char) : Option (Numeral × List Char) :=
  let (negative, text) := readSign text
  match text.takeWhile Char.isDigit with
  | [] => none
  | '0' :: _ :: _ => none
  | whole => do
    let (fraction, rest) ← readFraction (text.dropWhile Char.isDigit)
    let (exponent, rest) ← readExponent rest
    some (⟨negative, whole, fraction, exponent⟩, rest)

/-! ## Values -/

/-- The greatest exponent that is computed with. -/
def maxExponent : Nat := 0x7fffffff

/-- A power of ten as a double. -/
def powerOfTen (exponent : Nat) : Float :=
  Float.ofScientific 1 false exponent

/-- Extends a number by leading digits as long as it fits an unsigned word; gives the digits that
were left. -/
def takeSignificant (start : Nat) : List Char → Nat × List Char
  | [] => (start, [])
  | c :: rest =>
    if 10 * start + Decimal.digitValue c < 0x10000000000000000 then
      takeSignificant (10 * start + Decimal.digitValue c) rest
    else (start, c :: rest)

/-- Divides a double by a power of ten, at most 308 places at a time. -/
def shrink (x : Float) (places : Nat) : Float :=
  if places ≤ 308 then x / powerOfTen places
  else if x == 0 then x
  else shrink (x / powerOfTen 308) (places - 308)
termination_by places

/-- The double near `significand * 10 ^ exponent`, unless it is infinite. -/
def scale? (significand : Nat) (exponent : Int) : Option Float :=
  let x := Float.ofNat significand
  if exponent < 0 then some (shrink x (-exponent).toNat)
  else if exponent ≤ 308 then
    let scaled := x * powerOfTen exponent.toNat
    if scaled.isInf then none else some scaled
  else if significand = 0 then some x
  else none

namespace Numeral

/-- The magnitude of a number as a double. -/
def magnitude? (numeral : Numeral) : Option Float :=
  let fraction := numeral.fraction.getD []
  let (head, wholeLeft) := takeSignificant 0 numeral.whole
  let (significand, fractionLeft) := takeSignificant head fraction
  let shift : Int := (wholeLeft.length : Int) - ((fraction.length - fractionLeft.length : Nat) : Int)
  match numeral.exponent with
  | none => scale? significand shift
  | some (negative, digits) =>
    let exponent := Decimal.natValue digits
    if maxExponent < exponent then
      if significand ≠ 0 ∧ !negative then none else some 0
    else scale? significand (if negative then shift - exponent else shift + exponent)

/-- The number as a double. -/
def toFloat? (numeral : Numeral) : Option Json :=
  numeral.magnitude?.map fun x => .float (if numeral.negative then -x else x)

/-- The value of a written number. -/
def value? (numeral : Numeral) : Option Json :=
  let n := Decimal.natValue numeral.whole
  if numeral.fraction.isNone && numeral.exponent.isNone then
    if numeral.negative then
      if n ≠ 0 ∧ n ≤ 0x8000000000000000 then some (.int (-(n : Int))) else numeral.toFloat?
    else if n < 0x10000000000000000 then some (.int n) else numeral.toFloat?
  else numeral.toFloat?

end Numeral

/-! ## Lengths -/

/-- A sign leaves no longer text. -/
theorem readSign_length (text : List Char) : (readSign text).2.length ≤ text.length := by
  unfold readSign
  split <;> simp

/-- A fraction leaves no longer text. -/
theorem readFraction_length {text rest : List Char} {fraction : Option (List Char)}
    (h : readFraction text = some (fraction, rest)) : rest.length ≤ text.length := by
  unfold readFraction at h
  split at h
  · split at h
    · cases h
    · cases h
      have := (List.dropWhile_sublist (p := Char.isDigit) (l := ‹List Char›)).length_le
      simp only [List.length_cons]
      omega
  · cases h
    exact Nat.le_refl _

/-- The sign of an exponent leaves no longer text. -/
theorem readExponentSign_length (text : List Char) :
    (readExponentSign text).2.length ≤ text.length := by
  unfold readExponentSign
  split <;> simp

/-- An exponent leaves no longer text. -/
theorem readExponent_length {text rest : List Char} {exponent : Option (Bool × List Char)}
    (h : readExponent text = some (exponent, rest)) : rest.length ≤ text.length := by
  unfold readExponent at h
  split at h
  · rename_i c tail
    split at h
    · have hs := readExponentSign_length tail
      simp only at h
      split at h
      · cases h
      · cases h
        have := (List.dropWhile_sublist (p := Char.isDigit)
          (l := (readExponentSign tail).2)).length_le
        simp only [List.length_cons]
        omega
    · cases h
      exact Nat.le_refl _
  · cases h
    exact Nat.le_refl _

/-- **A number takes at least one character.** -/
theorem readNumeral_length {text rest : List Char} {numeral : Numeral}
    (h : readNumeral text = some (numeral, rest)) : rest.length < text.length := by
  unfold readNumeral at h
  have hs := readSign_length text
  generalize readSign text = signed at h hs
  obtain ⟨negative, body⟩ := signed
  have happ := congrArg List.length (List.takeWhile_append_dropWhile (p := Char.isDigit) (l := body))
  rw [List.length_append] at happ
  simp only at h hs
  split at h
  · cases h
  · cases h
  · rename_i hne _
    simp only [Option.bind_eq_bind, Option.bind_eq_some_iff] at h
    obtain ⟨⟨fraction, afterFraction⟩, hf, ⟨exponent, afterExponent⟩, he, h⟩ := h
    have h1 := readFraction_length hf
    have h2 := readExponent_length he
    cases h
    simp only at h2 ⊢
    -- the digits in front are required, whatever follows them
    have hpos : 0 < (body.takeWhile Char.isDigit).length :=
      List.length_pos_iff.2 fun hnil => hne hnil
    omega

end PathDoc.Json

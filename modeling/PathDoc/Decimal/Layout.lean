import PathDoc.Decimal.Shortest

/-!
# The text of a floating-point number

The digits of a number come from its shortest decimal. A layout says how they are written: for which
decimal exponents the number stands without an exponent, whether a whole number keeps a point, and
which of two equally near decimals it is. `plain` is the layout of messages, which never writes an
exponent.
-/

set_option autoImplicit false

namespace PathDoc.Decimal

/-- How the digits of a number are laid out. -/
structure Layout where
  /-- The decimal exponents for which no exponent is written. -/
  positional : Int → Bool
  /-- Whether a whole number written without exponent ends in a point and a zero. -/
  keepsPoint : Bool
  /-- Which of two equally near decimals is written. -/
  tie : Tie

/-- Numbers in messages: no exponent, no point after a whole number, and ties go up. -/
def plain : Layout where
  positional _ := true
  keepsPoint := false
  tie := .up

/-- A list of digits without its trailing zeros. -/
def dropTrailingZeros (digits : List Char) : List Char :=
  (digits.reverse.dropWhile (· == '0')).reverse

/-- The digits after the point, with the point; what stands for none is up to the layout. -/
def fractionText (layout : Layout) (digits : List Char) : List Char :=
  if digits = [] then if layout.keepsPoint then ['.', '0'] else [] else '.' :: digits

/-- Writes `d.ddd * 10 ^ exponent`, given its digits, without an exponent. -/
def positionalText (layout : Layout) (digits : List Char) (exponent : Int) : List Char :=
  if 0 ≤ exponent then
    let places := exponent.toNat + 1
    (digits.take places).rightpad places '0' ++ fractionText layout (digits.drop places)
  else '0' :: '.' :: List.replicate (-exponent - 1).toNat '0' ++ digits

/-- Writes `d.ddd * 10 ^ exponent`, given its digits, with a signed exponent. -/
def scientificText (digits : List Char) (exponent : Int) : List Char :=
  let lead := digits.take 1
  let rest := digits.drop 1
  lead ++ (if rest = [] then [] else '.' :: rest) ++ 'e' ::
    (if exponent < 0 then intText exponent else '+' :: intText exponent)

/-- Writes a magnitude. -/
def magnitudeText (layout : Layout) (x : Magnitude) : List Char :=
  if x.mantissa = 0 then '0' :: fractionText layout []
  else
    let decimal := shortest layout.tie x
    let all := natText decimal.digits
    let exponent := decimal.exponent + all.length - 1
    let digits := dropTrailingZeros all
    if layout.positional exponent then positionalText layout digits exponent
    else scientificText digits exponent

/-- Writes a double; `NaN` and the infinities have names of their own. -/
def floatText (layout : Layout) (x : Float) : List Char :=
  if x.isNaN then ['N', 'a', 'N']
  else
    let body :=
      if x.isInf then ['i', 'n', 'f'] else magnitudeText layout (Magnitude.ofBits x.toBits)
    if x.toBits.toNat / 0x8000000000000000 = 1 then '-' :: body else body

end PathDoc.Decimal

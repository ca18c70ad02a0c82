import PathDoc.Decimal.Whole

/-!
# The shortest decimal of a floating-point number

A finite nonzero double is `m * 2 ^ q`. The reals that round to it form an interval around it, whose
ends belong to it when `m` is even. `shortest` gives the decimal with the fewest digits inside the
interval, and of several such the nearest one; two may be equally near, and then the writer says
which of them it takes (`Tie`). Everything is computed on natural numbers: the value, the ends of
the interval and a decimal grid are brought to a common unit.
-/

set_option autoImplicit false

namespace PathDoc.Decimal

/-- A finite nonzero magnitude `mantissa * 2 ^ exponent`; `narrow` says that the next smaller double
is only half as far away as the next larger one. -/
structure Magnitude where
  /-- The integer factor. -/
  mantissa : Nat
  /-- The power of two. -/
  exponent : Int
  /-- Whether the gap below is half the gap above. -/
  narrow : Bool

/-- A decimal `digits * 10 ^ exponent`. -/
structure Scaled where
  /-- The integer factor. -/
  digits : Nat
  /-- The power of ten. -/
  exponent : Int

/-- Which of two equally near decimals to take. -/
inductive Tie where
  /-- The one whose last digit is even. -/
  | toEven
  /-- The greater one. -/
  | up
  deriving DecidableEq

/-- The magnitude stored in the bits of a finite double; its mantissa is zero for both zeros. -/
def Magnitude.ofBits (bits : UInt64) : Magnitude :=
  let fraction : Nat := bits.toNat % 0x10000000000000
  let biased : Nat := bits.toNat / 0x10000000000000 % 0x800
  if biased = 0 then ⟨fraction, -1074, false⟩
  else ⟨0x10000000000000 + fraction, (biased : Int) - 1075, fraction == 0 && biased != 1⟩

/-- The common unit of a magnitude and the grid of multiples of `10 ^ k`: a quarter of the last
binary place is `fst` units, a step of the grid is `snd` units. -/
def scales (x : Magnitude) (k : Int) : Nat × Nat :=
  (Nat.pow 2 (x.exponent - 2).toNat * Nat.pow 10 (-k).toNat,
    Nat.pow 2 (2 - x.exponent).toNat * Nat.pow 10 k.toNat)

/-- Whether the point `d` of the grid lies in the interval of the reals that round to `x`. -/
def rounds (x : Magnitude) (k : Int) (d : Nat) : Bool :=
  let (quarter, step) := scales x k
  let below := (4 * x.mantissa - if x.narrow then 1 else 2) * quarter
  let above := (4 * x.mantissa + 2) * quarter
  if x.mantissa % 2 = 0 then below ≤ d * step && d * step ≤ above
  else below < d * step && d * step < above

/-- The last point of the grid that is not above `x`. -/
def floorOn (x : Magnitude) (k : Int) : Nat :=
  let (quarter, step) := scales x k
  4 * x.mantissa * quarter / step

/-- Whether a tie goes to the grid point below. -/
def Tie.takesLower (low : Nat) : Tie → Bool
  | toEven => low % 2 == 0
  | up => false

/-- Whether the grid point below `x` is to be taken and not the one above: it is nearer, or equally
near and the tie goes down. -/
def lowerIsNearer (tie : Tie) (x : Magnitude) (k : Int) : Bool :=
  let (quarter, step) := scales x k
  let down := 4 * x.mantissa * quarter - floorOn x k * step
  let up := (floorOn x k + 1) * step - 4 * x.mantissa * quarter
  down < up || (down == up && tie.takesLower (floorOn x k))

/-- The neighbour of `x` on the grid that rounds to `x`, the nearer one if both do. -/
def hit? (tie : Tie) (x : Magnitude) (k : Int) : Option Nat :=
  let low := floorOn x k
  match rounds x k low && low != 0, rounds x k (low + 1) with
  | true, true => some (if lowerIsNearer tie x k then low else low + 1)
  | true, false => some low
  | false, true => some (low + 1)
  | false, false => none

/-- The first hit on the grids of falling powers of ten, at most `count` of them. -/
def firstHit (tie : Tie) (x : Magnitude) : Nat → Int → Scaled
  | 0, k => ⟨floorOn x k, k⟩
  | count + 1, k =>
    match hit? tie x k with
    | some d => ⟨d, k⟩
    | none => firstHit tie x count (k - 1)

/-- A power of ten above `x`: the number of digits of its integer part, or of the integer part of
its inverse. -/
def powerAbove (x : Magnitude) : Int :=
  let (quarter, step) := scales x 0
  let value := 4 * x.mantissa * quarter
  if step ≤ value then ((natText (value / step)).length : Int)
  else 1 - ((natText (step / value)).length : Int)

/-- The shortest decimal that rounds to `x`; seventeen digits always suffice. -/
def shortest (tie : Tie) (x : Magnitude) : Scaled :=
  firstHit tie x 17 (powerAbove x - 1)

end PathDoc.Decimal

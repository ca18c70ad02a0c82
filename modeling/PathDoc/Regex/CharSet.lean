import PathDoc.Text.Blank
import PathDoc.Text.Case
import PathDoc.Text.Word

/-!
# Sets of characters in patterns

A set is kept as its ranges of code points in rising order, none of them empty and with a gap
between each one and the next. `CharSet.insert` adds a range and keeps this form, and the other
operations build on it. `fold` closes a set under case variants; `CharSet.holds` decides membership.
-/

set_option autoImplicit false

namespace PathDoc.Regex

open Text

/-- A set of characters. -/
structure CharSet where
  /-- Its ranges of code points. -/
  ranges : Ranges
  /-- They are in rising order and apart from each other. -/
  rising : ranges.isRising = true
  deriving DecidableEq

namespace CharSet

/-- Whether a character belongs to a set. -/
def holds (set : CharSet) (c : Char) : Bool :=
  set.ranges.holds c.toNat

/-- No characters. -/
def none : CharSet := ⟨[], rfl⟩

/-- Adds the code points from `low` to `high`. -/
def insert (set : CharSet) (low high : Nat) (h : low ≤ high) : CharSet :=
  ⟨set.ranges.insert low high, Ranges.isRising_insert set.rising h⟩

/-- Adds the code points of some ranges. -/
def insertAll (set : CharSet) (ranges : Ranges) : CharSet :=
  ranges.foldr
    (fun range set => if h : range.1 ≤ range.2 then set.insert range.1 range.2 h else set) set

/-- The set of the code points of some ranges. -/
def ofRanges (ranges : Ranges) : CharSet := none.insertAll ranges

/-- The set of some code points. -/
def ofCodes (codes : List Nat) : CharSet :=
  codes.foldr (fun code set => set.insert code code (Nat.le_refl code)) none

/-- The set of one character. -/
def single (c : Char) : CharSet := none.insert c.toNat c.toNat (Nat.le_refl _)

/-- The characters of a range. -/
def range (low high : Char) : CharSet := ofRanges [(low.toNat, high.toNat)]

/-- The decimal digits of all scripts. -/
def digits : CharSet := ⟨digitRanges, by decide +kernel⟩

/-- The blanks. -/
def blanks : CharSet := ⟨blankRanges, by decide +kernel⟩

/-- The word characters. -/
def words : CharSet := ⟨wordRanges, by decide +kernel⟩

/-- The characters of either set. -/
def union (a b : CharSet) : CharSet := b.insertAll a.ranges

/-- The characters of both sets. -/
def intersection (a b : CharSet) : CharSet := ofRanges (a.ranges.intersection b.ranges)

/-- The characters outside a set. -/
def complement (a : CharSet) : CharSet := ofRanges a.ranges.complement

/-- The characters of the first set that are not in the second. -/
def difference (a b : CharSet) : CharSet := a.intersection b.complement

/-- The characters of exactly one of the sets. -/
def symmetric (a b : CharSet) : CharSet := (a.union b).difference (a.intersection b)

/-- All characters. -/
def all : CharSet := complement none

/-- All characters but the line feed. -/
def notNewline : CharSet := complement (single '\n')

/-- The case variants of the characters of a set. -/
def fold (set : CharSet) : CharSet :=
  let folded := foldPairs.filterMap fun (code, target) =>
    if set.ranges.holds code then some target else Option.none
  let reached := set.union (ofCodes folded)
  let sources := foldPairs.filterMap fun (code, target) =>
    if reached.ranges.holds target then some code else Option.none
  reached.union (ofCodes sources)

/-- A set, closed under case variants on request. -/
def foldIf (ignoreCase : Bool) (a : CharSet) : CharSet :=
  if ignoreCase then fold a else a

/-- A set or its complement. -/
def complementIf (negated : Bool) (a : CharSet) : CharSet :=
  if negated then complement a else a

/-- The only character of a set of one. -/
def char? (set : CharSet) : Option Char :=
  match set.ranges with
  | [(low, high)] => if low = high then some (Char.ofNat low) else Option.none
  | _ => Option.none

/-- Whether a set consists of ASCII characters. -/
def isAscii (set : CharSet) : Bool :=
  set.ranges.all fun range => range.2 < 128

/-- The ranges of a named class of ASCII characters. -/
def asciiClass? (name : String) : Option CharSet :=
  match name with
  | "alnum" => some ⟨[(0x30, 0x39), (0x41, 0x5a), (0x61, 0x7a)], rfl⟩
  | "alpha" => some ⟨[(0x41, 0x5a), (0x61, 0x7a)], rfl⟩
  | "ascii" => some ⟨[(0x00, 0x7f)], rfl⟩
  | "blank" => some ⟨[(0x09, 0x09), (0x20, 0x20)], rfl⟩
  | "cntrl" => some ⟨[(0x00, 0x1f), (0x7f, 0x7f)], rfl⟩
  | "digit" => some ⟨[(0x30, 0x39)], rfl⟩
  | "graph" => some ⟨[(0x21, 0x7e)], rfl⟩
  | "lower" => some ⟨[(0x61, 0x7a)], rfl⟩
  | "print" => some ⟨[(0x20, 0x7e)], rfl⟩
  | "punct" => some ⟨[(0x21, 0x2f), (0x3a, 0x40), (0x5b, 0x60), (0x7b, 0x7e)], rfl⟩
  | "space" => some ⟨[(0x09, 0x0d), (0x20, 0x20)], rfl⟩
  | "upper" => some ⟨[(0x41, 0x5a)], rfl⟩
  | "word" => some ⟨[(0x30, 0x39), (0x41, 0x5a), (0x5f, 0x5f), (0x61, 0x7a)], rfl⟩
  | "xdigit" => some ⟨[(0x30, 0x39), (0x41, 0x46), (0x61, 0x66)], rfl⟩
  | _ => Option.none

end CharSet

end PathDoc.Regex

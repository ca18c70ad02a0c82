import PathDoc.Regex.CharSet

/-!
# Sets of characters as bytes

A set of characters, read as UTF-8, is a list of sequences of byte ranges: a character belongs to
the set when its bytes lie in the ranges of a sequence, one after the other. A range of code points
is cut until the code points of a piece differ in whole blocks of continuation bytes only (`cut?`);
the bytes of its ends then give the sequence.
-/

set_option autoImplicit false

namespace PathDoc.Regex

/-- A range of bytes, both ends included. -/
abbrev ByteRange := Nat × Nat

/-- Ranges of bytes, one after the other. -/
abbrev ByteSequence := List ByteRange

/-- The bytes of a code point in UTF-8. -/
def bytesOf (code : Nat) : List Nat :=
  if code < 0x80 then [code]
  else if code < 0x800 then [0xc0 + code / 0x40, 0x80 + code % 0x40]
  else if code < 0x10000 then
    [0xe0 + code / 0x1000, 0x80 + code / 0x40 % 0x40, 0x80 + code % 0x40]
  else
    [0xf0 + code / 0x40000, 0x80 + code / 0x1000 % 0x40, 0x80 + code / 0x40 % 0x40,
      0x80 + code % 0x40]

/-- Where a range goes from a number of bytes to the next: the last code point before. -/
def widthCut? (low high : Nat) : Option Nat :=
  [0x7f, 0x7ff, 0xffff].find? fun code => low ≤ code && code < high

/-- Where a range of code points of several blocks starts or ends inside a block of a size. -/
def blockCut? (low high size : Nat) : Option Nat :=
  if low / size = high / size then none
  else if low % size ≠ 0 then some (low / size * size + size - 1)
  else if high % size ≠ size - 1 then some (high / size * size - 1)
  else none

/-- Where a range of code points has to be cut first: the last code point of the first piece. -/
def cut? (low high : Nat) : Option Nat :=
  match widthCut? low high with
  | some code => some code
  | none => if high < 0x80 then none else [0x40, 0x1000, 0x40000].findSome? (blockCut? low high)

/-- The pieces of a range of code points. -/
def pieces (low high : Nat) : Text.Ranges :=
  match cut? low high with
  | some code =>
    if _inside : low ≤ code ∧ code < high then pieces low code ++ pieces (code + 1) high
    else [(low, high)]
  | none => [(low, high)]
termination_by high - low

/-- A range of code points without the surrogates in it. -/
def withoutSurrogates (range : Nat × Nat) : Text.Ranges :=
  if range.1 < 0xd800 ∧ 0xdfff < range.2 then [(range.1, 0xd7ff), (0xe000, range.2)] else [range]

/-- The sequences of byte ranges of a set, in rising order. -/
def CharSet.sequences (set : CharSet) : List ByteSequence :=
  let ranges := (set.ranges.flatMap withoutSurrogates).flatMap fun range => pieces range.1 range.2
  ranges.map fun range => (bytesOf range.1).zip (bytesOf range.2)

end PathDoc.Regex

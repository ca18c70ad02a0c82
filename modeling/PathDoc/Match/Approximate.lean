import PathDoc.Text.Case
import PathDoc.Text.Scan

/-!
# Approximate texts

The edit distance of two texts is the least number of characters that have to be inserted, deleted
or exchanged. It is computed row by row: a row holds, for every prefix of the text, the best
alignment of the part of the pattern read so far. With a first row of zeros an alignment may start
anywhere in the text, and each cell remembers where its own started; `occurrences` reads the hits
off the last row.
-/

set_option autoImplicit false

namespace PathDoc.Match

open Text

/-- The best alignment of a part of the pattern with a stretch of the text. -/
structure Cell where
  /-- How many edits it takes. -/
  distance : Nat
  /-- Where the stretch starts. -/
  start : Nat

/-- The better of two alignments, the first one on a tie. -/
def Cell.orBetter (a b : Cell) : Cell :=
  if b.distance < a.distance then b else a

/-- An alignment with some edits more. -/
def Cell.worse (cell : Cell) (edits : Nat) : Cell :=
  ⟨cell.distance + edits, cell.start⟩

namespace Alignment

/-- The cells of a row after its first: `left` is the cell before, `diagonal` the one above it. -/
def cells (p : Char) : Cell → Cell → List Cell → List Char → List Cell
  | left, diagonal, above :: row, c :: text =>
    let cell := ((diagonal.worse (if p = c then 0 else 1)).orBetter (above.worse 1)).orBetter
      (left.worse 1)
    cell :: cells p cell above row text
  | _, _, _, _ => []

/-- The row after one more character of the pattern. -/
def nextRow (text : List Char) (row : List Cell) (p : Char) : List Cell :=
  match row with
  | [] => []
  | first :: row =>
    let head : Cell := ⟨first.distance + 1, 0⟩
    head :: cells p head first row text

/-- The last row for a pattern, from the row for the empty pattern. -/
def lastRow (first : List Cell) (pattern text : List Char) : List Cell :=
  pattern.foldl (nextRow text) first

/-- The first row when the alignment starts at the start of the text. -/
def fixedRow (text : List Char) : List Cell :=
  (List.range (text.length + 1)).map fun j => ⟨j, 0⟩

/-- The first row when the alignment starts anywhere. -/
def freeRow (text : List Char) : List Cell :=
  (List.range (text.length + 1)).map fun j => ⟨0, j⟩

end Alignment

/-- The edit distance of two texts. -/
def editDistance (a b : List Char) : Nat :=
  match (Alignment.lastRow (Alignment.fixedRow b) a b).getLast? with
  | some cell => cell.distance
  | none => 0

/-- How similar two texts are, from 0 to 100: the share of the longer one that needs no edit. -/
def similarity (a b : List Char) : Float :=
  let longest := max a.length b.length
  if longest = 0 then 100.0
  else 100.0 * Float.ofNat (longest - editDistance a b) / Float.ofNat longest

/-- The edit distance that a similarity threshold allows for a pattern of some length: at least
one. -/
def allowedDistance (length : Nat) (threshold : Float) : Nat :=
  let length := Float.ofNat length
  max (length - length * threshold / 100.0).toUInt64.toNat 1

/-- A stretch of a text that is close to a pattern. -/
structure Occurrence where
  /-- The stretch. -/
  span : Span
  /-- Its edit distance from the pattern. -/
  distance : Nat

/-- The best cell of every run of neighbours within a distance, with the place where its stretch
ends; of equally good ones the first. -/
def bestEnds (maxDistance : Nat) (run : Option (Nat × Cell)) : Nat → List Cell → List (Nat × Cell)
  | _, [] => run.toList
  | stop, cell :: cells =>
    if cell.distance ≤ maxDistance then
      match run with
      | some (best, held) =>
        if held.distance ≤ cell.distance then
          bestEnds maxDistance (some (best, held)) (stop + 1) cells
        else bestEnds maxDistance (some (stop, cell)) (stop + 1) cells
      | none => bestEnds maxDistance (some (stop, cell)) (stop + 1) cells
    else run.toList ++ bestEnds maxDistance none (stop + 1) cells

/-- The stretches that are not empty and start at or after `free`, each after the one before it. -/
def disjoint (free : Nat) : List (Nat × Cell) → List Occurrence
  | [] => []
  | (stop, cell) :: rest =>
    if cell.start = stop ∨ cell.start < free then disjoint free rest
    else ⟨⟨cell.start, stop⟩, cell.distance⟩ :: disjoint stop rest

/-- The characters that are compared. -/
def prepare (ignoreCase : Bool) (text : List Char) : List Char :=
  if ignoreCase then text.map lowerFirst else text

/-- The stretches of a text within an edit distance of a pattern, from left to right and without
overlap. -/
def occurrences (ignoreCase : Bool) (maxDistance : Nat) (pattern text : List Char) :
    List Occurrence :=
  if pattern.isEmpty then []
  else
    let text := prepare ignoreCase text
    let row := Alignment.lastRow (Alignment.freeRow text) (prepare ignoreCase pattern) text
    disjoint 0 (bestEnds maxDistance none 1 row.tail)

end PathDoc.Match

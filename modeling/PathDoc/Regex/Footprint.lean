import PathDoc.Regex.Bytes
import PathDoc.Regex.Pattern
import Std.Data.HashSet

/-!
# How much room a pattern takes

A pattern is held to a size: it stands for two automata over bytes, one that reads a text forwards
and one that reads it backwards, and neither may take more than `roomLimit` bytes. A state takes 32
bytes, and 4 more for each way on, or 8 for each range of bytes it tells apart. Counted repetitions
are written out. A set beyond ASCII is a small automaton of its own: forwards its states are shared
where what they still have to read is the same, backwards where what they have read is the same.
-/

set_option autoImplicit false

namespace PathDoc.Regex

/-! ## Sets -/

/-- The distinct first ranges of sequences in rising order, each with what follows it. -/
def continuations (node : List ByteSequence) : List (List ByteSequence) :=
  (node.splitBy fun a b => a.head? == b.head?).map (·.map List.tail)

/-- The states some ranges after the start, as what they still have to read. -/
def statesAfter (node : List ByteSequence) : Nat → List (List ByteSequence)
  | 0 => [node]
  | depth + 1 => ((continuations node).filter (· != [[]])).flatMap (statesAfter · depth)

/-- The room of a set that is read forwards. No character has more than four bytes. -/
def forwardRoom (sequences : List ByteSequence) : Nat :=
  let states := [0, 1, 2, 3].flatMap (statesAfter sequences)
  (Std.HashSet.ofList states).fold (fun room node => room + 32 + 8 * (continuations node).length) 32

/-- The length of the common start of two sequences. -/
def commonLength : ByteSequence → ByteSequence → Nat
  | a :: as, b :: bs => if a = b then commonLength as bs + 1 else 0
  | _, _ => 0

/-- How many ranges of sequences in rising order are not shared with the sequence before. -/
def unshared (before : ByteSequence) : List ByteSequence → Nat
  | [] => 0
  | sequence :: rest =>
    sequence.length - commonLength before sequence + unshared sequence rest

/-- The room of a set that is read backwards. -/
def backwardRoom (sequences : List ByteSequence) : Nat :=
  64 + 4 * sequences.length + 32 * unshared [] sequences

/-- The room of a set. -/
def CharSet.room (backward : Bool) (set : CharSet) : Nat :=
  if set.isAscii then 64 + 8 * set.ranges.length
  else if backward then backwardRoom set.sequences
  else forwardRoom set.sequences

/-! ## Choices between texts -/

/-- Texts between those that end here. -/
def segments : List (List Nat) → List (List (List Nat))
  | [] => [[]]
  | bytes :: rest =>
    match segments rest with
    | segment :: more =>
      if bytes.isEmpty then [] :: segment :: more else (bytes :: segment) :: more
    | [] => [[bytes]]

/-- The segments of texts; several ends in front of everything count once. -/
def segmentsOf : List (List Nat) → List (List (List Nat))
  | [] :: rest => segments ([] :: rest.dropWhile List.isEmpty)
  | texts => segments texts

/-- The room of the states that tell texts apart byte by byte; a text before another one stays
preferred, so bytes are shared only between texts that no end of a text separates. -/
def branchingRoom : Nat → List (List Nat) → Nat
  | 0, _ => 0
  | depth + 1, texts =>
    let segments := segmentsOf texts
    let reading := segments.filter (!·.isEmpty)
    let rooms := reading.map fun segment =>
      let heads := (segment.filterMap List.head?).eraseDups
      let below := heads.map fun head =>
        let tails := (segment.filter (·.head? == some head)).map List.tail
        if tails.all List.isEmpty then 0 else branchingRoom depth tails
      (if heads.length = 1 then 32 else 32 + 8 * heads.length) + below.foldl (· + ·) 0
    32 + 4 * (reading.length + (segments.length - 1)) + rooms.foldl (· + ·) 0

/-- The bytes of a text. -/
def textBytes (text : List Char) : List Nat :=
  text.flatMap fun c => bytesOf c.toNat

/-- The room of a choice between texts. -/
def textsRoom (backward : Bool) (texts : List (List Char)) : Nat :=
  let bytes := texts.map fun text => if backward then (textBytes text).reverse else textBytes text
  32 + branchingRoom (bytes.foldl (fun depth text => depth + text.length) 1) bytes

/-! ## Patterns -/

/-- The room of a repetition of a part. -/
def repeatedRoom (room : Nat) (productive : Bool) (min : Nat) : Option Nat → Nat
  | none =>
    if min = 0 then (if productive then room + 40 else room + 112) else min * room + 40
  | some max =>
    if min = max then min * room
    else if min = 0 ∧ max = 1 then room + 72
    else (if min = 0 then 32 else min * room) + 32 + (max - min) * (room + 40)

namespace Pattern

/-- The text of a pattern that is one. -/
def text? : Pattern → Option (List Char)
  | text characters => some characters
  | _ => none

/-- The room of a pattern with branches, given the room of each. -/
def joinedRoom (backward : Bool) (pattern : Pattern) (rooms : List Nat) : Nat :=
  match rooms with
  | [room] => room
  | rooms =>
    match pattern.branches.mapM text? with
    | some texts => textsRoom backward texts
    | none => rooms.foldl (fun sum room => sum + room + 4) 64

/-- The rooms of the branches of a pattern. -/
def branchRooms (backward : Bool) : Pattern → List Nat
  | empty => [32]
  | text characters => [32 * (textBytes characters).length]
  | one set => [set.room backward]
  | assertion _ => [32]
  | seq a b =>
    [a.joinedRoom backward (a.branchRooms backward) +
      b.joinedRoom backward (b.branchRooms backward)]
  | alt a b => a.joinedRoom backward (a.branchRooms backward) :: b.branchRooms backward
  | «repeat» body min max _ =>
    [repeatedRoom (body.joinedRoom backward (body.branchRooms backward)) body.isProductive min max]
  | group _ body =>
    let room := body.joinedRoom backward (body.branchRooms backward)
    [if backward then room else room + 64]

/-- The room of the automaton of a pattern. It looks for a match from every place on, unless matches
lie at the edge of the text. -/
def room (backward : Bool) (pattern : Pattern) : Nat :=
  let anchored :=
    if backward then pattern.closesWith .textEnd else pattern.opensWith .textStart
  let body := pattern.joinedRoom backward (pattern.branchRooms backward)
  (if anchored then 32 else 112) + (if backward then body else body + 64) + 32

/-- The bytes that the automaton of a pattern may take: ten mebibytes. -/
def roomLimit : Nat := 0xa00000

/-- Whether both automata of a pattern keep to the limit. -/
def fits (pattern : Pattern) : Bool :=
  pattern.room false ≤ roomLimit && pattern.room true ≤ roomLimit

end Pattern

end PathDoc.Regex

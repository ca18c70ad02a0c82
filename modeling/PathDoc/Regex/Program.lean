import PathDoc.Regex.Pattern
import PathDoc.Text.Scan
import Std.Data.HashSet

/-!
# Running patterns

A pattern is laid out as instructions and run with backtracking: of two ways to go on, the preferred
one is tried first and the other is kept for later. A way that comes to the same choice at the same
position for a second time is given up, so a loop that reads nothing ends. `Pattern.size_emit` says
that a pattern takes as many instructions as `Pattern.size` foretells, which is what jumps rely on.
`Pattern.finder` gives the preferred match that starts at a place.

This is one way to come by a searcher for the patterns that `Regex.parse` reads. Matchers take any
other one as well.
-/

set_option autoImplicit false

namespace PathDoc.Regex

open Text

/-- One instruction; unless it says otherwise the next one follows. -/
inductive Instruction where
  /-- Reads one character. -/
  | char (c : Char)
  /-- Reads a character of a set. -/
  | test (set : CharSet)
  /-- Goes on only where a condition holds. -/
  | assert (assertion : Assertion)
  /-- Goes on at the first address, or else at the second. -/
  | split (first second : Nat)
  /-- Goes on at an address. -/
  | jump (address : Nat)
  /-- Remembers where a group starts. -/
  | openGroup (index : Nat)
  /-- Remembers where a group ends. -/
  | closeGroup (index : Nat)

/-! ## Layout -/

/-- A choice between entering a loop and leaving it. -/
def Instruction.choice (greedy : Bool) (enter leave : Nat) : Instruction :=
  if greedy then .split enter leave else .split leave enter

/-- Instructions by address. -/
abbrev Code := Array Instruction

/-- Adds the instructions of a part to the code before it. -/
abbrev Emitter := Code → Code

namespace Emitter

/-- A part several times over. -/
def times (emit : Emitter) : Nat → Emitter
  | 0, code => code
  | count + 1, code => emit.times count (emit code)

/-- A part at most a number of times; each time may be the last, and then `leave` follows. -/
def optional (emit : Emitter) (greedy : Bool) (leave : Nat) : Nat → Emitter
  | 0, code => code
  | count + 1, code =>
    emit.optional greedy leave count (emit (code.push (.choice greedy (code.size + 1) leave)))

/-- A part once or more. -/
def oneOrMore (emit : Emitter) (greedy : Bool) : Emitter := fun code =>
  let looped := emit code
  looped.push (.choice greedy code.size (looped.size + 1))

/-- A part of `size` instructions any number of times. If a round may read nothing, coming to its
end counts as one more choice. -/
def zeroOrMore (emit : Emitter) (size : Nat) (greedy productive : Bool) : Emitter := fun code =>
  let entered := code.push (.choice greedy (code.size + 1) (code.size + size + 2))
  if productive then (emit entered).push (.jump code.size) else emit.oneOrMore greedy entered

/-- A repetition of a part of `size` instructions. -/
def repeated (emit : Emitter) (size : Nat) (productive greedy : Bool) (min : Nat)
    (max : Option Nat) : Emitter := fun code =>
  match max with
  | some max =>
    let required := emit.times min code
    emit.optional greedy (required.size + (max - min) * (size + 1)) (max - min) required
  | none =>
    if min = 0 then emit.zeroOrMore size greedy productive code
    else emit.oneOrMore greedy (emit.times (min - 1) code)

end Emitter

/-- The number of instructions of a pattern. -/
def Pattern.size : Pattern → Nat
  | empty => 0
  | text characters => characters.length
  | one _ => 1
  | assertion _ => 1
  | seq a b => a.size + b.size
  | alt a b => a.size + b.size + 2
  | «repeat» body min (some max) _ => min * body.size + (max - min) * (body.size + 1)
  | «repeat» body min none _ => if min = 0 then body.size + 2 else min * body.size + 1
  | group _ body => body.size + 2

/-- Adds the instructions of a pattern to the code before it. -/
def Pattern.emit : Pattern → Emitter
  | empty, code => code
  | text characters, code => characters.foldl (fun code c => code.push (.char c)) code
  | one set, code => code.push (.test set)
  | assertion condition, code => code.push (.assert condition)
  | seq a b, code => b.emit (a.emit code)
  | alt a b, code =>
    let second := code.size + a.size + 2
    b.emit ((a.emit (code.push (.split (code.size + 1) second))).push (.jump (second + b.size)))
  | «repeat» body min max greedy, code =>
    Emitter.repeated body.emit body.size body.isProductive greedy min max code
  | group index body, code => (body.emit (code.push (.openGroup index))).push (.closeGroup index)

/-- The length of required repetitions. -/
theorem Emitter.size_times {emit : Emitter} {size : Nat}
    (h : ∀ code, (emit code).size = code.size + size) (count : Nat) (code : Code) :
    (emit.times count code).size = code.size + count * size := by
  induction count generalizing code with
  | zero => simp [times]
  | succ count ih => rw [times, ih, h, Nat.succ_mul]; omega

/-- The length of optional repetitions. -/
theorem Emitter.size_optional {emit : Emitter} {size : Nat}
    (h : ∀ code, (emit code).size = code.size + size) (greedy : Bool) (leave count : Nat)
    (code : Code) :
    (emit.optional greedy leave count code).size = code.size + count * (size + 1) := by
  induction count generalizing code with
  | zero => simp [optional]
  | succ count ih => rw [optional, ih, h, Array.size_push, Nat.succ_mul]; omega

/-- **A pattern takes as many instructions as its size says.** -/
theorem Pattern.size_emit (pattern : Pattern) (code : Code) :
    (pattern.emit code).size = code.size + pattern.size := by
  induction pattern generalizing code with
  | empty => rfl
  | text characters =>
    simp only [emit, size]
    induction characters generalizing code with
    | nil => rfl
    | cons c rest ih => rw [List.foldl_cons, ih, Array.size_push, List.length_cons]; omega
  | one set => simp [emit, size]
  | assertion condition => simp [emit, size]
  | seq a b iha ihb => rw [emit, ihb, iha, size]; omega
  | alt a b iha ihb => rw [emit, ihb, Array.size_push, iha, Array.size_push, size]; omega
  | group index body ih => rw [emit, Array.size_push, ih, Array.size_push, size]; omega
  | «repeat» body min max greedy ih =>
    -- with an upper bound all optional rounds are written out, without one the last round is a loop
    cases max with
    | some max =>
      simp only [emit, size, Emitter.repeated]
      rw [Emitter.size_optional ih, Emitter.size_times ih]
      omega
    | none =>
      cases min with
      | zero =>
        simp only [emit, size, Emitter.repeated, Emitter.zeroOrMore, Emitter.oneOrMore, if_true]
        split <;> simp only [Array.size_push, ih] <;> omega
      | succ min =>
        simp only [emit, size, Emitter.repeated, Emitter.oneOrMore, Nat.succ_ne_zero, if_false,
          Array.size_push, ih, Emitter.size_times ih, Nat.add_sub_cancel, Nat.succ_mul]
        omega

/-! ## Running -/

/-- One way through a program. -/
structure Thread where
  /-- The address of the next instruction. -/
  address : Nat
  /-- The place in the text. -/
  place : Place
  /-- Where groups were opened, the latest first. -/
  opened : List (Nat × Nat)
  /-- The groups that were closed, the latest first. -/
  closed : List (Nat × Span)

namespace Thread

/-- Goes on at an address. -/
def goto (thread : Thread) (address : Nat) : Thread :=
  { thread with address }

/-- Goes on with the next instruction. -/
def next (thread : Thread) : Thread :=
  thread.goto (thread.address + 1)

/-- Reads a character that passes a test. -/
def read (thread : Thread) (passes : Char → Bool) : List Thread :=
  match thread.place.rest with
  | c :: rest =>
    if passes c then
      [{ thread.next with place := ⟨thread.place.position + 1, some c, rest⟩ }]
    else []
  | [] => []

/-- The ways that go on after an instruction, the preferred one first. -/
def step (thread : Thread) : Instruction → List Thread
  | .char c => thread.read (· == c)
  | .test set => thread.read set.holds
  | .assert condition =>
    if condition.holds thread.place.before thread.place.rest.head? then [thread.next] else []
  | .split first second => [thread.goto first, thread.goto second]
  | .jump address => [thread.goto address]
  | .openGroup index =>
    [{ thread.next with opened := (index, thread.place.position) :: thread.opened }]
  | .closeGroup index =>
    let start := (thread.opened.lookup index).getD thread.place.position
    [{ thread.next with closed := (index, ⟨start, thread.place.position⟩) :: thread.closed }]

end Thread

/-- A laid out pattern. -/
structure Program where
  /-- The instructions by address; the address after the last one is the end. -/
  code : Code

namespace Program

/-- The program of a pattern. -/
def ofPattern (pattern : Pattern) : Program := ⟨pattern.emit #[]⟩

/-- Runs threads until one comes to the end; `made` holds the choices that were made, each with its
position. -/
def run (program : Program) : Nat → Std.HashSet (Nat × Nat) → List Thread → Option Thread
  | 0, _, _ => none
  | _ + 1, _, [] => none
  | fuel + 1, made, thread :: others =>
    match program.code[thread.address]? with
    | none => some thread
    | some (.split first second) =>
      let choice := (thread.address, thread.place.position)
      if made.contains choice then run program fuel made others
      else run program fuel (made.insert choice) (thread.step (.split first second) ++ others)
    | some instruction => run program fuel made (thread.step instruction ++ others)

/-- The number of steps that suffice: every choice is made at most once at every position, leaves
two threads, and a thread comes to a choice after at most one pass over the code. -/
def fuel (program : Program) (length : Nat) : Nat :=
  (2 * program.code.size * (length + 1) + 1) * (program.code.size + 2) + 1

/-- The preferred match that starts at a place. -/
def finder (program : Program) : Finder := fun place =>
  (program.run (program.fuel place.rest.length) ∅ [⟨0, place, [], []⟩]).map fun thread =>
    ⟨⟨place.position, thread.place.position⟩, thread.closed⟩

end Program

/-- The preferred match of a pattern that starts at a place. -/
def Pattern.finder (pattern : Pattern) : Finder :=
  (Program.ofPattern pattern).finder

end PathDoc.Regex

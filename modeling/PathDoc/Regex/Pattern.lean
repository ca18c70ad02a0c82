import PathDoc.Regex.CharSet

/-!
# Patterns

The structure of a regular expression after its flags have been resolved, in reduced form. `concat`
joins neighbouring texts and leaves out what is empty. `alternation` makes one set of branches that
are sets or single characters, and takes the items that all branches start with out of them.
`repeated` repeats what matches only the empty text at most once; a repetition of none is the empty
pattern and a repetition of exactly one is its body. A group that a reduction drops keeps its
number, but nothing can match it.
-/

set_option autoImplicit false

namespace PathDoc.Regex

/-- A condition on a place in a text. Words are those of Unicode and lines end with a line feed;
there is no condition for one side of a word, for words of ASCII characters or for other ends of
lines. -/
inductive Assertion where
  /-- The start of the text. -/
  | textStart
  /-- The end of the text. -/
  | textEnd
  /-- The start of a line. -/
  | lineStart
  /-- The end of a line. -/
  | lineEnd
  /-- Between a word character and none. -/
  | wordBoundary
  /-- Not between a word character and none. -/
  | notWordBoundary
  deriving DecidableEq

/-- Whether a neighbour of a place is a word character. -/
def isWord (neighbour : Option Char) : Bool :=
  match neighbour with
  | some c => Text.isWordChar c
  | none => false

/-- Whether a condition holds between two neighbours. -/
def Assertion.holds (before after : Option Char) : Assertion → Bool
  | textStart => before.isNone
  | textEnd => after.isNone
  | lineStart => before.isNone || before == some '\n'
  | lineEnd => after.isNone || after == some '\n'
  | wordBoundary => isWord before != isWord after
  | notWordBoundary => isWord before == isWord after

/-- A regular expression. -/
inductive Pattern where
  /-- The empty text. -/
  | empty
  /-- A text of at least one character. -/
  | text (text : List Char)
  /-- One character of a set. -/
  | one (set : CharSet)
  /-- A place that meets a condition. -/
  | assertion (assertion : Assertion)
  /-- One pattern after the other. -/
  | seq (a b : Pattern)
  /-- Either pattern, the first one preferred. -/
  | alt (a b : Pattern)
  /-- A pattern several times, as often as possible or as rarely. -/
  | repeat (body : Pattern) (min : Nat) (max : Option Nat) (greedy : Bool)
  /-- A pattern whose place is remembered. -/
  | group (index : Nat) (body : Pattern)
  deriving DecidableEq

namespace Pattern

/-! ## Measures -/

/-- Whether a pattern matches nothing but the empty text. -/
def isZeroWidth : Pattern → Bool
  | empty => true
  | text _ => false
  | one _ => false
  | assertion _ => true
  | seq a b => a.isZeroWidth && b.isZeroWidth
  | alt a b => a.isZeroWidth && b.isZeroWidth
  | «repeat» body _ _ _ => body.isZeroWidth
  | group _ body => body.isZeroWidth

/-- The least number of characters of a match; unknown if an empty set takes part. -/
def minLength : Pattern → Option Nat
  | empty => some 0
  | text characters => some characters.length
  | one set => if set.ranges.isEmpty then none else some 1
  | assertion _ => some 0
  | seq a b => do
    let first ← a.minLength
    let second ← b.minLength
    some (first + second)
  | alt a b => do
    let first ← a.minLength
    let second ← b.minLength
    some (if first ≤ second then first else second)
  | «repeat» body min _ _ => body.minLength.map (· * min)
  | group _ body => body.minLength

/-- Whether every match is known to read a character. -/
def isProductive (pattern : Pattern) : Bool :=
  match pattern.minLength with
  | some length => 0 < length
  | none => false

/-- The greatest number of a group in a pattern, zero if there is none. -/
def groupCount : Pattern → Nat
  | seq a b => a.groupCount.max b.groupCount
  | alt a b => a.groupCount.max b.groupCount
  | «repeat» body _ _ _ => body.groupCount
  | group index body => index.max body.groupCount
  | _ => 0

/-- Whether every match is known to start where a condition holds. -/
def opensWith (condition : Assertion) : Pattern → Bool
  | assertion own => own = condition
  | seq a b => a.opensWith condition || (a.isZeroWidth && b.opensWith condition)
  | alt a b => a.opensWith condition && b.opensWith condition
  | «repeat» body min _ _ => min != 0 && body.opensWith condition
  | group _ body => body.opensWith condition
  | _ => false

/-- Whether every match is known to end where a condition holds. -/
def closesWith (condition : Assertion) : Pattern → Bool
  | assertion own => own = condition
  | seq a b => b.closesWith condition || (b.isZeroWidth && a.closesWith condition)
  | alt a b => a.closesWith condition && b.closesWith condition
  | «repeat» body min _ _ => min != 0 && body.closesWith condition
  | group _ body => body.closesWith condition
  | _ => false

/-! ## Reduced forms -/

/-- A pattern that matches nothing. -/
def fail : Pattern := one .none

/-- One character of a set; a set of one is a text. -/
def ofSet (set : CharSet) : Pattern :=
  match set.char? with
  | some c => text [c]
  | none => one set

/-- One character, or a case variant of it on request. -/
def char (ignoreCase : Bool) (c : Char) : Pattern :=
  if ignoreCase then ofSet (.ofCodes (Text.caseVariants c.toNat)) else text [c]

/-- The patterns that follow each other in a pattern. -/
def items : Pattern → List Pattern
  | empty => []
  | seq a b => a :: b.items
  | pattern => [pattern]

/-- The branches of a pattern, the preferred ones first. -/
def branches : Pattern → List Pattern
  | alt a b => a :: b.branches
  | pattern => [pattern]

/-- Patterns one after the other. -/
def sequence : List Pattern → Pattern
  | [] => empty
  | [a] => a
  | a :: rest => seq a (sequence rest)

/-- Patterns of which one has to match. -/
def choice : List Pattern → Pattern
  | [] => fail
  | [a] => a
  | a :: rest => alt a (choice rest)

/-- Puts an item in front of others; texts join. -/
def prepend : Pattern → List Pattern → List Pattern
  | text before, text after :: rest => text (before ++ after) :: rest
  | item, rest => item :: rest

/-- The reduced form of patterns one after the other. -/
def concat (parts : List Pattern) : Pattern :=
  sequence ((parts.flatMap items).foldr prepend [])

/-- The set of a pattern that matches one character of a set. -/
def set? : Pattern → Option CharSet
  | one set => some set
  | _ => none

/-- The code point of a text of one character. -/
def code? : Pattern → Option Nat
  | text [c] => some c.toNat
  | _ => none

/-- The reduced form of branches without a common start. -/
def oneOf (parts : List Pattern) : Pattern :=
  let parts := parts.flatMap branches
  match parts.mapM code? with
  | some codes => ofSet (.ofCodes codes)
  | none =>
    match parts.mapM set? with
    | some sets => ofSet (sets.foldl .union .none)
    | none => choice parts

/-- The common start of two lists. -/
def commonStart : List Pattern → List Pattern → List Pattern
  | a :: as, b :: bs => if a = b then a :: commonStart as bs else []
  | _, _ => []

/-- The items that all branches start with; a branch of one item has none. -/
def commonItems : List Pattern → List Pattern
  | [] => []
  | [_] => []
  | first :: rest =>
    let lists := (first :: rest).map items
    if lists.all fun list => 1 < list.length then lists.tail.foldl commonStart first.items else []

/-- The reduced form of branches. -/
def alternation (parts : List Pattern) : Pattern :=
  let parts := parts.flatMap branches
  match commonItems parts with
  | [] => oneOf parts
  | shared =>
    let tails := parts.map fun part => sequence (part.items.drop shared.length)
    concat (shared ++ [oneOf tails])

/-- The reduced repetition of a pattern. -/
def repeated (body : Pattern) (min : Nat) (max : Option Nat) (greedy : Bool) : Pattern :=
  let min' := if body.isZeroWidth then min.min 1 else min
  let max' := if body.isZeroWidth then some ((max.getD 1).min 1) else max
  if min' = 0 ∧ max' = some 0 then empty
  else if min' = 1 ∧ max' = some 1 then body
  else «repeat» body min' max' greedy

end Pattern

end PathDoc.Regex

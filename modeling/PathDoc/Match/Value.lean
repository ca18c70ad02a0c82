import PathDoc.Document.Equality
import PathDoc.Match.Text

/-!
# Matching values

A value matcher holds criteria: values, text patterns, predicates and negations of these. A document
matches if it meets one of them, or all of them on request; without criteria nothing matches. Texts
among the sought values are patterns.
-/

set_option autoImplicit false

namespace PathDoc.Match

open Text

/-- A condition on a document. -/
inductive Criterion where
  /-- The document equals a value; a text is a pattern. -/
  | value (value : Document)
  /-- The document is a text that matches a pattern. -/
  | pattern (pattern : String)
  /-- The document satisfies a predicate. -/
  | predicate (holds : Document → Bool)
  /-- The document does not meet a condition. -/
  | negation (criterion : Criterion)

/-- A compiled condition, negation aside. -/
inductive Check where
  /-- The document equals a value. -/
  | value (value : Document)
  /-- The document is a text that matches. -/
  | text (matcher : TextMatcher)
  /-- The document satisfies a predicate. -/
  | predicate (holds : Document → Bool)

/-- Whether a document passes a check. -/
def Check.passes (candidate : Document) : Check → Bool
  | value sought => sought.looselyEqual candidate
  | text matcher =>
    match candidate.string? with
    | some s => matcher.isMatch s.toList
    | none => false
  | predicate holds => holds candidate

/-- A compiled condition. -/
structure Requirement where
  /-- Whether the check must fail. -/
  negated : Bool
  /-- The check. -/
  check : Check

namespace Requirement

/-- Compiles a condition inside a number of negations; `negated` tells whether that is odd. -/
def compile (options : TextOptions) (negated : Bool) : Criterion → Outcome Requirement
  | .negation criterion => compile options (!negated) criterion
  | .pattern pattern =>
    (TextMatcher.compile pattern options).map fun matcher => ⟨negated, .text matcher⟩
  | .value (.scalar (.string pattern)) =>
    (TextMatcher.compile pattern options).map fun matcher => ⟨negated, .text matcher⟩
  | .value sought => .ok ⟨negated, .value sought⟩
  | .predicate holds => .ok ⟨negated, .predicate holds⟩

/-- Whether a document meets a condition. -/
def meets (requirement : Requirement) (candidate : Document) : Bool :=
  requirement.check.passes candidate != requirement.negated

/-- The text pattern of a condition that is not negated. -/
def pattern? : Requirement → Option TextMatcher
  | ⟨false, .text matcher⟩ => some matcher
  | _ => none

end Requirement

/-- Compiled conditions on a document. -/
structure ValueMatcher where
  /-- The conditions. -/
  requirements : List Requirement
  /-- Whether all of them must hold and not only one. -/
  all : Bool

namespace ValueMatcher

/-- Compiles conditions. -/
def compile (criteria : List Criterion) (all : Bool) (options : TextOptions) :
    Outcome ValueMatcher :=
  (criteria.mapM (Requirement.compile options false)).map fun requirements => ⟨requirements, all⟩

/-- Whether a document matches. -/
def isMatch (matcher : ValueMatcher) (candidate : Document) : Bool :=
  !matcher.requirements.isEmpty &&
    if matcher.all then matcher.requirements.all (·.meets candidate)
    else matcher.requirements.any (·.meets candidate)

/-- The text patterns that are not negated. -/
def patterns (matcher : ValueMatcher) : List TextMatcher :=
  matcher.requirements.filterMap Requirement.pattern?

/-- Whether matches can be replaced inside texts. -/
def hasPatterns (matcher : ValueMatcher) : Bool :=
  !matcher.patterns.isEmpty

/-- Whether a stretch comes before another one or is the same. -/
def spanLe (a b : Span) : Bool :=
  a.start < b.start || (a.start == b.start && a.stop ≤ b.stop)

/-- The stretches of a text that some pattern matches, in order and each once. -/
def spans (matcher : ValueMatcher) (text : List Char) : List Span :=
  ((matcher.patterns.flatMap fun pattern => pattern.spans text).mergeSort spanLe).eraseDups

/-- How a document matched; only texts have more to report than whether they do. -/
def describe (matcher : ValueMatcher) (candidate : Document) (shape : Shape) : Report :=
  match candidate.string? with
  | some s => Report.ofSpans s.toList (matcher.isMatch candidate) (matcher.spans s.toList) shape
  | none => .found (matcher.isMatch candidate)

/-- The text after each pattern in turn has replaced its matches, or nothing if none matched. -/
def replace? (matcher : ValueMatcher) (text replacement : List Char) : Option (List Char) :=
  matcher.patterns.foldl
    (fun current pattern => (pattern.replace? (current.getD text) replacement).or current) none

end ValueMatcher

end PathDoc.Match

import PathDoc.Decimal.Whole
import PathDoc.Error
import PathDoc.Match.Approximate
import PathDoc.Regex.Parser
import PathDoc.Regex.Program
import PathDoc.Text.Offset

/-!
# Matching texts

A pattern is compiled under a strategy: as a regular expression or as a text to be approximated. A
literal text becomes the regular expression that escapes it and, where it must start or end the
candidate, ties it to that place. `TextMatcher.spans` lists the matched stretches of a candidate
from left to right; a candidate matches if there is one. Reports count in bytes of UTF-8.

A matcher knows of a regular expression only what a searcher answers, and any searcher will do.
`TextMatcher.compile` takes the one that `Regex.Pattern.finder` gives, for the syntax that
`Regex.parse` reads.
-/

set_option autoImplicit false

namespace PathDoc.Match

open Text

/-- How a pattern is compared with a candidate. -/
inductive Strategy where
  /-- The whole candidate is the pattern. -/
  | exact
  /-- The candidate starts with the pattern. -/
  | beginning
  /-- The candidate ends with the pattern. -/
  | ending
  /-- The pattern stands somewhere in the candidate. -/
  | contains
  /-- The pattern is a regular expression. -/
  | regex
  /-- Something close to the pattern stands in the candidate. -/
  | fuzzy
  deriving DecidableEq

/-- The name of a strategy. -/
def Strategy.name : Strategy → String
  | exact => "exact"
  | beginning => "start"
  | ending => "end"
  | contains => "contains"
  | regex => "regex"
  | fuzzy => "fuzzy"

/-- The strategy with a name or a short name; the case of ASCII letters does not count. -/
def Strategy.ofName? (name : String) : Option Strategy :=
  match String.ofList (name.toList.map Char.toLower) with
  | "exact" => some exact
  | "start" => some beginning
  | "startswith" => some beginning
  | "end" => some ending
  | "endswith" => some ending
  | "contains" => some contains
  | "in" => some contains
  | "regex" => some regex
  | "re" => some regex
  | "fuzzy" => some fuzzy
  | _ => none

/-- How text patterns are compiled. -/
structure TextOptions where
  /-- The strategy. -/
  strategy : Strategy
  /-- Whether case variants count as equal. -/
  ignoreCase : Bool
  /-- The group whose stretch is reported; by default the only group, or the whole match. -/
  group : Option Nat
  /-- The greatest edit distance of an approximate match. -/
  maxDistance : Option Nat
  /-- The similarity from 0 to 100 that sets the edit distance if none is given. -/
  threshold : Option Float

/-- The similarity that an approximate match needs unless another one is asked for. -/
def defaultThreshold : Float := 80.0

/-- Substring search that tells upper from lower case. -/
def TextOptions.standard : TextOptions := ⟨.contains, false, none, none, none⟩

/-- A compiled text pattern. -/
inductive TextMatcher where
  /-- A regular expression, and the group whose stretch counts. -/
  | regex (expression : Searcher) (group : Nat)
  /-- A text to be approximated within an edit distance. -/
  | approximate (pattern : List Char) (ignoreCase : Bool) (maxDistance : Nat)

/-- What kind of thing is reported about a match. -/
inductive Shape where
  /-- Whether anything matched. -/
  | found
  /-- Where each match starts. -/
  | offsets
  /-- Where each match starts and ends. -/
  | ranges
  /-- The matched texts. -/
  | texts
  deriving DecidableEq

/-- A report about the matches in one candidate. -/
inductive Report where
  /-- Whether anything matched. -/
  | found (found : Bool)
  /-- Where each match starts, in bytes. -/
  | offsets (offsets : List Nat)
  /-- Where each match starts and ends, in bytes. -/
  | ranges (ranges : List (Nat × Nat))
  /-- The matched texts. -/
  | texts (texts : List String)
  deriving DecidableEq

/-- Whether a report tells of a match. -/
def Report.isMatch : Report → Bool
  | found b => b
  | offsets list => !list.isEmpty
  | ranges list => !list.isEmpty
  | texts list => !list.isEmpty

/-- The byte range of a stretch of a text. -/
def byteRange (text : List Char) (span : Span) : Nat × Nat :=
  (byteSize (text.take span.start), byteSize (text.take span.stop))

/-- The characters of a stretch of a text. -/
def excerpt (text : List Char) (span : Span) : List Char :=
  (text.take span.stop).drop span.start

/-- The report of stretches of a candidate in a shape. -/
def Report.ofSpans (candidate : List Char) (found : Bool) (spans : List Span) : Shape → Report
  | .found => .found found
  | .offsets => .offsets (spans.map fun span => (byteRange candidate span).1)
  | .ranges => .ranges (spans.map (byteRange candidate))
  | .texts => .texts (spans.map fun span => String.ofList (excerpt candidate span))

namespace TextMatcher

/-- The regular expression of a pattern under a strategy; only `regex` takes the pattern for one. -/
def expression (pattern : List Char) : Strategy → List Char
  | .exact => '^' :: (Regex.escape pattern ++ ['$'])
  | .beginning => '^' :: Regex.escape pattern
  | .ending => Regex.escape pattern ++ ['$']
  | .contains => Regex.escape pattern
  | _ => pattern

/-- The group that is reported out of `count` groups. -/
def groupOf (pattern : String) (count : Nat) : Option Nat → Outcome Nat
  | some group =>
    if group ≤ count then .ok group
    else
      .error (.invalidPattern
        (pattern ++ ": no capture group " ++ String.ofList (Decimal.natText group)))
  | none => .ok (if count = 1 then 1 else 0)

/-- Compiles a pattern. -/
def compile (pattern : String) (options : TextOptions) : Outcome TextMatcher :=
  match options.strategy with
  | .fuzzy =>
    let distance := options.maxDistance.getD
      (allowedDistance pattern.toList.length (options.threshold.getD defaultThreshold))
    .ok (.approximate pattern.toList options.ignoreCase distance)
  | strategy =>
    match Regex.parse options.ignoreCase (expression pattern.toList strategy) with
    | .error fault => .error (.invalidPattern (pattern ++ ": " ++ fault.message))
    | .ok parsed =>
      (groupOf pattern parsed.groupCount options.group).map fun group =>
        .regex parsed.finder.searcher group

/-- The edit distance that an approximate match may have. -/
def maxDistance? : TextMatcher → Option Nat
  | approximate _ _ maxDistance => some maxDistance
  | _ => none

/-- The matched stretches of a text, from left to right and without overlap. -/
def spans (matcher : TextMatcher) (text : List Char) : List Span :=
  match matcher with
  | regex expression group => (expression.all text).filterMap (·.group? group)
  | approximate pattern ignoreCase maxDistance =>
    (occurrences ignoreCase maxDistance pattern text).map (·.span)

/-- Whether a text matches. If the whole match counts, the first one settles it. -/
def isMatch (matcher : TextMatcher) (text : List Char) : Bool :=
  match matcher with
  | regex expression 0 => expression.hits text
  | matcher => !(matcher.spans text).isEmpty

/-- What matched in a text. -/
def report (matcher : TextMatcher) (text : List Char) (shape : Shape) : Report :=
  Report.ofSpans text (matcher.isMatch text) (matcher.spans text) shape

/-- Puts a text in the place of every stretch; `position` is where `text` starts. -/
def substitute (replacement : List Char) (position : Nat) (text : List Char) :
    List Span → List Char
  | [] => text
  | span :: spans =>
    text.take (span.start - position) ++ replacement ++
      substitute replacement span.stop (text.drop (span.stop - position)) spans

/-- The text with every matched stretch replaced, or nothing if nothing matched. -/
def replace? (matcher : TextMatcher) (text replacement : List Char) : Option (List Char) :=
  match matcher.spans text with
  | [] => none
  | spans => some (substitute replacement 0 text spans)

end TextMatcher

end PathDoc.Match

import PathDoc.Error
import PathDoc.Path.Token
import PathDoc.Text.Offset
import PathDoc.Text.Quoted

/-!
# Reading the text of a path

A path text is a chain of segments: bare names and positions after dots, quoted names and integers
in brackets. Texts without brackets and quotes are split at the dots; all others are scanned from
left to right. Either reader stops at the first fault and keeps what it has not read, from which the
byte offset of the fault follows.
-/

set_option autoImplicit false

namespace PathDoc.Path

/-- Where and why reading a path text stopped. -/
structure Stop where
  /-- The characters not yet read. -/
  rest : List Char
  /-- What is wrong there. -/
  fault : PathFault

/-- The token of a bare segment: a position if it is all digits and fits a word, else a name. -/
def segmentToken (segment : List Char) : Token :=
  if segment.all Char.isDigit then
    match Decimal.readWord? segment with
    | some position => .index position.toInt
    | none => .key (String.ofList segment)
  else .key (String.ofList segment)

/-! ## Splitting at dots -/

/-- The tokens between the dots of a text. -/
def splitSegments (text : List Char) : Except Stop Path :=
  if text.takeWhile (· != '.') = [] then .error ⟨text, .emptySegment⟩
  else
    match _hrest : text.dropWhile (· != '.') with
    | [] => .ok [segmentToken (text.takeWhile (· != '.'))]
    | _ :: rest =>
      (splitSegments rest).map (segmentToken (text.takeWhile (· != '.')) :: ·)
termination_by text.length
decreasing_by
  have h := (List.dropWhile_sublist (p := (· != '.')) (l := text)).length_le
  rw [_hrest] at h
  simp only [List.length_cons] at h
  omega

/-- Splits a text at its dots, after an optional leading dot. -/
def splitDotted : List Char → Except Stop Path
  | '.' :: text => splitSegments text
  | text => splitSegments text

/-! ## Scanning -/

/-- Whether a character may stand in a bare segment. -/
def isBareChar (c : Char) : Bool :=
  !(c == '.' || c == '[' || c == ']' || c == '\'' || c == '"')

/-- Reads a bare segment, up to a dot, an opening bracket or the end. -/
def scanBare (text : List Char) : Except Stop (Token × List Char) :=
  match text.dropWhile isBareChar with
  | ']' :: rest => .error ⟨']' :: rest, .strayCharacter⟩
  | '\'' :: rest => .error ⟨'\'' :: rest, .strayCharacter⟩
  | '"' :: rest => .error ⟨'"' :: rest, .strayCharacter⟩
  | rest =>
    if text.takeWhile isBareChar = [] then .error ⟨rest, .emptySegment⟩
    else .ok (segmentToken (text.takeWhile isBareChar), rest)

/-- Reads a closing bracket. -/
def scanClose : List Char → Except Stop (List Char)
  | ']' :: rest => .ok rest
  | [] => .error ⟨[], .missingCloseAtEnd⟩
  | rest => .error ⟨rest, .missingClose⟩

/-- Reads a quoted name. -/
def scanQuoted (quote : Char) (text : List Char) : Except Stop (Token × List Char) :=
  match Text.readQuoted quote text with
  | .ok (name, rest) => .ok (.key (String.ofList name), rest)
  | .error .danglingEscape => .error ⟨[], .danglingEscape⟩
  | .error .unterminated => .error ⟨[], .openQuote⟩

/-- The longest start of a text that is an optional minus sign followed by digits, and the rest. -/
def splitInteger : List Char → List Char × List Char
  | '-' :: rest => ('-' :: rest.takeWhile Char.isDigit, rest.dropWhile Char.isDigit)
  | text => (text.takeWhile Char.isDigit, text.dropWhile Char.isDigit)

/-- Reads an integer. -/
def scanInteger (text : List Char) : Except Stop (Token × List Char) :=
  match Decimal.readWord? (splitInteger text).1 with
  | some position => .ok (.index position.toInt, (splitInteger text).2)
  | none => .error ⟨text, .badIndex⟩

/-- Reads the content of a bracket, without the closing bracket. -/
def scanContent : List Char → Except Stop (Token × List Char)
  | [] => .error ⟨[], .openBracket⟩
  | c :: rest =>
    if c = '\'' ∨ c = '"' then scanQuoted c rest
    else if c = '-' ∨ c.isDigit then scanInteger (c :: rest)
    else .error ⟨c :: rest, .badBracket⟩

/-- Reads a bracket after its opening character. -/
def scanBracket (text : List Char) : Except Stop (Token × List Char) :=
  match scanContent text with
  | .ok (token, rest) => (scanClose rest).map fun rest => (token, rest)
  | .error stop => .error stop

/-- Splitting off an integer leaves no longer text. -/
theorem splitInteger_length (text : List Char) :
    (splitInteger text).2.length ≤ text.length := by
  unfold splitInteger
  split
  · have := (List.dropWhile_sublist (p := Char.isDigit) (l := ‹List Char›)).length_le
    simp only [List.length_cons]
    omega
  · exact (List.dropWhile_sublist _).length_le

/-- A bare segment leaves no longer text. -/
theorem scanBare_length {text rest : List Char} {token : Token}
    (h : scanBare text = .ok (token, rest)) : rest.length ≤ text.length := by
  have hle := (List.dropWhile_sublist (p := isBareChar) (l := text)).length_le
  unfold scanBare at h
  split at h
  · cases h
  · cases h
  · cases h
  · split at h
    · cases h
    · cases h
      exact hle

/-- A closing bracket leaves a shorter text. -/
theorem scanClose_length {text rest : List Char} (h : scanClose text = .ok rest) :
    rest.length < text.length := by
  unfold scanClose at h
  split at h
  · cases h
    simp
  · cases h
  · cases h

/-- The content of a bracket leaves no longer text. -/
theorem scanContent_length {text rest : List Char} {token : Token}
    (h : scanContent text = .ok (token, rest)) : rest.length ≤ text.length := by
  unfold scanContent at h
  split at h
  · cases h
  · rename_i c tail
    split at h
    · -- a quoted name ends at its quote, a position at its last digit
      unfold scanQuoted at h
      split at h
      · rename_i hq
        cases h
        have := Text.readQuoted_length hq
        simp only [List.length_cons]
        omega
      · cases h
      · cases h
    · split at h
      · unfold scanInteger at h
        split at h
        · cases h
          exact splitInteger_length _
        · cases h
      · cases h

/-- A bracket leaves a shorter text. -/
theorem scanBracket_length {text rest : List Char} {token : Token}
    (h : scanBracket text = .ok (token, rest)) : rest.length < text.length := by
  unfold scanBracket at h
  split at h
  · rename_i token' after hc
    have hle := scanContent_length hc
    generalize hr : scanClose after = r at h
    rcases r with stop | tail
    · cases h
    · cases h
      have := scanClose_length hr
      omega
  · cases h

/-- Reads the segments after the first. -/
def scanTail : List Char → Except Stop Path
  | [] => .ok []
  | '.' :: text =>
    match _h : scanBare text with
    | .ok (token, rest) => (scanTail rest).map (token :: ·)
    | .error stop => .error stop
  | '[' :: text =>
    match _h : scanBracket text with
    | .ok (token, rest) => (scanTail rest).map (token :: ·)
    | .error stop => .error stop
  | text => .error ⟨text, .missingSeparator⟩
termination_by text => text.length
decreasing_by
  · have := scanBare_length _h
    simp only [List.length_cons]
    omega
  · have := scanBracket_length _h
    simp only [List.length_cons]
    omega

/-- Scans a path text; only its first segment may be bare without a dot. -/
def scan : List Char → Except Stop Path
  | '.' :: text => scanTail ('.' :: text)
  | '[' :: text => scanTail ('[' :: text)
  | text =>
    match scanBare text with
    | .ok (token, rest) => (scanTail rest).map (token :: ·)
    | .error stop => .error stop

/-! ## Reading -/

/-- Whether a text holds a bracket or a quote. -/
def hasBrackets (text : List Char) : Bool :=
  text.any fun c => c == '[' || c == ']' || c == '\'' || c == '"'

/-- Reads a path from its characters. The empty text is the root. -/
def parseChars (text : List Char) : Except Stop Path :=
  if text = [] then .ok []
  else if hasBrackets text then scan text
  else splitDotted text

/-- Reads a path from its text. -/
def parse (text : String) : Outcome Path :=
  match parseChars text.toList with
  | .ok path => .ok path
  | .error stop => .error (.pathSyntax text (Text.offset text.toList stop.rest) stop.fault)

end PathDoc.Path

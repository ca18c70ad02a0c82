import PathDoc.Error
import PathDoc.Query.Expr
import PathDoc.Text.Blank
import PathDoc.Text.Offset

/-!
# Reading queries

From the loosest to the tightest binding: "or", "and", "not", one comparison of two operands.
Operands are literals, paths below a variable and expressions in parentheses. Each reader takes
characters from the front of the input and gives back the rest; the first fault ends reading, and
the place where it stands follows from what is left. The level of parentheses is the only recursion,
so `expression` counts down the levels that are still allowed.
-/

set_option autoImplicit false

namespace PathDoc.Query

/-- What is wrong with the text of a query. -/
inductive Fault where
  /-- An operand is due and the text ends. -/
  | missingOperand
  /-- An operand is due and something else stands there. -/
  | badOperand
  /-- Something follows the query. -/
  | trailingInput
  /-- A closing parenthesis is due. -/
  | missingParenthesis
  /-- A closing bracket is due. -/
  | missingBracket
  /-- A name is due after a dot. -/
  | missingName
  /-- A position after a dot does not fit a word. -/
  | badPosition
  /-- A number with a point stands in brackets. -/
  | fractionalPosition
  /-- The text ends right after a backslash. -/
  | danglingEscape
  /-- The text ends between quotes. -/
  | openQuote
  /-- A number with a point has no digits. -/
  | badNumber
  /-- An integer has no digits or does not fit a word. -/
  | badInteger
  deriving DecidableEq

/-- The wording of a fault in the text of a query. -/
def Fault.message : Fault → String
  | missingOperand => "unexpected end of expression"
  | badOperand => "expected operand"
  | trailingInput => "unexpected trailing input"
  | missingParenthesis => "expected ')'"
  | missingBracket => "expected ']'"
  | missingName => "expected identifier"
  | badPosition => "invalid index"
  | fractionalPosition => "expected integer index"
  | danglingEscape => "dangling escape"
  | openQuote => "unterminated string"
  | badNumber => "invalid number"
  | badInteger => "invalid integer"

/-- Where and why reading a query stopped. -/
structure Stop where
  /-- The characters not yet read. -/
  rest : List Char
  /-- What is wrong there. -/
  fault : Fault

/-- Reads something from the front of a text and gives back the rest. -/
abbrev Reading (α : Type) := List Char → Except Stop (α × List Char)

/-! ## Literals and paths -/

/-- Reads a quoted text after its first quote. -/
def readString (quote : Char) : Reading String := fun input =>
  match Text.readQuoted quote input with
  | .ok (text, rest) => .ok (String.ofList text, rest)
  | .error .danglingEscape => .error ⟨[], .danglingEscape⟩
  | .error .unterminated => .error ⟨[], .openQuote⟩

/-- Splits off an optional minus sign. -/
def splitSign : List Char → Bool × List Char
  | '-' :: rest => (true, rest)
  | rest => (false, rest)

/-- The number with a sign, an integer part and a fraction. -/
def decimalValue (negative : Bool) (whole fraction : List Char) : Float :=
  let magnitude :=
    Float.ofScientific (Decimal.natValue (whole ++ fraction)) true fraction.length
  if negative then -magnitude else magnitude

/-- Reads a number; with a point it is a floating-point number. -/
def readNumber : Reading Literal := fun input =>
  let (negative, rest) := splitSign input
  let whole := rest.takeWhile Char.isDigit
  match rest.dropWhile Char.isDigit with
  | '.' :: rest =>
    let fraction := rest.takeWhile Char.isDigit
    let rest := rest.dropWhile Char.isDigit
    if whole.isEmpty && fraction.isEmpty then .error ⟨rest, .badNumber⟩
    else .ok (.float (decimalValue negative whole fraction), rest)
  | rest =>
    match Decimal.readWord? (if negative then '-' :: whole else whole) with
    | some value => .ok (.int value, rest)
    | none => .error ⟨rest, .badInteger⟩

/-- The token of a name after a dot: a position if it is all digits. -/
def nameToken? (name : List Char) : Option Token :=
  if name.all Char.isDigit then
    (Decimal.readWord? name).map fun position => .index position.toInt
  else some (.key (String.ofList name))

/-- Reads what follows a dot. -/
def readName : Reading Token := fun input =>
  let name := input.takeWhile Text.isIdentifierChar
  let rest := input.dropWhile Text.isIdentifierChar
  if name.isEmpty then .error ⟨rest, .missingName⟩
  else
    match nameToken? name with
    | some token => .ok (token, rest)
    | none => .error ⟨rest, .badPosition⟩

/-- Reads a position in brackets. -/
def readPosition : Reading Token := fun input =>
  match readNumber input with
  | .ok (.int position, rest) => .ok (.index position.toInt, rest)
  | .ok (_, rest) => .error ⟨rest, .fractionalPosition⟩
  | .error stop => .error stop

/-- Reads a quoted name or a position. -/
def readContent : Reading Token := fun input =>
  match input with
  | c :: rest =>
    if c = '\'' ∨ c = '"' then (readString c rest).map fun (name, rest) => (.key name, rest)
    else readPosition (c :: rest)
  | [] => readPosition []

/-- Reads what follows an opening bracket, with the closing bracket. -/
def readBracket : Reading Token := fun input =>
  match readContent (Text.dropBlanks input) with
  | .error stop => .error stop
  | .ok (token, rest) =>
    match Text.dropBlanks rest with
    | ']' :: rest => .ok (token, rest)
    | rest => .error ⟨rest, .missingBracket⟩

/-- Reads the steps of a path; every step takes a character, so as many as there are characters
suffice. -/
def readSteps : Nat → Reading Path
  | 0, input => .ok ([], input)
  | fuel + 1, input =>
    match input with
    | '.' :: rest => do
      let (token, rest) ← readName rest
      let (path, rest) ← readSteps fuel rest
      .ok (token :: path, rest)
    | '[' :: rest => do
      let (token, rest) ← readBracket rest
      let (path, rest) ← readSteps fuel rest
      .ok (token :: path, rest)
    | rest => .ok ([], rest)

/-- Reads a word: one of the named literals, or a variable with a path. -/
def readWord : Reading Expr := fun input =>
  let name := String.ofList (input.takeWhile Text.isIdentifierChar)
  let rest := input.dropWhile Text.isIdentifierChar
  if name = "true" then .ok (.literal (.bool true), rest)
  else if name = "false" then .ok (.literal (.bool false), rest)
  else if name = "null" then .ok (.literal .null, rest)
  else (readSteps rest.length rest).map fun (path, rest) => (.lookup name path, rest)

/-! ## Operators -/

/-- Splits off a comparison; `in` counts only where no name goes on. -/
def splitComparison? : List Char → Option (Comparison × List Char)
  | '=' :: '=' :: rest => some (.equal, rest)
  | '!' :: '=' :: rest => some (.unequal, rest)
  | '<' :: '=' :: rest => some (.atMost, rest)
  | '>' :: '=' :: rest => some (.atLeast, rest)
  | '<' :: rest => some (.less, rest)
  | '>' :: rest => some (.greater, rest)
  | 'i' :: 'n' :: rest =>
    if rest.head?.any Text.isIdentifierChar then none else some (.member, rest)
  | _ => none

/-- Reads an operand; `inner` reads what stands in parentheses. -/
def operand (inner : Reading Expr) : Reading Expr := fun input =>
  match Text.dropBlanks input with
  | [] => .error ⟨[], .missingOperand⟩
  | c :: rest =>
    if c = '(' then
      match inner rest with
      | .error stop => .error stop
      | .ok (expr, rest) =>
        match Text.dropBlanks rest with
        | ')' :: rest => .ok (expr, rest)
        | rest => .error ⟨rest, .missingParenthesis⟩
    else if c = '\'' ∨ c = '"' then
      (readString c rest).map fun (text, rest) => (.literal (.string text), rest)
    else if c = '-' ∨ c.isDigit then
      (readNumber (c :: rest)).map fun (number, rest) => (.literal number, rest)
    else if Text.isIdentifierStart c then readWord (c :: rest)
    else .error ⟨c :: rest, .badOperand⟩

/-- Reads an operand or a comparison of two. -/
def comparison (inner : Reading Expr) : Reading Expr := fun input => do
  let (left, rest) ← operand inner input
  let rest := Text.dropBlanks rest
  match splitComparison? rest with
  | some (comparison, rest) =>
    let (right, rest) ← operand inner rest
    .ok (.compare left comparison right, rest)
  | none => .ok (left, rest)

/-- Splits off blanks and signs of negation, and counts the signs. -/
def splitNegations : List Char → Nat × List Char
  | [] => (0, [])
  | c :: rest =>
    if Text.isBlank c then splitNegations rest
    else if c = '!' ∧ rest.head? ≠ some '=' then
      ((splitNegations rest).1 + 1, (splitNegations rest).2)
    else (0, c :: rest)

/-- An expression under a number of negations. -/
def negate : Nat → Expr → Expr
  | 0, expr => expr
  | count + 1, expr => .not (negate count expr)

/-- Reads negations of a comparison. -/
def negation (inner : Reading Expr) : Reading Expr := fun input =>
  (comparison inner (splitNegations input).2).map fun (expr, rest) =>
    (negate (splitNegations input).1 expr, rest)

/-- Reads what follows the first item of a chain whose items are joined by a doubled sign. -/
def chainTail (sign : Char) (join : Expr → Expr → Expr) (item : Reading Expr) :
    Nat → Expr → Reading Expr
  | 0, left, input => .ok (left, input)
  | fuel + 1, left, input =>
    match Text.dropBlanks input with
    | a :: b :: rest =>
      if a = sign ∧ b = sign then
        match item rest with
        | .ok (right, rest) => chainTail sign join item fuel (join left right) rest
        | .error stop => .error stop
      else .ok (left, a :: b :: rest)
    | rest => .ok (left, rest)

/-- Reads a chain of items; every further item takes its sign away, so as many as there are
characters suffice. -/
def chain (sign : Char) (join : Expr → Expr → Expr) (item : Reading Expr) : Reading Expr :=
  fun input => do
    let (first, rest) ← item input
    chainTail sign join item input.length first rest

/-- Reads an expression with parentheses up to a depth. -/
def expression : Nat → Reading Expr
  | 0, input => .error ⟨input, .missingOperand⟩
  | depth + 1, input =>
    chain '|' .or (chain '&' .and (negation (expression depth))) input

/-- Reads a query from its characters; a text has no more parentheses than characters. -/
def parseChars (input : List Char) : Except Stop Expr :=
  match expression (input.length + 1) input with
  | .error stop => .error stop
  | .ok (expr, rest) =>
    match Text.dropBlanks rest with
    | [] => .ok expr
    | rest => .error ⟨rest, .trailingInput⟩

/-- The message about a query that cannot be read. -/
def Stop.message (input : List Char) (stop : Stop) : String :=
  stop.fault.message ++ " at offset " ++
    String.ofList (Decimal.natText (Text.offset input stop.rest)) ++ " in '" ++
    String.ofList input ++ "'"

/-- Reads a query from its text. -/
def parse (source : String) : Outcome Expr :=
  match parseChars source.toList with
  | .ok expr => .ok expr
  | .error stop => .error (.invalidQuery (stop.message source.toList))

end PathDoc.Query

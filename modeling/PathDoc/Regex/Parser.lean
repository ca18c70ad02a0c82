import PathDoc.Decimal.Whole
import PathDoc.Regex.Footprint
import PathDoc.Text.Numeric

/-!
# Reading patterns

A pattern text is read from left to right with a stack of open groups; a bracketed class is read
with a stack of its own. Flags hold from where they are set to the end of their group. With the flag
`x` blanks and comments are skipped. Back references and look-around do not exist and are refused,
and so is a pattern that is nested too deep or takes too much room.

Not all of the usual syntax is read. Refused are the classes of Unicode properties (`\p{L}`, `\pL`,
`\P{L}`), the boundaries at one side of a word (`\<`, `\>`, `\b{start}`, `\b{start-half}` and the
like), and the flags `u` and `R`: `(?u)`, `(?-u:\w)` and `(?R)`, so characters are always those of
Unicode and a line ends with a line feed only. Expressions of literal texts (`escape`) use none of
this. What is said about matching in general holds for any searcher that is `Text.Searcher.Lawful`
and not only for the expressions read here.
-/

set_option autoImplicit false

namespace PathDoc.Regex

/-- What is wrong with a pattern text. -/
inductive Fault where
  /-- A group is not closed. -/
  | unclosedGroup
  /-- A closing parenthesis without a group. -/
  | unopenedGroup
  /-- A group starts with something unknown, or look-around. -/
  | badGroup
  /-- A group name is malformed, empty or repeated. -/
  | badGroupName
  /-- A flag is unknown or repeated. -/
  | badFlag
  /-- A class is not closed. -/
  | unclosedClass
  /-- The ends of a range are out of order or no single characters. -/
  | badRange
  /-- A repetition has nothing to repeat. -/
  | missingOperand
  /-- The numbers of a repetition are malformed or out of order. -/
  | badRepetition
  /-- An escape is unknown or malformed. -/
  | badEscape
  /-- The pattern is nested too deep. -/
  | tooDeep
  /-- The pattern takes too much room. -/
  | tooLarge
  deriving DecidableEq

/-- The wording of a fault in a pattern text. -/
def Fault.message : Fault → String
  | unclosedGroup => "unclosed group"
  | unopenedGroup => "unopened group"
  | badGroup => "unrecognized group"
  | badGroupName => "invalid capture group name"
  | badFlag => "invalid flag"
  | unclosedClass => "unclosed character class"
  | badRange => "invalid character class range"
  | missingOperand => "repetition operator missing expression"
  | badRepetition => "invalid repetition count"
  | badEscape => "unrecognized escape sequence"
  | tooDeep => "pattern is nested too deep"
  | tooLarge => "compiled pattern exceeds the size limit"

/-- The modes of reading. -/
structure Flags where
  /-- `i`: characters match their case variants. -/
  ignoreCase : Bool
  /-- `m`: `^` and `$` match at lines. -/
  multiLine : Bool
  /-- `s`: a dot matches line feeds too. -/
  dotAll : Bool
  /-- `U`: repetitions are lazy unless marked. -/
  swapGreed : Bool
  /-- `x`: blanks and comments are skipped. -/
  ignoreSpace : Bool

/-- Turns the flag of a letter on or off; `u` and `R` are not read. -/
def Flags.set? (flags : Flags) (letter : Char) (value : Bool) : Option Flags :=
  match letter with
  | 'i' => some { flags with ignoreCase := value }
  | 'm' => some { flags with multiLine := value }
  | 's' => some { flags with dotAll := value }
  | 'U' => some { flags with swapGreed := value }
  | 'x' => some { flags with ignoreSpace := value }
  | _ => none

/-- Leaves out blanks and comments. -/
def skipBlanks (inComment : Bool) : List Char → List Char
  | [] => []
  | c :: rest =>
    if inComment then skipBlanks (c != '\n') rest
    else if Text.isBlank c then skipBlanks false rest
    else if c = '#' then skipBlanks true rest
    else c :: rest

/-- Leaves out blanks and comments if the flags say so. -/
def Flags.skip (flags : Flags) (input : List Char) : List Char :=
  if flags.ignoreSpace then skipBlanks false input else input

/-- The next character past blanks and at most one number sign; `seen` says whether one came. -/
def peekPastBlanks (seen : Bool) : List Char → Option Char
  | [] => none
  | c :: rest =>
    if Text.isBlank c then peekPastBlanks seen rest
    else if c = '#' && !seen then peekPastBlanks true rest
    else some c

/-- The character that decides what a minus sign before it means. With the flag `x` blanks do not
count, nor does a number sign, though the comment behind it does. -/
def Flags.peek (flags : Flags) (input : List Char) : Option Char :=
  if flags.ignoreSpace then peekPastBlanks false input else input.head?

/-- How deep a pattern may be nested. -/
def depthLimit : Nat := 250

/-! ## Escapes -/

/-- What an escape or a plain character of a class stands for. -/
inductive Atom where
  /-- A character. -/
  | char (c : Char)
  /-- A class. -/
  | set (set : CharSet)
  /-- A condition. -/
  | assertion (assertion : Assertion)

/-- Whether a character may stand for something else than itself in a pattern. -/
def isMeta (c : Char) : Bool :=
  ['\\', '.', '+', '*', '?', '(', ')', '|', '[', ']', '\x7b', '\x7d', '^', '$', '#', '&', '-',
    '~'].contains c

/-- The pattern of a text as it is: a backslash stands before what may have another meaning. -/
def escape (text : List Char) : List Char :=
  text.flatMap fun c => if isMeta c then ['\\', c] else [c]

/-- Whether a character may be escaped to stand for itself. -/
def isEscapable (c : Char) : Bool :=
  c.toNat < 128 && !c.isAlphanum && c != '<' && c != '>'

/-- The value of a hexadecimal digit. -/
def hexDigitValue? (c : Char) : Option Nat :=
  if c.isDigit then some (c.toNat - '0'.toNat)
  else if 'a' ≤ c ∧ c ≤ 'f' then some (c.toNat - 'a'.toNat + 10)
  else if 'A' ≤ c ∧ c ≤ 'F' then some (c.toNat - 'A'.toNat + 10)
  else none

/-- The character of a code point. -/
def charOfCode (code : Nat) : Except Fault Char :=
  if code.isValidChar then .ok (Char.ofNat code) else .error .badEscape

/-- Reads a fixed number of hexadecimal digits. -/
def readHexDigits (flags : Flags) : Nat → Nat → List Char → Except Fault (Nat × List Char)
  | 0, value, input => .ok (value, input)
  | count + 1, value, input =>
    match flags.skip input with
    | c :: rest =>
      match hexDigitValue? c with
      | some digit => readHexDigits flags count (value * 16 + digit) rest
      | none => .error .badEscape
    | [] => .error .badEscape

/-- Reads hexadecimal digits up to a closing brace. -/
def readHexBraced (flags : Flags) : Nat → Nat → List Char → Except Fault (Nat × List Char)
  | 0, _, _ => .error .badEscape
  | fuel + 1, value, input =>
    match flags.skip input with
    | [] => .error .badEscape
    | c :: rest =>
      if c = '\x7d' then .ok (value, rest)
      else
        match hexDigitValue? c with
        | some digit => readHexBraced flags fuel (value * 16 + digit) rest
        | none => .error .badEscape

/-- Reads a numeric escape of `count` digits, or of any number between braces. -/
def readHexEscape (flags : Flags) (count : Nat) (input : List Char) :
    Except Fault (Atom × List Char) := do
  let (code, rest) ←
    match flags.skip input with
    | '\x7b' :: rest =>
      if (flags.skip rest).head? == some '\x7d' then .error .badEscape
      else readHexBraced flags (rest.length + 1) 0 rest
    | digits => readHexDigits flags count 0 digits
  let c ← charOfCode code
  .ok (.char c, rest)

/-- Reads an escape after its backslash. The escapes `p`, `P`, `<` and `>` are refused, and what
stands in braces behind `b` is read as a repetition. -/
def readEscape (flags : Flags) : List Char → Except Fault (Atom × List Char)
  | [] => .error .badEscape
  | c :: rest =>
    match c with
    | 'x' => readHexEscape flags 2 rest
    | 'u' => readHexEscape flags 4 rest
    | 'U' => readHexEscape flags 8 rest
    | 'd' => .ok (.set .digits, rest)
    | 'D' => .ok (.set (.complement .digits), rest)
    | 's' => .ok (.set .blanks, rest)
    | 'S' => .ok (.set (.complement .blanks), rest)
    | 'w' => .ok (.set .words, rest)
    | 'W' => .ok (.set (.complement .words), rest)
    | 'a' => .ok (.char '\x07', rest)
    | 'f' => .ok (.char '\x0c', rest)
    | 't' => .ok (.char '\t', rest)
    | 'n' => .ok (.char '\n', rest)
    | 'r' => .ok (.char '\r', rest)
    | 'v' => .ok (.char '\x0b', rest)
    | 'A' => .ok (.assertion .textStart, rest)
    | 'z' => .ok (.assertion .textEnd, rest)
    | 'b' => .ok (.assertion .wordBoundary, rest)
    | 'B' => .ok (.assertion .notWordBoundary, rest)
    | c => if isEscapable c then .ok (.char c, rest) else .error .badEscape

/-! ## Classes -/

/-- The operations that combine two classes. -/
inductive SetOperation where
  /-- What both have. -/
  | intersection
  /-- What only the first has. -/
  | difference
  /-- What exactly one of them has. -/
  | symmetric

/-- Combines two classes. -/
def SetOperation.apply (ignoreCase : Bool) (a b : CharSet) : SetOperation → CharSet
  | intersection => .intersection (.foldIf ignoreCase a) (.foldIf ignoreCase b)
  | difference => .difference (.foldIf ignoreCase a) (.foldIf ignoreCase b)
  | symmetric => .symmetric (.foldIf ignoreCase a) (.foldIf ignoreCase b)

/-- What a class holds so far. -/
structure Members where
  /-- The characters of its items. -/
  set : CharSet
  /-- How many items there were. -/
  count : Nat
  /-- The depth of the deepest item. -/
  depth : Nat

namespace Members

/-- A class without items. -/
def none : Members := ⟨.none, 0, 0⟩

/-- Adds an item of some depth. -/
def add (members : Members) (item : CharSet) (depth : Nat) : Members :=
  ⟨item.union members.set, members.count + 1, members.depth.max depth⟩

/-- How deep the items are nested together: a list of several is a level of its own. -/
def nesting (members : Members) : Nat :=
  if members.count ≤ 1 then members.depth else members.depth + 1

end Members

/-- What waits for the class at hand. -/
inductive ClassFrame where
  /-- An opened bracket, with what the class around it holds so far. -/
  | bracket (outer : Members) (negated : Bool)
  /-- An operation with its first operand and the depth of that. -/
  | operation (operation : SetOperation) (left : CharSet) (depth : Nat)

/-- Finishes the operand of a pending operation. Gives its value, its depth and what still waits. -/
def finishOperand (flags : Flags) (members : Members) :
    List ClassFrame → CharSet × Nat × List ClassFrame
  | .operation op left depth :: rest =>
    (op.apply flags.ignoreCase left members.set, depth.max members.nesting + 1, rest)
  | stack => (members.set, members.nesting, stack)

/-- Takes leading minus signs of a class for characters. -/
def readLeadingMinus (flags : Flags) (members : Members) : Nat → List Char → Members × List Char
  | 0, input => (members, input)
  | fuel + 1, input =>
    match input with
    | '-' :: rest => readLeadingMinus flags (members.add (.single '-') 0) fuel (flags.skip rest)
    | input => (members, input)

/-- Reads the start of a class after its bracket: a negation, at most `fuel` minus signs and a
closing bracket that stands for itself. -/
def readClassStart (flags : Flags) (fuel : Nat) (input : List Char) :
    Bool × Members × List Char :=
  let input := flags.skip input
  let (negated, input) := match input with
    | '^' :: rest => (true, flags.skip rest)
    | input => (false, input)
  let (members, input) := readLeadingMinus flags .none fuel input
  match members.count, input with
  | 0, ']' :: rest => (negated, members.add (.single ']') 0, flags.skip rest)
  | _, input => (negated, members, input)

/-- Reads a named class after its first bracket, up to its last bracket. -/
def readNamedClass? (flags : Flags) : List Char → Option (CharSet × List Char)
  | ':' :: rest =>
    let (negated, rest) := match rest with
      | '^' :: rest => (true, rest)
      | rest => (false, rest)
    match rest.dropWhile (· != ':') with
    | ':' :: ']' :: after =>
      (CharSet.asciiClass? (String.ofList (rest.takeWhile (· != ':')))).map fun members =>
        (.complementIf negated (.foldIf flags.ignoreCase members), after)
    | _ => none
  | _ => none

/-- Reads a character or an escape of a class. -/
def readClassAtom (flags : Flags) : List Char → Except Fault (Atom × List Char)
  | [] => .error .unclosedClass
  | '\\' :: rest => readEscape flags rest
  | c :: rest => .ok (.char c, rest)

/-- The class of an atom. -/
def Atom.toSet : Atom → Except Fault CharSet
  | .char c => .ok (.single c)
  | .set members => .ok members
  | .assertion _ => .error .badEscape

/-- Reads an atom of a class or a range. -/
def readClassItem (flags : Flags) (input : List Char) : Except Fault (CharSet × List Char) := do
  let (first, rest) ← readClassAtom flags input
  let single : Except Fault (CharSet × List Char) := do
    let set ← first.toSet
    .ok (set, flags.skip rest)
  match flags.skip rest with
  | [] => .error .unclosedClass
  | '-' :: afterMinus =>
    if flags.peek afterMinus == some ']' || flags.peek afterMinus == some '-' then single
    else if (flags.skip afterMinus).isEmpty then .error .unclosedClass
    else do
      let (last, rest) ← readClassAtom flags (flags.skip afterMinus)
      match first, last with
      | .char a, .char b => if a ≤ b then .ok (.range a b, rest) else .error .badRange
      | _, _ => .error .badRange
  | _ => single

/-- Reads the rest of a class; every round takes a character away. Gives the class and its depth. -/
def readClassFrom (flags : Flags) :
    Nat → List ClassFrame → Members → List Char → Except Fault ((CharSet × Nat) × List Char)
  | 0, _, _, _ => .error .unclosedClass
  | fuel + 1, stack, members, input =>
    let operate (op : SetOperation) (rest : List Char) :=
      let (left, depth, stack) := finishOperand flags members stack
      readClassFrom flags fuel (.operation op left depth :: stack) .none rest
    match flags.skip input with
    | [] => .error .unclosedClass
    | '[' :: rest =>
      match readNamedClass? flags rest with
      | some (named, rest) => readClassFrom flags fuel stack (members.add named 0) rest
      | none =>
        let (negated, inner, rest) := readClassStart flags fuel rest
        readClassFrom flags fuel (.bracket members negated :: stack) inner rest
    | ']' :: rest =>
      let (set, depth, stack) := finishOperand flags members stack
      match stack with
      | .bracket outer negated :: stack =>
        let set := CharSet.complementIf negated (.foldIf flags.ignoreCase set)
        if depthLimit ≤ depth then .error .tooDeep
        else if stack.isEmpty then .ok ((set, depth + 1), rest)
        else readClassFrom flags fuel stack (outer.add set (depth + 1)) rest
      | _ => .error .unclosedClass
    | '&' :: '&' :: rest => operate .intersection rest
    | '-' :: '-' :: rest => operate .difference rest
    | '~' :: '~' :: rest => operate .symmetric rest
    | input => do
      let (item, rest) ← readClassItem flags input
      readClassFrom flags fuel stack (members.add item 0) rest

/-- Reads a class after its opening bracket. Gives the class and its depth. -/
def readClass (flags : Flags) (input : List Char) :
    Except Fault ((CharSet × Nat) × List Char) :=
  let (negated, members, rest) := readClassStart flags (input.length + 1) input
  readClassFrom flags (input.length + 1) [.bracket .none negated] members rest

/-! ## Repetitions -/

/-- Reads decimal digits. -/
def readDigits (flags : Flags) : Nat → List Char → List Char × List Char
  | 0, input => ([], input)
  | fuel + 1, input =>
    match input with
    | c :: rest =>
      if c.isDigit then
        let (digits, rest) := readDigits flags fuel (flags.skip rest)
        (c :: digits, rest)
      else ([], input)
    | [] => ([], [])

/-- Reads a decimal number with blanks around it. -/
def readCount (flags : Flags) (input : List Char) : Except Fault (Nat × List Char) :=
  let input := input.dropWhile Text.isBlank
  let (digits, rest) := readDigits flags input.length input
  if digits.isEmpty then .error .badRepetition
  else if 0x100000000 ≤ Decimal.natValue digits then .error .badRepetition
  else .ok (Decimal.natValue digits, flags.skip (rest.dropWhile Text.isBlank))

/-- Reads the bounds of a counted repetition after its opening brace. -/
def readBounds (flags : Flags) (input : List Char) :
    Except Fault ((Nat × Option Nat) × List Char) := do
  let (min, rest) ← readCount flags (flags.skip input)
  match rest with
  | '\x7d' :: rest => .ok ((min, some min), rest)
  | ',' :: rest =>
    match flags.skip rest with
    | '\x7d' :: rest => .ok ((min, none), rest)
    | rest => do
      let (max, rest) ← readCount flags rest
      match rest with
      | '\x7d' :: rest =>
        if min ≤ max then .ok ((min, some max), rest) else .error .badRepetition
      | _ => .error .badRepetition
  | _ => .error .badRepetition

/-! ## Groups -/

/-- Whether a character may stand in the name of a group. -/
def isNameChar (first : Bool) (c : Char) : Bool :=
  if first then c == '_' || Text.isAlphabetic c
  else c == '_' || c == '.' || c == '[' || c == ']' || Text.isAlphanumeric c

/-- Reads the name of a group up to its closing angle bracket. -/
def readName (input : List Char) : Except Fault (List Char × List Char) :=
  let name := input.takeWhile (· != '>')
  match name, input.dropWhile (· != '>') with
  | c :: tail, '>' :: rest =>
    if isNameChar true c && tail.all (isNameChar false) then .ok (c :: tail, rest)
    else .error .badGroupName
  | _, _ => .error .badGroupName

/-- Reads flags up to a colon or a closing parenthesis. Gives the new flags, whether a colon ended
them, whether there were any and the rest. `seen` holds the letters so far, `dangling` says that a
minus sign came last. -/
def readFlags (flags : Flags) (seen : List Char) (negated dangling : Bool) :
    List Char → Except Fault (Flags × Bool × Bool × List Char)
  | [] => .error .badFlag
  | c :: rest =>
    if c = ':' ∨ c = ')' then
      if dangling then .error .badFlag else .ok (flags, c == ':', !seen.isEmpty, rest)
    else if c = '-' then
      if negated then .error .badFlag else readFlags flags seen true true rest
    else if seen.contains c then .error .badFlag
    else
      match flags.set? c (!negated) with
      | some flags => readFlags flags (c :: seen) negated false rest
      | none => .error .badFlag

/-- A part of a pattern that was read. -/
structure Part where
  /-- Its reduced form. -/
  pattern : Pattern
  /-- How deep it is nested. -/
  depth : Nat

/-- How deep parts are nested together: several are a level of their own. -/
def jointDepth : List Nat → Nat
  | [] => 0
  | [depth] => depth
  | depths => depths.foldl Nat.max 0 + 1

/-- A group that is open while its content is read. -/
structure Frame where
  /-- The finished branches of the group around it, the last one first. -/
  branches : List Part
  /-- The items of the current branch around it, the last one first. -/
  items : List (Option Part)
  /-- The flags around it. -/
  flags : Flags
  /-- Its number, if its place is remembered. -/
  index : Option Nat

/-- The state of reading a pattern. -/
structure Reader where
  /-- The open groups. -/
  stack : List Frame
  /-- The finished branches of the innermost group, the last one first. -/
  branches : List Part
  /-- The items of the current branch, the last one first; nothing stands for a change of flags. -/
  items : List (Option Part)
  /-- The flags in force. -/
  flags : Flags
  /-- How many groups have been numbered. -/
  groups : Nat
  /-- The names given to groups. -/
  names : List (List Char)

namespace Reader

/-- The current branch. -/
def branch (reader : Reader) : Part :=
  ⟨Pattern.concat ((reader.items.filterMap id).reverse.map (·.pattern)),
    jointDepth (reader.items.map fun item => (item.map (·.depth)).getD 0)⟩

/-- All branches of the innermost group. -/
def body (reader : Reader) : Part :=
  match reader.branches with
  | [] => reader.branch
  | earlier =>
    let parts := reader.branch :: earlier
    ⟨Pattern.alternation (parts.reverse.map (·.pattern)), jointDepth (parts.map (·.depth))⟩

/-- Replaces the items of the current branch by earlier ones and a further part. -/
def extend (reader : Reader) (earlier : List (Option Part)) (pattern : Pattern) (depth : Nat) :
    Except Fault Reader :=
  if depthLimit < depth then .error .tooDeep
  else .ok { reader with items := some ⟨pattern, depth⟩ :: earlier }

/-- Adds an item to the current branch. -/
def push (reader : Reader) (pattern : Pattern) (depth : Nat) : Except Fault Reader :=
  reader.extend reader.items pattern depth

/-- Starts a new branch. -/
def nextBranch (reader : Reader) : Reader :=
  { reader with branches := reader.branch :: reader.branches, items := [] }

/-- Opens a group. -/
def openGroup (reader : Reader) (inner : Flags) (index : Option Nat) : Reader :=
  { reader with
    stack := ⟨reader.branches, reader.items, reader.flags, index⟩ :: reader.stack
    branches := []
    items := []
    flags := inner }

/-- Opens a group whose place is remembered. -/
def openCapture (reader : Reader) : Reader :=
  { reader.openGroup reader.flags (some (reader.groups + 1)) with groups := reader.groups + 1 }

/-- Closes the innermost group. -/
def closeGroup (reader : Reader) : Except Fault Reader :=
  match reader.stack with
  | [] => .error .unopenedGroup
  | frame :: stack =>
    let body := reader.body
    let pattern := match frame.index with
      | some index => .group index body.pattern
      | none => body.pattern
    { reader with stack, branches := frame.branches, items := frame.items, flags := frame.flags
      : Reader }.push pattern (body.depth + 1)

/-- Reads the start of a group after its parenthesis. -/
def readGroup (reader : Reader) (input : List Char) : Except Fault (Reader × List Char) :=
  let named (rest : List Char) : Except Fault (Reader × List Char) := do
    let (name, rest) ← readName rest
    if reader.names.contains name then .error .badGroupName
    else .ok ({ reader.openCapture with names := name :: reader.names }, rest)
  match reader.flags.skip input with
  | '?' :: '=' :: _ => .error .badGroup
  | '?' :: '!' :: _ => .error .badGroup
  | '?' :: '<' :: '=' :: _ => .error .badGroup
  | '?' :: '<' :: '!' :: _ => .error .badGroup
  | '?' :: 'P' :: '<' :: rest => named rest
  | '?' :: '<' :: rest => named rest
  | '?' :: rest => do
    let (flags, colon, any, rest) ← readFlags reader.flags [] false false rest
    if colon then .ok (reader.openGroup flags none, rest)
    else if any then .ok ({ reader with items := none :: reader.items, flags }, rest)
    else .error .missingOperand
  | input => .ok (reader.openCapture, input)

/-- Repeats the last item; a question mark right after the operator swaps its greed. -/
def repeatLast (reader : Reader) (min : Nat) (max : Option Nat) (input : List Char) :
    Except Fault (Reader × List Char) :=
  match reader.items with
  | some item :: items => do
    let (greedy, rest) := match input with
      | '?' :: rest => (false, rest)
      | rest => (true, rest)
    let pattern := item.pattern.repeated min max (greedy != reader.flags.swapGreed)
    let reader ← reader.extend items pattern (item.depth + 1)
    .ok (reader, rest)
  | _ => .error .missingOperand

/-- The pattern of an atom. -/
def atomPattern (reader : Reader) : Atom → Pattern
  | .char c => .char reader.flags.ignoreCase c
  | .set members => .ofSet members
  | .assertion condition => .assertion condition

/-- The pattern of a character that is no operator. -/
def plainPattern (reader : Reader) : Char → Pattern
  | '.' => .one (if reader.flags.dotAll then .all else .notNewline)
  | '^' => .assertion (if reader.flags.multiLine then .lineStart else .textStart)
  | '$' => .assertion (if reader.flags.multiLine then .lineEnd else .textEnd)
  | c => .char reader.flags.ignoreCase c

/-- Reads one item or operator that starts with a given character. -/
def step (reader : Reader) (c : Char) (rest : List Char) : Except Fault (Reader × List Char) :=
  match c with
  | '(' => reader.readGroup rest
  | ')' => do
    let reader ← reader.closeGroup
    .ok (reader, rest)
  | '|' => .ok (reader.nextBranch, rest)
  | '[' => do
    let ((set, depth), rest) ← readClass reader.flags rest
    let reader ← reader.push (.ofSet set) depth
    .ok (reader, rest)
  | '?' => reader.repeatLast 0 (some 1) rest
  | '*' => reader.repeatLast 0 none rest
  | '+' => reader.repeatLast 1 none rest
  | '\x7b' =>
    match reader.items with
    | some _ :: _ => do
      let ((min, max), rest) ← readBounds reader.flags rest
      reader.repeatLast min max (reader.flags.skip rest)
    | _ => .error .missingOperand
  | '\\' => do
    let (atom, rest) ← readEscape reader.flags rest
    let reader ← reader.push (reader.atomPattern atom) 0
    .ok (reader, rest)
  | c => do
    let reader ← reader.push (reader.plainPattern c) 0
    .ok (reader, rest)

/-- Reads items to the end; every round takes a character away. -/
def readItems : Nat → Reader → List Char → Except Fault Reader
  | 0, reader, _ => .ok reader
  | fuel + 1, reader, input =>
    match reader.flags.skip input with
    | [] => .ok reader
    | c :: rest => do
      let (reader, rest) ← reader.step c rest
      readItems fuel reader rest

end Reader

/-- Reads a pattern. A text is refused if it is no pattern, or if the pattern is nested too deep or
takes too much room. -/
def parse (ignoreCase : Bool) (input : List Char) : Except Fault Pattern := do
  let flags : Flags := ⟨ignoreCase, false, false, false, false⟩
  let reader ← Reader.readItems (input.length + 1) ⟨[], [], [], flags, 0, []⟩ input
  let body := reader.body
  if !reader.stack.isEmpty then .error .unclosedGroup
  else if depthLimit < body.depth then .error .tooDeep
  else if body.pattern.fits then .ok body.pattern
  else .error .tooLarge

end PathDoc.Regex

import PathDoc.Decimal.Layout
import PathDoc.Json.Value

/-!
# Writing JSON

`Json.compact` writes a value without blanks and `Json.pretty` on indented lines. Strings escape
quotes, backslashes and control characters only. A number that is not finite is written as `null`.
-/

set_option autoImplicit false

namespace PathDoc.Json

/-- Numbers in JSON text: no exponent from 0.00001 up to sixteen places before the point, always a
point or an exponent, and ties go to the even digit. -/
def numberLayout : Decimal.Layout where
  positional exponent := -5 ≤ exponent && exponent ≤ 15
  keepsPoint := true
  tie := .toEven

/-- One lower case hexadecimal digit. -/
def hexDigit (n : Nat) : Char :=
  Nat.digitChar (n % 16)

/-- A character between quotes. -/
def escapeChar (c : Char) : List Char :=
  match c with
  | '"' => ['\\', '"']
  | '\\' => ['\\', '\\']
  | '\n' => ['\\', 'n']
  | '\r' => ['\\', 'r']
  | '\t' => ['\\', 't']
  | c =>
    if c.toNat = 8 then ['\\', 'b']
    else if c.toNat = 12 then ['\\', 'f']
    else if c.toNat < 32 then ['\\', 'u', '0', '0', hexDigit (c.toNat / 16), hexDigit c.toNat]
    else [c]

/-- A string between quotes. -/
def quoted (text : String) : List Char :=
  '"' :: text.toList.flatMap escapeChar ++ ['"']

/-- A number, or `null` if it is not finite. -/
def floatChars (x : Float) : List Char :=
  if x.isFinite then Decimal.floatText numberLayout x else ['n', 'u', 'l', 'l']

/-- The text of a value that is not a container. -/
def leafChars : Json → List Char
  | bool true => ['t', 'r', 'u', 'e']
  | bool false => ['f', 'a', 'l', 's', 'e']
  | int n => Decimal.intText n
  | float x => floatChars x
  | string s => quoted s
  | _ => ['n', 'u', 'l', 'l']

/-! ## On one line -/

mutual

/-- The characters of a value without blanks. -/
def compactChars : Json → List Char
  | array items => '[' :: compactItems items ++ [']']
  | object entries => '\x7b' :: compactEntries entries ++ ['\x7d']
  | leaf => leafChars leaf

/-- The items of a list, with commas between them. -/
def compactItems : List Json → List Char
  | [] => []
  | [item] => compactChars item
  | item :: rest => compactChars item ++ ',' :: compactItems rest

/-- The entries of an object, with commas between them. -/
def compactEntries : List (String × Json) → List Char
  | [] => []
  | [(name, value)] => quoted name ++ ':' :: compactChars value
  | (name, value) :: rest => quoted name ++ ':' :: compactChars value ++ ',' :: compactEntries rest

end

/-- The text of a value on one line. -/
def compact (value : Json) : String :=
  String.ofList value.compactChars

/-! ## On indented lines -/

/-- A line break and the indentation of a nesting level. -/
def lineBreak (level : Nat) : List Char :=
  '\n' :: List.replicate (2 * level) ' '

mutual

/-- The characters of a value whose lines are indented for a nesting level. -/
def prettyChars (level : Nat) : Json → List Char
  | array [] => ['[', ']']
  | array (item :: rest) => '[' :: prettyItems (level + 1) (item :: rest) ++ lineBreak level ++ [']']
  | object [] => ['\x7b', '\x7d']
  | object (entry :: rest) =>
    '\x7b' :: prettyEntries (level + 1) (entry :: rest) ++ lineBreak level ++ ['\x7d']
  | leaf => leafChars leaf

/-- The items of a list, one a line. -/
def prettyItems (level : Nat) : List Json → List Char
  | [] => []
  | [item] => lineBreak level ++ prettyChars level item
  | item :: rest => lineBreak level ++ prettyChars level item ++ ',' :: prettyItems level rest

/-- The entries of an object, one a line. -/
def prettyEntries (level : Nat) : List (String × Json) → List Char
  | [] => []
  | [(name, value)] => lineBreak level ++ quoted name ++ [':', ' '] ++ prettyChars level value
  | (name, value) :: rest =>
    lineBreak level ++ quoted name ++ [':', ' '] ++ prettyChars level value ++
      ',' :: prettyEntries level rest

end

/-- The text of a value on indented lines. -/
def pretty (value : Json) : String :=
  String.ofList (value.prettyChars 0)

end PathDoc.Json

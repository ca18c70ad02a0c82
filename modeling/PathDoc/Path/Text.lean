import PathDoc.Path.Token
import PathDoc.Text.Numeric
import PathDoc.Text.Quoted

/-!
# The canonical text of a path

A position is written in brackets, a plain name after a dot (without the dot at the start), any
other name between brackets and single quotes.
-/

set_option autoImplicit false

namespace PathDoc

/-- Whether a character may stand in a name that is written without quotes. -/
def Text.isPlainChar (c : Char) : Bool :=
  isAlphanumeric c || c == '_' || c == '-' || c == '$'

/-- Whether a name can be written without quotes and be read back as itself. -/
def Text.isPlainName (name : List Char) : Bool :=
  !name.isEmpty && !name.all Char.isDigit && name.all isPlainChar

/-- The text of one token, at the start of a path or further on. -/
def Token.render (atStart : Bool) : Token → List Char
  | index position => '[' :: Decimal.intText position ++ [']']
  | key name =>
    if Text.isPlainName name.toList then
      if atStart then name.toList else '.' :: name.toList
    else ['[', '\''] ++ Text.escape name.toList ++ ['\'', ']']

namespace Path

/-- The characters of the canonical text of a path. -/
def render : Path → List Char
  | [] => []
  | token :: rest => token.render true ++ rest.flatMap (Token.render false)

/-- The canonical text of a path. -/
def text (path : Path) : String :=
  String.ofList path.render

end Path

end PathDoc

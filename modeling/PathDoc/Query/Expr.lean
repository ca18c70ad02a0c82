import PathDoc.Decimal.Layout
import PathDoc.Document.Basic
import PathDoc.Path.Text

/-!
# Query expressions

A query compares literals with values found at paths below a variable and combines the results with
"and", "or" and "not". `Expr.render` writes an expression with parentheses around every "and" and
"or", so that the text shows its structure.
-/

set_option autoImplicit false

namespace PathDoc.Query

/-- A value written in a query. -/
inductive Literal where
  /-- Nothing. -/
  | null
  /-- A truth value. -/
  | bool (value : Bool)
  /-- An integer. -/
  | int (value : Int64)
  /-- A number with a point. -/
  | float (value : Float)
  /-- A quoted text. -/
  | string (value : String)

/-- The document that a literal stands for. -/
def Literal.toDocument : Literal → Document
  | null => .null
  | bool value => .bool value
  | int value => .int value
  | float value => .float value
  | string value => .string value

/-- The text of a literal. -/
def Literal.render : Literal → List Char
  | null => "null".toList
  | bool true => "true".toList
  | bool false => "false".toList
  | int value => Decimal.intText value.toInt
  | float value => Decimal.floatText Decimal.plain value
  | string value => '\'' :: (Text.escape value.toList ++ ['\''])

/-- How two values are compared. -/
inductive Comparison where
  /-- Both are equal. -/
  | equal
  /-- They are not equal. -/
  | unequal
  /-- The left one is smaller. -/
  | less
  /-- The left one is not greater. -/
  | atMost
  /-- The left one is greater. -/
  | greater
  /-- The left one is not smaller. -/
  | atLeast
  /-- The right one holds the left one. -/
  | member
  deriving DecidableEq

/-- The sign of a comparison. -/
def Comparison.sign : Comparison → String
  | equal => "=="
  | unequal => "!="
  | less => "<"
  | atMost => "<="
  | greater => ">"
  | atLeast => ">="
  | member => "in"

/-- A query. -/
inductive Expr where
  /-- A value. -/
  | literal (literal : Literal)
  /-- The value at a path below a variable. -/
  | lookup (name : String) (path : Path)
  /-- A comparison. -/
  | compare (left : Expr) (comparison : Comparison) (right : Expr)
  /-- Both hold. -/
  | and (a b : Expr)
  /-- One holds. -/
  | or (a b : Expr)
  /-- It does not hold. -/
  | not (a : Expr)

/-- The text of a path below a variable: a dot stands before a plain name. -/
def renderBelow (path : Path) : List Char :=
  match path.render with
  | [] => []
  | '[' :: rest => '[' :: rest
  | text => '.' :: text

/-- The text of a query. -/
def Expr.render : Expr → List Char
  | literal value => value.render
  | lookup name path => name.toList ++ renderBelow path
  | compare left comparison right =>
    left.render ++ ' ' :: (comparison.sign.toList ++ ' ' :: right.render)
  | and a b => '(' :: (a.render ++ ' ' :: '&' :: '&' :: ' ' :: (b.render ++ [')']))
  | or a b => '(' :: (a.render ++ ' ' :: '|' :: '|' :: ' ' :: (b.render ++ [')']))
  | not a => '!' :: a.render

/-- The text of a query. -/
def Expr.text (expr : Expr) : String :=
  String.ofList expr.render

end PathDoc.Query

import PathDoc.Decimal.Whole

/-!
# Path tokens

A token is one step of a path: the name of an entry or the position of a child. Tokens are ordered,
positions first; the order is total and lawful, so lists of tokens inherit a lawful lexicographic
order in which a path comes before its extensions.
-/

set_option autoImplicit false

namespace PathDoc

/-- One step of a path. -/
inductive Token where
  /-- A position; negative positions count from the end. -/
  | index (position : Int)
  /-- The name of an entry or of an attribute. -/
  | key (name : String)
  deriving DecidableEq

/-- A path from the root of a document; the empty path is the root itself. -/
abbrev Path := List Token

namespace Token

/-- The text of a token: the decimal digits of a position, the name of a key. -/
def text : Token → String
  | index position => String.ofList (Decimal.intText position)
  | key name => name

/-- Whether a token is a position. -/
def isIndex : Token → Bool
  | index _ => true
  | key _ => false

/-- Positions come before names; positions compare as numbers, names by code points. -/
instance : Ord Token where
  compare
    | index a, index b => compare a b
    | index _, key _ => .lt
    | key _, index _ => .gt
    | key a, key b => compare a b

/-- **The order of tokens is antisymmetric.** -/
instance : Std.OrientedOrd Token where
  eq_swap {a b} := by
    cases a <;> cases b
    · exact Std.OrientedOrd.eq_swap (α := Int)
    · rfl
    · rfl
    · exact Std.OrientedOrd.eq_swap (α := String)

/-- **The order of tokens is transitive.** -/
instance : Std.TransOrd Token where
  isLE_trans {a b c} hab hbc := by
    cases a <;> cases b <;> cases c
    case index.index.index =>
      exact Std.TransOrd.isLE_trans (α := Int) hab hbc
    case index.index.key => rfl
    case index.key.index => exact Bool.noConfusion (show false = true from hbc)
    case index.key.key => rfl
    case key.index.index => exact Bool.noConfusion (show false = true from hab)
    case key.index.key => exact Bool.noConfusion (show false = true from hab)
    case key.key.index => exact Bool.noConfusion (show false = true from hbc)
    case key.key.key =>
      exact Std.TransOrd.isLE_trans (α := String) hab hbc

/-- **Tokens that compare as equal are equal.** -/
instance : Std.LawfulEqOrd Token where
  eq_of_compare {a b} h := by
    cases a <;> cases b
    · exact congrArg index (Std.LawfulEqOrd.eq_of_compare (α := Int) h)
    · cases h
    · cases h
    · exact congrArg key (Std.LawfulEqOrd.eq_of_compare (α := String) h)

end Token

end PathDoc

/-!
# JSON values

A JSON value keeps integers apart from floating-point numbers and keeps the entries of an object in
order.
-/

set_option autoImplicit false

namespace PathDoc

/-- A JSON value. -/
inductive Json where
  /-- The null value. -/
  | null
  /-- A truth value. -/
  | bool (value : Bool)
  /-- A number written without point and exponent. -/
  | int (value : Int)
  /-- Any other number. -/
  | float (value : Float)
  /-- A string. -/
  | string (value : String)
  /-- A list of values. -/
  | array (items : List Json)
  /-- Named values, in order. -/
  | object (entries : List (String × Json))
  deriving Inhabited

end PathDoc

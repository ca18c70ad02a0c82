import PathDoc.Document.Equality
import PathDoc.Navigator
import PathDoc.Query.Expr

/-!
# Evaluating queries

A query is evaluated with a document bound to one variable. A path that leads nowhere gives null; an
unknown variable and a position below a leaf are errors. "And" and "or" look at the right side only
if the left one does not decide. A container equals itself: values remember the place they were read
from (`Operand`), so one that holds `NaN` is still equal to what stands at the same place.
-/

set_option autoImplicit false

namespace PathDoc.Query

/-- What a query is evaluated against. -/
structure Scope where
  /-- The name of the variable. -/
  name : String
  /-- The document bound to it. -/
  document : Document
  /-- How paths are followed. -/
  navigator : Navigator

/-- The order of two values: texts by characters, false before true, numbers by value; others and
`NaN` have none. -/
def ordering? (left right : Document) : Option Ordering :=
  match left, right with
  | .scalar (.string a), .scalar (.string b) => some (Ord.compare a b)
  | .scalar (.bool a), .scalar (.bool b) => some (Ord.compare a b)
  | left, right =>
    match left.number?, right.number? with
    | some a, some b =>
      if a < b then some .lt else if b < a then some .gt else if a == b then some .eq else none
    | _, _ => none

/-- Whether a text stands somewhere inside another one. -/
def isInside (sought : List Char) : List Char → Bool
  | [] => sought.isEmpty
  | c :: rest => sought.isPrefixOf (c :: rest) || isInside sought rest

/-- A value in a query. -/
structure Operand where
  /-- The value. -/
  value : Document
  /-- The place in the document that it was read from, as positions of children. -/
  place : Option (List Nat)

namespace Operand

/-- A value that was not read from the document. -/
def computed (value : Document) : Operand := ⟨value, none⟩

/-- Whether two values are one and the same container of the document. -/
def isSame (left right : Operand) : Bool :=
  left.value.isContainer && left.place.isSome && left.place == right.place

/-- Whether two values are equal. -/
def equals (left right : Operand) : Bool :=
  left.isSame right || left.value.looselyEqual right.value

/-- The children of a value, with their places. -/
def children (operand : Operand) : List Operand :=
  operand.value.children.mapIdx fun position child =>
    ⟨child.2, operand.place.map (· ++ [position])⟩

/-- Whether a value holds another one: a text in a text, a member of a list, a name of a mapping or
a field value of a record. -/
def holds (whole part : Operand) : Bool :=
  match whole.value with
  | .scalar (.string text) =>
    match part.value.string? with
    | some sought => isInside sought.toList text.toList
    | none => false
  | .mapping entries =>
    match part.value.string? with
    | some name => Entries.contains entries name
    | none => false
  | _ => whole.children.any fun item => item.equals part

end Operand

/-- Whether a comparison holds. -/
def Comparison.holds (left right : Operand) : Comparison → Bool
  | equal => left.equals right
  | unequal => !left.equals right
  | less => ordering? left.value right.value == some .lt
  | atMost =>
    ordering? left.value right.value == some .lt || ordering? left.value right.value == some .eq
  | greater => ordering? left.value right.value == some .gt
  | atLeast =>
    ordering? left.value right.value == some .gt || ordering? left.value right.value == some .eq
  | member => right.holds left

/-- The value at a path below a variable; null if the path leads nowhere. -/
def Scope.lookup (scope : Scope) (name : String) (path : Path) : Outcome Operand :=
  if name = scope.name then
    match scope.navigator.get scope.document path with
    | .ok value => .ok ⟨value, some (scope.navigator.trail scope.document path)⟩
    | .error error => if error.isMissingPath then .ok (.computed .null) else .error error
  else .error (.invalidQuery ("unknown variable '" ++ name ++ "'"))

/-- The value of a query, with the place it was read from. -/
def Expr.read (scope : Scope) : Expr → Outcome Operand
  | literal value => .ok (.computed value.toDocument)
  | lookup name path => scope.lookup name path
  | compare left comparison right => do
    let l ← left.read scope
    let r ← right.read scope
    .ok (.computed (.bool (comparison.holds l r)))
  | and a b => do
    let x ← a.read scope
    if x.value.isTruthy then
      let y ← b.read scope
      .ok (.computed (.bool y.value.isTruthy))
    else .ok (.computed (.bool false))
  | or a b => do
    let x ← a.read scope
    if x.value.isTruthy then .ok (.computed (.bool true))
    else
      let y ← b.read scope
      .ok (.computed (.bool y.value.isTruthy))
  | not a => do
    let x ← a.read scope
    .ok (.computed (.bool !x.value.isTruthy))

/-- The value of a query. -/
def Expr.eval (scope : Scope) (expr : Expr) : Outcome Document :=
  (expr.read scope).map (·.value)

/-- Whether a query counts as true. -/
def Expr.isTrue (scope : Scope) (expr : Expr) : Outcome Bool :=
  (expr.eval scope).map Document.isTruthy

end PathDoc.Query

import PathDoc.Document.Equality
import PathDoc.Traversal

/-!
# Rebuilding documents

`Traversal.replaceAll` gives a document in which every topmost node that satisfies a predicate is
replaced. Only containers above a replaced node are rebuilt; a rebuilt set leaves out members that
have become equal to an earlier one.
-/

set_option autoImplicit false

namespace PathDoc.Traversal

/-- A list with a first item that may have changed and a rest that may have changed. -/
def joinChanged {α : Type} (item : α) (rest : List α) : Option α → Option (List α) → Option (List α)
  | none, none => none
  | item', rest' => some (item'.getD item :: rest'.getD rest)

section

variable (traversal : Traversal) (predicate : Document → Bool)
  (replace : Document → Outcome Document)

mutual

/-- The node at a depth after replacement, or nothing if it stays as it is. -/
def rebuild (depth : Nat) (node : Document) : Outcome (Option Document) :=
  if predicate node then (replace node).map some
  else if traversal.expands node depth then
    match node with
    | .scalar _ => .ok none
    | .mapping entries =>
      (rebuildEntries (depth + 1) entries).map fun changed => changed.map .mapping
    | .sequence items =>
      (rebuildItems (depth + 1) items).map fun changed => changed.map .sequence
    | .set members =>
      (rebuildItems (depth + 1) members).map fun changed => changed.map .ofMembers
    | .record name fields =>
      (rebuildEntries (depth + 1) fields).map fun changed => changed.map (.record name)
  else .ok none

/-- The items at a depth after replacement, or nothing if all stay as they are. -/
def rebuildItems (depth : Nat) : List Document → Outcome (Option (List Document))
  | [] => .ok none
  | item :: rest => do
    let item' ← rebuild depth item
    let rest' ← rebuildItems depth rest
    .ok (joinChanged item rest item' rest')

/-- The entries at a depth after replacement, or nothing if all stay as they are. -/
def rebuildEntries (depth : Nat) :
    List (String × Document) → Outcome (Option (List (String × Document)))
  | [] => .ok none
  | (name, value) :: rest => do
    let value' ← rebuild depth value
    let rest' ← rebuildEntries depth rest
    .ok (joinChanged (name, value) rest (value'.map fun value => (name, value)) rest')

end

/-- The document with every topmost match replaced. With `checkFirst` a document without a match is
given back before anything is rebuilt. -/
def replaceAll (checkFirst : Bool) (document : Document) : Outcome Document :=
  if checkFirst && !traversal.contains predicate document then .ok document
  else
    (rebuild traversal predicate replace 0 document).map fun changed => changed.getD document

end

end PathDoc.Traversal

import PathDoc.Document.Equality
import PathDoc.Navigator

/-!
# Writing at paths

A write walks to the container of its last token, changes one slot of it and rebuilds the containers
on the way back. A set never takes in a second equal member: appending one changes nothing and
replacing a member by one that is already there merges the two. `Navigator.set` and
`Navigator.remove` write once.
-/

set_option autoImplicit false

namespace PathDoc

/-- The value that a write stores. -/
inductive Replacement where
  /-- A fixed value. -/
  | value (value : Document)
  /-- A function of the value at the same path. -/
  | compute (f : Document → Outcome Document)

/-- The effect of a write on a document. -/
structure Written where
  /-- The document after the write. -/
  document : Document
  /-- The value that was replaced or removed. -/
  previous : Option Document
  /-- Whether the container of the last token changed. -/
  changed : Bool

/-- Where a write goes. -/
inductive Target where
  /-- To a child that is there. -/
  | existing (slot : Slot)
  /-- To a new entry of a mapping. -/
  | insert (name : String)
  /-- To the end of a sequence or a set. -/
  | append

/-- What is done at the end of a path. -/
inductive Operation where
  /-- Stores a value. -/
  | set (replacement : Replacement)
  /-- Removes the value. -/
  | remove

namespace Document

/-- Whether another member than the one at a position equals a value. -/
def hasOther (members : List Document) (i : Nat) (value : Document) : Bool :=
  (members.eraseIdx i).any (· == value)

/-- Stores a value at a target of a container. -/
def store : Document → Target → Document → Except Miss Written
  | mapping entries, .insert name, value =>
    .ok ⟨mapping (Entries.insert entries name value), none, true⟩
  | sequence items, .append, value => .ok ⟨sequence (items ++ [value]), none, true⟩
  | set members, .append, value =>
    if members.any (· == value) then .ok ⟨set members, none, false⟩
    else .ok ⟨set (members ++ [value]), none, true⟩
  | set members, .existing (.child i), value =>
    if hasOther members i value then
      match members[i]? with
      | some member => .ok ⟨set (members.eraseIdx i), some member, true⟩
      | none => .error .stale
    else
      match members[i]? with
      | some member => .ok ⟨set (members.set i value), some member, true⟩
      | none => .error .stale
  | node, .existing slot, value =>
    match node.at? slot with
    | some old => .ok ⟨node.put slot value, some old, true⟩
    | none => .error .stale
  | node, _, _ => .error (.mismatch ("cannot insert into " ++ node.kind.name))

/-- Removes the child in a slot of a container. -/
def take (node : Document) (slot : Slot) : Except Miss Written :=
  match node, slot with
  | record _ _, _ => .error (.mismatch "cannot remove a record field")
  | node, slot =>
    match node.at? slot with
    | none => .error .stale
    | some old =>
      match node, slot with
      | mapping entries, .entry name => .ok ⟨mapping (Entries.erase entries name), some old, true⟩
      | mapping entries, .child i => .ok ⟨mapping (entries.eraseIdx i), some old, true⟩
      | sequence items, .child i => .ok ⟨sequence (items.eraseIdx i), some old, true⟩
      | set members, .child i => .ok ⟨set (members.eraseIdx i), some old, true⟩
      | _, _ => .error .stale

end Document

namespace Navigator

/-- Where a write of the last token of a path goes. -/
def target (navigator : Navigator) (node : Document) (token : Token) : Except Miss Target :=
  match navigator.locate node token with
  | .ok slot => .ok (.existing slot)
  | .error (.mismatch reason) => .error (.mismatch reason)
  | .error (.missing reason) =>
    match node, token with
    | .mapping _, token => .ok (.insert token.text)
    | .sequence items, .index position =>
      if position = items.length then .ok .append else .error (.missing reason)
    | .set members, .index position =>
      if position = members.length then .ok .append else .error (.missing reason)
    | _, _ => .error (.missing reason)

/-- The value that a replacement stores at a target of a container. -/
def valueFor (path : Path) (last : Token) (node : Document) :
    Target → Replacement → Outcome Document
  | _, .value value => .ok value
  | .existing slot, .compute f =>
    match node.at? slot with
    | some current => f current
    | none => .error (Miss.stale.toError path last)
  | _, .compute _ => .error ((Miss.missing "no current value to update").toError path last)

/-- Carries out an operation on the container of the last token. -/
def applyLast (navigator : Navigator) (path : Path) (last : Token) (node : Document) :
    Operation → Outcome Written
  | .set replacement =>
    match navigator.target node last with
    | .error miss => .error (miss.toError path last)
    | .ok target =>
      match valueFor path last node target replacement with
      | .error error => .error error
      | .ok value => (node.store target value).mapError (·.toError path last)
  | .remove =>
    match navigator.locate node last with
    | .error miss => .error (miss.toError path last)
    | .ok slot => (node.take slot).mapError (·.toError path last)

/-- Walks along tokens, lets `change` act on the node reached and rebuilds the way back. -/
def descend (navigator : Navigator) (path : Path) (change : Document → Outcome Written) :
    Document → List Token → Outcome Written
  | node, [] => change node
  | node, token :: rest =>
    match navigator.child node token with
    | .error miss => .error (miss.toError path token)
    | .ok (slot, value) =>
      (descend navigator path change value rest).map fun written =>
        { written with document := node.put slot written.document }

/-- Carries out an operation on the root. -/
def applyRoot (document : Document) : Operation → Outcome Written
  | .set (.value value) => .ok ⟨value, some document, false⟩
  | .set (.compute f) => (f document).map fun value => ⟨value, some document, false⟩
  | .remove => .error (.typeMismatch "cannot remove the root document")

/-- Carries out an operation at a path. -/
def write (navigator : Navigator) (document : Document) (path : Path) (operation : Operation) :
    Outcome Written :=
  match path.getLast? with
  | none => applyRoot document operation
  | some last =>
    navigator.descend path (fun node => navigator.applyLast path last node operation) document
      path.dropLast

/-- The document with a value stored at a path. -/
def set (navigator : Navigator) (document : Document) (path : Path) (replacement : Replacement) :
    Outcome Document :=
  (navigator.write document path (.set replacement)).map (·.document)

/-- The value removed from a path, and the document without it. -/
def take (navigator : Navigator) (document : Document) (path : Path) :
    Outcome (Document × Document) :=
  (navigator.write document path .remove).map fun written =>
    (written.previous.getD .null, written.document)

/-- The document without the value at a path. -/
def remove (navigator : Navigator) (document : Document) (path : Path) : Outcome Document :=
  (navigator.take document path).map Prod.snd

end Navigator

end PathDoc

import PathDoc.Accessor
import PathDoc.Error
import PathDoc.Path.Text
import PathDoc.Position

/-!
# Following paths

A navigator resolves one token after the other, first through the entries and positions of the node
itself, then through the attribute accessors of its registry, if it has one. `Navigator.get` reads
the value at a path, `Navigator.trail` says where that value stands and `Navigator.getKeepPath`
wraps it in mappings along the path.
-/

set_option autoImplicit false

namespace PathDoc

/-- A place for a child inside a container. -/
inductive Slot where
  /-- The entry under a name. -/
  | entry (name : String)
  /-- The child at a position. -/
  | child (position : Nat)
  deriving DecidableEq

/-- Why a token leads nowhere. -/
inductive Miss where
  /-- There is no such child. -/
  | missing (reason : String)
  /-- The node is of the wrong kind for the token. -/
  | mismatch (reason : String)

/-- The error of a token that leads nowhere on a path. -/
def Miss.toError (path : Path) (token : Token) : Miss → Error
  | missing reason => .navigation path.text token.text reason
  | mismatch reason => .typeMismatch (reason ++ " at '" ++ path.text ++ "'")

/-- A slot that holds nothing, which only an accessor can give. -/
def Miss.stale : Miss := .missing "stale slot"

namespace Document

/-- The child in a slot. -/
def at? : Document → Slot → Option Document
  | mapping entries, .entry name => Entries.get? entries name
  | mapping entries, .child i => entries[i]?.map Prod.snd
  | sequence items, .child i => items[i]?
  | set members, .child i => members[i]?
  | record _ fields, .child i => fields[i]?.map Prod.snd
  | _, _ => none

/-- The position of the child in a slot. -/
def positionAt : Document → Slot → Nat
  | mapping entries, .entry name => entries.findIdx fun entry => entry.1 == name
  | _, .entry _ => 0
  | _, .child i => i

/-- Replaces the child in a slot. -/
def put : Document → Slot → Document → Document
  | mapping entries, .entry name, value => mapping (Entries.insert entries name value)
  | mapping entries, .child i, value => mapping (Entries.setAt entries i value)
  | sequence items, .child i, value => sequence (items.set i value)
  | set members, .child i, value => set (members.set i value)
  | record name fields, .child i, value => record name (Entries.setAt fields i value)
  | document, _, _ => document

/-- Wraps a value in mappings of one entry each, one for every token of a path. -/
def wrap (path : Path) (value : Document) : Document :=
  path.foldr (fun token inner => mapping [(token.text, inner)]) value

end Document

/-- A way to follow paths, with or without attribute accessors. -/
structure Navigator where
  /-- The accessors to fall back on; none turns the fallback off. -/
  registry : Option Registry

namespace Navigator

/-- Falls back on the standard accessors. -/
def standard : Navigator := ⟨some .standard⟩

/-- Knows entries and positions only. -/
def itemsOnly : Navigator := ⟨none⟩

/-- The slot that a node exposes as an attribute. -/
def attribute? (navigator : Navigator) (node : Document) (name : String) : Option Slot :=
  (navigator.registry.bind fun registry => registry.position? node name).map .child

/-- The failure of a token whose child is not there. -/
def notFound (what : String) (node : Document) : Miss :=
  .missing (what ++ " not found in " ++ node.kind.name)

/-- An attribute of a node, or the failure to find it. -/
def attributeOr (navigator : Navigator) (node : Document) (name what : String) :
    Except Miss Slot :=
  match navigator.attribute? node name with
  | some slot => .ok slot
  | none => .error (notFound what node)

/-- A position of a node with `length` children, or the failure to find it. -/
def positionOr (node : Document) (position : Int) (length : Nat) : Except Miss Slot :=
  match Position.within? position length with
  | some i => .ok (.child i)
  | none => .error (notFound "index" node)

/-- The slot of the child that a token addresses. -/
def locate (navigator : Navigator) (node : Document) (token : Token) : Except Miss Slot :=
  match node, token with
  | .mapping entries, .key name =>
    if Entries.contains entries name then .ok (.entry name)
    else navigator.attributeOr node name "key"
  | .mapping entries, .index _ =>
    if Entries.contains entries token.text then .ok (.entry token.text)
    else .error (notFound "key" node)
  | .sequence items, .index position => positionOr node position items.length
  | .set members, .index position => positionOr node position members.length
  | .record _ fields, .index position => positionOr node position fields.length
  | .scalar _, .index _ => .error (.mismatch "indexing into a scalar")
  | _, .key name => navigator.attributeOr node name "attribute"

/-- The child that a token addresses. -/
def child (navigator : Navigator) (node : Document) (token : Token) :
    Except Miss (Slot × Document) :=
  match navigator.locate node token with
  | .error miss => .error miss
  | .ok slot =>
    match node.at? slot with
    | some value => .ok (slot, value)
    | none => .error .stale

/-- Follows the tokens that are left of a path. -/
def follow (navigator : Navigator) (path : Path) : Document → List Token → Outcome Document
  | node, [] => .ok node
  | node, token :: rest =>
    match navigator.child node token with
    | .error miss => .error (miss.toError path token)
    | .ok (_, value) => follow navigator path value rest

/-- The positions of the children that a path leads through, as far as it leads. -/
def trail (navigator : Navigator) : Document → List Token → List Nat
  | _, [] => []
  | node, token :: rest =>
    match navigator.child node token with
    | .error _ => []
    | .ok (slot, value) => node.positionAt slot :: navigator.trail value rest

/-- The value at a path. -/
def get (navigator : Navigator) (document : Document) (path : Path) : Outcome Document :=
  navigator.follow path document path

/-- The value at a path, wrapped in mappings along the path. -/
def getKeepPath (navigator : Navigator) (document : Document) (path : Path) : Outcome Document :=
  (navigator.get document path).map (Document.wrap path)

/-- Whether a path leads to a value. -/
def reaches (navigator : Navigator) (document : Document) (path : Path) : Bool :=
  (navigator.get document path).toBool

end Navigator

end PathDoc

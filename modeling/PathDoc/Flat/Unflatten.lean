import PathDoc.Flat.Dict
import PathDoc.Path.Text

/-!
# Unflattening

A path dictionary is first arranged as a tree of tokens, then built into a document from the leaves
up. Without a marker a node whose children all have positions becomes a sequence and one whose
children all have names a mapping. A value with children below it is ambiguous; positions must run
from zero without a gap.
-/

set_option autoImplicit false

namespace PathDoc

/-- The entries of a path dictionary arranged by their tokens. -/
inductive TokenTree where
  /-- A node with the entry of its own path and its children in the order of their tokens. -/
  | node (entry : Option Entry) (children : List (Token × TokenTree))
  deriving Inhabited

namespace TokenTree

/-- A tree without entries. -/
def empty : TokenTree := node none []

/-- Changes the child of a token, which is added if it is not there. -/
def updateChild (token : Token) (change : TokenTree → TokenTree) :
    List (Token × TokenTree) → List (Token × TokenTree)
  | [] => [(token, change empty)]
  | (other, child) :: rest =>
    match compare token other with
    | .lt => (token, change empty) :: (other, child) :: rest
    | .eq => (other, change child) :: rest
    | .gt => (other, child) :: updateChild token change rest

/-- Enters an entry at a path. -/
def insert (entry : Entry) : Path → TokenTree → TokenTree
  | [], node _ children => node (some entry) children
  | token :: rest, node own children => node own (updateChild token (insert entry rest) children)

/-- The tree of a path dictionary. -/
def ofDict (dict : PathDict) : TokenTree :=
  dict.entries.foldl (fun tree entry => tree.insert entry.2 entry.1) empty

/-! ## Building -/

/-- The values of children whose positions run from `expected` without a gap. -/
def positional (path : Path) (expected : Nat) :
    List (Token × Document) → Outcome (List Document)
  | [] => .ok []
  | (token, value) :: rest =>
    if token = .index expected then
      (positional path (expected + 1) rest).map (value :: ·)
    else
      .error (.typeMismatch ("expected index " ++ String.ofList (Decimal.natText expected) ++
        " under '" ++ path.text ++ "', found '" ++ token.text ++ "'"))

/-- The fields of a record, one value for each name. -/
def recordFields (path : Path) (name : String) (fields : List String) (values : List Document) :
    Outcome Document :=
  if values.length = fields.length then .ok (.record name (fields.zip values))
  else
    .error (.typeMismatch ("record '" ++ name ++ "' at '" ++ path.text ++ "' expects " ++
      String.ofList (Decimal.natText fields.length) ++ " fields, found " ++
      String.ofList (Decimal.natText values.length)))

/-- The container of a marker with its children. -/
def assemble (path : Path) (children : List (Token × Document)) : Marker → Outcome Document
  | .mapping => .ok (.ofPairs (children.map fun child => (child.1.text, child.2)))
  | .sequence => (positional path 0 children).map .sequence
  | .set => (positional path 0 children).map .ofMembers
  | .record name fields => do
    let values ← positional path 0 children
    recordFields path name fields values

/-- The marker of a node: its own, or the one that the tokens of its children show. -/
def markerFor (path : Path) (own : Option Marker) (tokens : List Token) : Outcome Marker :=
  match own with
  | some marker => .ok marker
  | none =>
    if tokens.all Token.isIndex then .ok .sequence
    else if tokens.all (fun token => !token.isIndex) then .ok .mapping
    else
      .error (.typeMismatch ("mixed integer and string keys under '" ++ path.text ++ "'"))

mutual

/-- The document of a tree at a path. -/
def build (path : Path) : TokenTree → Outcome Document
  | node (some (.value value)) children =>
    if children.isEmpty then .ok value
    else .error (.ambiguity ("value at '" ++ path.text ++ "' also has children"))
  | node (some (.marker marker)) children => do
    let values ← buildChildren path children
    assemble path values marker
  | node none children => do
    let marker ← markerFor path none (children.map Prod.fst)
    let values ← buildChildren path children
    assemble path values marker

/-- The documents of the children of a tree at a path. -/
def buildChildren (path : Path) : List (Token × TokenTree) → Outcome (List (Token × Document))
  | [] => .ok []
  | (token, child) :: rest => do
    let value ← build (path ++ [token]) child
    let values ← buildChildren path rest
    .ok ((token, value) :: values)

end

end TokenTree

namespace PathDict

/-- Whether the root has a value although other paths have entries too. -/
def hasRootValue (dict : PathDict) : Bool :=
  1 < dict.size && match dict.get? [] with
    | some (.value _) => true
    | _ => false

/-- The document of a path dictionary. No entries at all make an empty mapping. -/
def unflatten (dict : PathDict) : Outcome Document :=
  if dict.hasRootValue then .error (.ambiguity "root value next to other paths")
  else if dict.entries.isEmpty then .ok (.mapping [])
  else (TokenTree.ofDict dict).build []

end PathDict

end PathDoc

import PathDoc.Flat.Dict
import PathDoc.Traversal

/-!
# Flattening

Flattening lists a document as a path dictionary: a value for every leaf, every empty container and
every container that is not expanded, and on request a marker for every expanded container. A root
that is a mapping or a sequence needs no marker, because its kind shows in the tokens below it.
`FlattenOptions.restores` compares a document with what was built back from its dictionary.
-/

set_option autoImplicit false

namespace PathDoc

/-- What flattening lists and expands. -/
structure FlattenOptions where
  /-- Whether expanded containers get markers. -/
  annotateAll : Bool
  /-- The depth from which containers are listed as values. -/
  maxDepth : Nat
  /-- The number of children beyond which containers are listed as values. -/
  maxLength : Nat

namespace FlattenOptions

/-- The walk that flattening makes. -/
def traversal (options : FlattenOptions) : Traversal where
  order := .depthFirst
  excluded := []
  included := []
  maxLength := options.maxLength
  maxDepth := options.maxDepth

/-- Whether a node at a depth is listed as a value. -/
def listsWhole (options : FlattenOptions) (depth : Nat) (node : Document) : Bool :=
  node.isEmpty || !options.traversal.expands node depth

/-- Whether the kind of a root shows in the tokens of its children. -/
def isInferred : Document → Bool
  | .mapping _ => true
  | .sequence _ => true
  | _ => false

/-- The entry that a visited node gets, if any. -/
def entry? (options : FlattenOptions) (path : Path) (node : Document) : Option Entry :=
  if options.listsWhole path.length node then some (.value node)
  else if options.annotateAll && (!path.isEmpty || !isInferred node) then
    (Marker.ofDocument? node).map .marker
  else none

/-- Whether a document was built back from its path dictionary. What was listed whole was carried
over and counts as the same, whatever is in it. -/
def restores (options : FlattenOptions) (document rebuilt : Document) : Bool :=
  rebuilt.eqUpTo (fun depth part source =>
    part.isContainer && options.listsWhole depth part && part.agrees source) 0 document

end FlattenOptions

/-- The path dictionary of a document. -/
def Document.flatten (options : FlattenOptions) (document : Document) : PathDict :=
  let visits := options.traversal.walk
    (fun path node => if options.listsWhole path.length node then .skip else .descend) document
  PathDict.ofList (visits.filterMap fun visited =>
    (options.entry? visited.1 visited.2).map fun entry => (visited.1, entry))

end PathDoc

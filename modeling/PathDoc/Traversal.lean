import PathDoc.Document.Basic
import PathDoc.Error

/-!
# Walking through documents

A traversal visits the nodes of a document depth first or breadth first. A container of an excluded
kind, at the greatest depth or with too many children is visited but not expanded. The visitor may
leave out what lies below a node or end the walk. `Traversal.walk` lists the visits in order;
`Traversal.findPaths` and `Traversal.contains` are read off that list, and `Traversal.walkFrom`
terminates because every visit takes a part away from the nodes still to come.
-/

set_option autoImplicit false

namespace PathDoc

/-- The order in which nodes are visited. -/
inductive Order where
  /-- A node, then everything below it, then its next sibling. -/
  | depthFirst
  /-- All nodes of one depth, then those of the next. -/
  | breadthFirst
  deriving DecidableEq

/-- The short name of an order. -/
def Order.name : Order → String
  | depthFirst => "dfs"
  | breadthFirst => "bfs"

/-- The order with a short name. -/
def Order.ofName? : String → Option Order
  | "dfs" => some .depthFirst
  | "bfs" => some .breadthFirst
  | _ => none

/-- The order and the limits of a walk. -/
structure Traversal where
  /-- The order of visits. -/
  order : Order
  /-- Kinds of containers that are not expanded. -/
  excluded : List Kind
  /-- Kinds of containers that are expanded even if excluded. -/
  included : List Kind
  /-- The greatest number of children of a container that is expanded. -/
  maxLength : Nat
  /-- The depth from which containers are not expanded. -/
  maxDepth : Nat

/-- What a visitor wants to happen after a visit. -/
inductive Visit where
  /-- Go on, with the children of the node too. -/
  | descend
  /-- Go on without the children of the node. -/
  | skip
  /-- End the walk. -/
  | stop
  deriving DecidableEq

namespace Traversal

/-- Whether the children of a node at a depth are visited. -/
def expands (traversal : Traversal) (node : Document) (depth : Nat) : Bool :=
  match node.length? with
  | none => false
  | some length =>
    (traversal.included.contains node.kind || !traversal.excluded.contains node.kind) &&
      depth < traversal.maxDepth && length ≤ traversal.maxLength

/-- The children of a node with their paths. -/
def below (path : Path) (node : Document) : List (Path × Document) :=
  node.children.map fun child => (path ++ [child.1], child.2)

/-- The number of parts that are still to be visited. -/
def pending : List (Path × Document) → Nat
  | [] => 0
  | (_, node) :: rest => node.nodeCount + pending rest

/-- The parts of nodes under some paths do not depend on the paths. -/
theorem pending_eq (frontier : List (Path × Document)) :
    pending frontier = Document.countItems (frontier.map Prod.snd) := by
  induction frontier with
  | nil => rfl
  | cons entry rest ih => simp [pending, Document.countItems, ih]

/-- The parts below a node. -/
theorem pending_below (path : Path) (node : Document) :
    pending (below path node) + 1 = node.nodeCount := by
  rw [Document.nodeCount_children, pending_eq, below, List.map_map, Nat.add_comm]
  rfl

/-- The parts of two frontiers together. -/
theorem pending_append (a b : List (Path × Document)) :
    pending (a ++ b) = pending a + pending b := by
  induction a with
  | nil => simp [pending]
  | cons entry a ih => simp [pending, ih, Nat.add_assoc]

/-- The nodes that come after a node has been expanded. -/
def advance (traversal : Traversal) (path : Path) (node : Document)
    (rest : List (Path × Document)) : List (Path × Document) :=
  match traversal.order with
  | .depthFirst => below path node ++ rest
  | .breadthFirst => rest ++ below path node

/-- Expanding a node leaves fewer parts. -/
theorem pending_advance (traversal : Traversal) (path : Path) (node : Document)
    (rest : List (Path × Document)) :
    pending (traversal.advance path node rest) + 1 = pending ((path, node) :: rest) := by
  have hb := pending_below path node
  unfold advance
  split <;> rw [pending_append, pending] <;> omega

/-- A part has at least one node. -/
theorem pending_cons_pos (path : Path) (node : Document) (rest : List (Path × Document)) :
    pending rest < pending ((path, node) :: rest) := by
  have hb := pending_below path node
  rw [pending]
  omega

/-- Visits the nodes of a frontier and what lies below them; gives the visits in order. -/
def walkFrom (traversal : Traversal) (visit : Path → Document → Visit) :
    List (Path × Document) → List (Path × Document)
  | [] => []
  | (path, node) :: rest =>
    match visit path node with
    | .stop => [(path, node)]
    | .skip => (path, node) :: walkFrom traversal visit rest
    | .descend =>
      if traversal.expands node path.length then
        (path, node) :: walkFrom traversal visit (traversal.advance path node rest)
      else (path, node) :: walkFrom traversal visit rest
termination_by frontier => pending frontier
decreasing_by
  · exact pending_cons_pos path node rest
  · have := pending_advance traversal path node rest
    omega
  · exact pending_cons_pos path node rest

/-- The visits of a walk through a document, in order. -/
def walk (traversal : Traversal) (visit : Path → Document → Visit) (document : Document) :
    List (Path × Document) :=
  traversal.walkFrom visit [([], document)]

/-- Whether some node that is visited satisfies a predicate; the walk ends at the first. -/
def contains (traversal : Traversal) (predicate : Document → Bool) (document : Document) : Bool :=
  (traversal.walk (fun _ node => if predicate node then .stop else .descend) document).any
    fun visited => predicate visited.2

/-- The nodes that satisfy a predicate with their paths, in the order of visits; the walk does not
go below them. -/
def findPaths (traversal : Traversal) (predicate : Document → Bool) (document : Document) :
    List (Path × Document) :=
  (traversal.walk (fun _ node => if predicate node then .skip else .descend) document).filter
    fun visited => predicate visited.2

end Traversal

end PathDoc

import PathDoc.Proofs.Document.Nodes
import PathDoc.Traversal

/-!
# The nodes that a walk visits

A walk keeps a frontier; `Traversal.listing` lists the same nodes by recursion over the document: a
node, then everything below its children, one child after the other. A walk that is never stopped
visits exactly the listing of its frontier, breadth first in another order (`walkFrom_perm`) and
depth first in the same one (`walkFrom_depthFirst`). `mem_listing_iff` says what the listing holds.
-/

set_option autoImplicit false

namespace PathDoc

namespace Traversal

variable {traversal : Traversal} {visit : Path → Document → Visit}

/-- The children of a node lie one token further down. -/
theorem mem_below_iff {path : Path} {node : Document} {visited : Path × Document} :
    visited ∈ below path node ↔
      ∃ child ∈ node.children, visited = (path ++ [child.1], child.2) := by
  rw [below, List.mem_map]
  exact exists_congr fun child => and_congr_right fun _ => eq_comm

theorem nodeCount_lt_of_mem_below {path : Path} {node : Document} {visited : Path × Document}
    (h : visited ∈ below path node) : visited.2.nodeCount < node.nodeCount := by
  obtain ⟨child, hc, rfl⟩ := mem_below_iff.1 h
  exact Document.nodeCount_lt_of_mem_children hc

/-- Whether a walk goes on to the children of a node. -/
def enters (traversal : Traversal) (visit : Path → Document → Visit) (path : Path)
    (node : Document) : Prop :=
  visit path node = .descend ∧ traversal.expands node path.length = true

instance (traversal : Traversal) (visit : Path → Document → Visit) (path : Path)
    (node : Document) : Decidable (traversal.enters visit path node) :=
  inferInstanceAs (Decidable (_ ∧ _))

/-- A node and the nodes below it that a walk visits, each before those below it. -/
def listing (traversal : Traversal) (visit : Path → Document → Visit) (path : Path)
    (node : Document) : List (Path × Document) :=
  (path, node) ::
    if traversal.enters visit path node then
      ((below path node).attach.map fun child =>
        listing traversal visit child.1.1 child.1.2).flatten
    else []
termination_by node.nodeCount
decreasing_by
  exact nodeCount_lt_of_mem_below child.2

/-- The nodes of a frontier and those below them that a walk visits. -/
def listings (traversal : Traversal) (visit : Path → Document → Visit)
    (frontier : List (Path × Document)) : List (Path × Document) :=
  (frontier.map fun visited => traversal.listing visit visited.1 visited.2).flatten

@[simp] theorem listings_nil : traversal.listings visit [] = [] := rfl

@[simp] theorem listings_cons (visited : Path × Document) (rest : List (Path × Document)) :
    traversal.listings visit (visited :: rest) =
      traversal.listing visit visited.1 visited.2 ++ traversal.listings visit rest := by
  simp [listings]

@[simp] theorem listings_append (a b : List (Path × Document)) :
    traversal.listings visit (a ++ b) = traversal.listings visit a ++ traversal.listings visit b := by
  simp [listings]

theorem listing_of_enters {path : Path} {node : Document}
    (h : traversal.enters visit path node) :
    traversal.listing visit path node =
      (path, node) :: traversal.listings visit (below path node) := by
  have hmap : ((below path node).attach.map fun child =>
      traversal.listing visit child.1.1 child.1.2) =
        (below path node).map fun child => traversal.listing visit child.1 child.2 :=
    List.attach_map_val (f := fun child : Path × Document =>
      traversal.listing visit child.1 child.2)
  rw [listing, if_pos h, hmap, listings]

theorem listing_of_not_enters {path : Path} {node : Document}
    (h : ¬ traversal.enters visit path node) :
    traversal.listing visit path node = [(path, node)] := by
  rw [listing, if_neg h]

/-- A node is listed at or below another one. -/
theorem mem_listing_iff {path : Path} {node : Document} {visited : Path × Document} :
    visited ∈ traversal.listing visit path node ↔
      visited = (path, node) ∨
        traversal.enters visit path node ∧
          ∃ child ∈ node.children,
            visited ∈ traversal.listing visit (path ++ [child.1]) child.2 := by
  by_cases h : traversal.enters visit path node
  · rw [listing_of_enters h, List.mem_cons, listings, List.mem_flatten]
    simp only [List.mem_map, mem_below_iff, h, true_and]
    refine or_congr_right ⟨?_, ?_⟩
    · rintro ⟨_, ⟨_, ⟨child, hc, rfl⟩, rfl⟩, hm⟩
      exact ⟨child, hc, hm⟩
    · rintro ⟨child, hc, hm⟩
      exact ⟨_, ⟨_, ⟨child, hc, rfl⟩, rfl⟩, hm⟩
  · simp [listing_of_not_enters h, h]

theorem self_mem_listing (path : Path) (node : Document) :
    (path, node) ∈ traversal.listing visit path node :=
  mem_listing_iff.2 (Or.inl rfl)

/-- What is listed lies at or below the start. -/
theorem prefix_of_mem_listing {path : Path} {node : Document} {visited : Path × Document}
    (h : visited ∈ traversal.listing visit path node) : path <+: visited.1 := by
  induction hn : node.nodeCount using Nat.strongRecOn generalizing path node with
  | _ n ih =>
    subst hn
    rcases mem_listing_iff.1 h with rfl | ⟨-, child, hc, h⟩
    · exact List.prefix_rfl
    · have hlt := Document.nodeCount_lt_of_mem_children hc
      exact (List.prefix_append path [child.1]).trans (ih _ hlt h rfl)

/-! ## One node of a frontier -/

theorem walkFrom_of_stop {path : Path} {node : Document} (h : visit path node = .stop)
    (rest : List (Path × Document)) :
    traversal.walkFrom visit ((path, node) :: rest) = [(path, node)] := by
  rw [walkFrom, h]

theorem walkFrom_of_enters {path : Path} {node : Document}
    (h : traversal.enters visit path node) (rest : List (Path × Document)) :
    traversal.walkFrom visit ((path, node) :: rest) =
      (path, node) :: traversal.walkFrom visit (traversal.advance path node rest) := by
  obtain ⟨hd, hx⟩ := h
  rw [walkFrom, hd]
  simp only [hx, if_true]

theorem walkFrom_of_not_enters {path : Path} {node : Document} (hs : visit path node ≠ .stop)
    (h : ¬ traversal.enters visit path node) (rest : List (Path × Document)) :
    traversal.walkFrom visit ((path, node) :: rest) =
      (path, node) :: traversal.walkFrom visit rest := by
  rw [walkFrom]
  cases hv : visit path node with
  | stop => exact absurd hv hs
  | skip => rfl
  | descend => exact if_neg fun hx => h ⟨hv, hx⟩

/-- **Induction along a walk.** The first node of a frontier ends the walk, is passed, or makes room
for its children. -/
@[elab_as_elim]
theorem walkFrom_induct (traversal : Traversal) (visit : Path → Document → Visit)
    {motive : List (Path × Document) → Prop} (nil : motive [])
    (stop : ∀ path node rest, visit path node = .stop → motive ((path, node) :: rest))
    (pass : ∀ path node rest, visit path node ≠ .stop → ¬ traversal.enters visit path node →
      motive rest → motive ((path, node) :: rest))
    (enter : ∀ path node rest, traversal.enters visit path node →
      motive (traversal.advance path node rest) → motive ((path, node) :: rest))
    (frontier : List (Path × Document)) : motive frontier := by
  induction frontier using walkFrom.induct traversal visit with
  | case1 => exact nil
  | case2 path node rest h => exact stop path node rest h
  | case3 path node rest h ih => exact pass path node rest (by simp [h]) (by simp [enters, h]) ih
  | case4 path node rest h hx ih => exact enter path node rest ⟨h, hx⟩ ih
  | case5 path node rest h hx ih =>
      exact pass path node rest (by simp [h]) (by simp [enters, hx]) ih

theorem mem_advance_iff {path : Path} {node : Document} {rest : List (Path × Document)}
    {visited : Path × Document} :
    visited ∈ traversal.advance path node rest ↔ visited ∈ below path node ∨ visited ∈ rest := by
  unfold advance
  split
  · exact List.mem_append
  · exact List.mem_append.trans or_comm

/-! ## Walks that are not stopped -/

/-- **A walk that is not stopped visits the nodes of the listing, each once.** -/
theorem walkFrom_perm (hv : ∀ path node, visit path node ≠ .stop)
    (frontier : List (Path × Document)) :
    (traversal.walkFrom visit frontier).Perm (traversal.listings visit frontier) := by
  induction frontier using walkFrom_induct traversal visit with
  | nil => rw [walkFrom]; exact List.Perm.refl _
  | stop path node rest h => exact absurd h (hv path node)
  | pass path node rest hs h ih =>
      rw [walkFrom_of_not_enters hs h, listings_cons, listing_of_not_enters h]
      exact ih.cons _
  | enter path node rest h ih =>
      rw [walkFrom_of_enters h, listings_cons, listing_of_enters h]
      -- the children go before or behind the rest of the frontier
      refine (ih.cons _).trans ?_
      rw [List.cons_append, List.perm_cons]
      unfold advance
      split
      · rw [listings_append]
      · rw [listings_append]
        exact List.perm_append_comm

/-- **A depth-first walk that is not stopped visits the nodes in the order of the listing.** -/
theorem walkFrom_depthFirst (ho : traversal.order = .depthFirst)
    (hv : ∀ path node, visit path node ≠ .stop) (frontier : List (Path × Document)) :
    traversal.walkFrom visit frontier = traversal.listings visit frontier := by
  induction frontier using walkFrom_induct traversal visit with
  | nil => rw [walkFrom]; rfl
  | stop path node rest h => exact absurd h (hv path node)
  | pass path node rest hs h ih =>
      rw [walkFrom_of_not_enters hs h, listings_cons, listing_of_not_enters h, ih]
      rfl
  | enter path node rest h ih =>
      rw [walkFrom_of_enters h, listings_cons, listing_of_enters h]
      -- depth first the children go before the rest, as in the listing
      rw [ih, advance, ho, listings_append, List.cons_append]

theorem walk_perm (hv : ∀ path node, visit path node ≠ .stop) (document : Document) :
    (traversal.walk visit document).Perm (traversal.listing visit [] document) := by
  have h : (traversal.walk visit document).Perm (traversal.listings visit [([], document)]) :=
    walkFrom_perm hv [([], document)]
  rwa [listings_cons, listings_nil, List.append_nil] at h

theorem walk_depthFirst (ho : traversal.order = .depthFirst)
    (hv : ∀ path node, visit path node ≠ .stop) (document : Document) :
    traversal.walk visit document = traversal.listing visit [] document := by
  rw [walk, walkFrom_depthFirst ho hv, listings_cons, listings_nil, List.append_nil]

end Traversal

end PathDoc

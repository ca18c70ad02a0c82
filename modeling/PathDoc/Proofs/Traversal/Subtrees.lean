import Mathlib.Data.List.Nodup
import PathDoc.Proofs.Traversal.Listing

/-!
# Walks below one child

What a walk visits below one child is what a walk of the child alone visits, in the same order,
depth first and breadth first: visits that lie elsewhere can be left out of the frontier
(`walkFrom_filter`), and a frontier can be moved under another path if the depth limit moves with it
(`walkFrom_map_shift`). The nodes of a document that satisfy a predicate are therefore found child
by child (`under_findPaths`).
-/

set_option autoImplicit false

namespace PathDoc.Traversal

/-- The walk of what stands at a depth: the depth limit is that much closer. -/
def lowered (traversal : Traversal) (depth : Nat) : Traversal :=
  { traversal with maxDepth := traversal.maxDepth - depth }

@[simp] theorem lowered_zero (traversal : Traversal) : traversal.lowered 0 = traversal := rfl

theorem expands_lowered (traversal : Traversal) (node : Document) (a b : Nat) :
    (traversal.lowered a).expands node b = traversal.expands node (a + b) := by
  have hdepth : decide (b < traversal.maxDepth - a) = decide (a + b < traversal.maxDepth) :=
    decide_eq_decide.2 (by omega)
  unfold expands lowered
  simp only [hdepth]

/-- Leaves are not expanded. -/
theorem kind_ne_scalar_of_expands {traversal : Traversal} {node : Document} {depth : Nat}
    (h : traversal.expands node depth = true) : node.kind ≠ .scalar := by
  cases node with
  | scalar value => cases h
  | _ => exact Kind.noConfusion

/-- A visited node under a path that lies further up. -/
def shift (path : Path) (visited : Path × Document) : Path × Document :=
  (path ++ visited.1, visited.2)

theorem below_shift (path q : Path) (node : Document) :
    below (path ++ q) node = (below q node).map (shift path) := by
  simp [below, shift]

variable {traversal : Traversal}

theorem advance_shift (path q : Path) (node : Document) (rest : List (Path × Document)) :
    traversal.advance (path ++ q) node (rest.map (shift path)) =
      ((traversal.lowered path.length).advance q node rest).map (shift path) := by
  obtain ⟨order, _, _, _, _⟩ := traversal
  cases order with
  | depthFirst => simp [advance, lowered, below_shift]
  | breadthFirst => simp [advance, lowered, below_shift]

/-- **A frontier can be moved under a path.** -/
theorem walkFrom_map_shift (path : Path) (choose : Document → Visit)
    (frontier : List (Path × Document)) :
    traversal.walkFrom (fun _ node => choose node) (frontier.map (shift path)) =
      ((traversal.lowered path.length).walkFrom (fun _ node => choose node) frontier).map
        (shift path) := by
  -- the node lies deeper by the length of the path, and the limit is lower by as much
  have henters : ∀ q node, traversal.enters (fun _ node => choose node) (path ++ q) node ↔
      (traversal.lowered path.length).enters (fun _ node => choose node) q node := by
    intro q node
    rw [enters, enters, expands_lowered, List.length_append]
  induction frontier using walkFrom_induct (traversal.lowered path.length)
    (fun _ node => choose node) with
  | nil => simp [walkFrom]
  | stop q node rest h => rw [List.map_cons, shift, walkFrom_of_stop h, walkFrom_of_stop h]; rfl
  | pass q node rest hs h ih =>
      rw [List.map_cons, shift, walkFrom_of_not_enters hs h,
        walkFrom_of_not_enters hs (mt (henters q node).1 h), ih]
      rfl
  | enter q node rest h ih =>
      rw [List.map_cons, shift, walkFrom_of_enters h, walkFrom_of_enters ((henters q node).2 h),
        advance_shift, ih]
      rfl

/-- Whether a path begins with a token. -/
def startsAt (token : Token) (visited : Path × Document) : Bool :=
  visited.1.head? == some token

theorem ne_nil_of_mem_below {path : Path} {node : Document} {visited : Path × Document}
    (h : visited ∈ below path node) : visited.1 ≠ [] := by
  obtain ⟨child, -, rfl⟩ := mem_below_iff.1 h
  exact List.append_ne_nil_of_right_ne_nil _ (List.cons_ne_nil _ _)

/-- Children of a node other than the root begin with the token with which the node begins. -/
theorem startsAt_of_mem_below (token : Token) {path : Path} (hne : path ≠ []) {node : Document}
    {visited : Path × Document} (h : visited ∈ below path node) :
    startsAt token visited = startsAt token (path, node) := by
  obtain ⟨child, -, rfl⟩ := mem_below_iff.1 h
  obtain ⟨first, rest, rfl⟩ := List.exists_cons_of_ne_nil hne
  rfl

/-- Visits under other tokens can be left out before a node is expanded. -/
theorem advance_filter (token : Token) {path : Path} (hne : path ≠ []) (node : Document)
    (rest : List (Path × Document)) :
    (traversal.advance path node rest).filter (startsAt token) =
      if startsAt token (path, node) then
        traversal.advance path node (rest.filter (startsAt token))
      else rest.filter (startsAt token) := by
  have hbelow : ∀ visited ∈ below path node,
      startsAt token visited = startsAt token (path, node) :=
    fun _ => startsAt_of_mem_below token hne
  -- all children of the node begin with the token or none of them does
  split
  · rename_i hs
    have hkeep : (below path node).filter (startsAt token) = below path node :=
      List.filter_eq_self.2 fun visited h => (hbelow visited h).trans hs
    unfold advance
    split
    · rw [List.filter_append, hkeep]
    · rw [List.filter_append, hkeep]
  · rename_i hs
    have hdrop : (below path node).filter (startsAt token) = [] :=
      List.filter_eq_nil_iff.2 fun visited h => (hbelow visited h).symm ▸ hs
    unfold advance
    split
    · rw [List.filter_append, hdrop, List.nil_append]
    · rw [List.filter_append, hdrop, List.append_nil]

/-- **Visits under other tokens can be left out of a frontier.** -/
theorem walkFrom_filter {visit : Path → Document → Visit}
    (hv : ∀ path node, visit path node ≠ .stop) (token : Token)
    (frontier : List (Path × Document)) (hne : ∀ visited ∈ frontier, visited.1 ≠ []) :
    (traversal.walkFrom visit frontier).filter (startsAt token) =
      traversal.walkFrom visit (frontier.filter (startsAt token)) := by
  induction frontier using walkFrom_induct traversal visit with
  | nil => simp [walkFrom]
  | stop path node rest h => exact absurd h (hv path node)
  | pass path node rest hs h ih =>
      rw [List.forall_mem_cons] at hne
      rw [walkFrom_of_not_enters hs h, List.filter_cons, List.filter_cons, ih hne.2]
      split
      · rw [walkFrom_of_not_enters hs h]
      · rfl
  | enter path node rest h ih =>
      rw [List.forall_mem_cons] at hne
      -- no path becomes empty on the way down, so every visit has a first token
      have hadvance : ∀ visited ∈ traversal.advance path node rest, visited.1 ≠ [] :=
        fun visited hm => (mem_advance_iff.1 hm).elim ne_nil_of_mem_below (hne.2 visited)
      rw [walkFrom_of_enters h, List.filter_cons, List.filter_cons, ih hadvance,
        advance_filter token hne.1]
      split
      · rw [walkFrom_of_enters h]
      · rfl

/-! ## Walks from the root -/

/-- A walk that goes on below the root. -/
theorem walk_of_expands {visit : Path → Document → Visit} {node : Document}
    (hv : visit [] node = .descend) (hx : traversal.expands node 0 = true) :
    traversal.walk visit node = ([], node) :: traversal.walkFrom visit (below [] node) := by
  have hadvance : traversal.advance [] node [] = below [] node := by
    unfold advance
    split
    · exact List.append_nil _
    · exact List.nil_append _
  rw [walk, walkFrom, hv]
  simp only [List.length_nil, hx, if_true, hadvance]

/-- A walk that does not go on below the root. -/
theorem walk_of_not_expands {visit : Path → Document → Visit} {node : Document}
    (hv : visit [] node ≠ .descend ∨ traversal.expands node 0 = false) :
    traversal.walk visit node = [([], node)] := by
  rw [walk, walkFrom]
  split
  · rfl
  · rw [walkFrom]
  · rename_i h
    rw [List.length_nil, hv.resolve_left (not_not_intro h), walkFrom]
    rfl

/-- The visits under a token, with their paths from there on. -/
def under (token : Token) (visits : List (Path × Document)) : List (Path × Document) :=
  (visits.filter (startsAt token)).map fun visited => (visited.1.tail, visited.2)

theorem mem_under_iff {token : Token} {path : Path} {node : Document}
    {visits : List (Path × Document)} :
    (path, node) ∈ under token visits ↔ (token :: path, node) ∈ visits := by
  rw [under, List.mem_map]
  constructor
  · rintro ⟨⟨whole, _⟩, hm, he⟩
    obtain ⟨hm, hs⟩ := List.mem_filter.1 hm
    cases he
    rwa [List.cons_head?_tail (beq_iff_eq.1 hs)]
  · intro hm
    exact ⟨_, List.mem_filter.2 ⟨hm, by simp [startsAt]⟩, rfl⟩

/-- Among distinct tokens only one child has a given one. -/
theorem filter_children {token : Token} {child : Document} :
    ∀ {children : List (Token × Document)}, (children.map Prod.fst).Nodup →
      (token, child) ∈ children → children.filter (fun c => c.1 == token) = [(token, child)] := by
  intro children hn hc
  induction children with
  | nil => cases hc
  | cons first rest ih =>
      obtain ⟨hfirst, hn⟩ := List.nodup_cons.1 hn
      rcases List.mem_cons.1 hc with rfl | hc
      · have hrest : rest.filter (fun c => c.1 == token) = [] := by
          refine List.filter_eq_nil_iff.2 fun c hm he => hfirst ?_
          have htoken : c.1 ∈ rest.map Prod.fst := List.mem_map_of_mem hm
          rwa [beq_iff_eq.1 he] at htoken
        simp [hrest]
      · have htoken : token ∈ rest.map Prod.fst := List.mem_map_of_mem (f := Prod.fst) hc
        have hne : (first.1 == token) = false :=
          beq_eq_false_iff_ne.2 fun he => hfirst (he ▸ htoken)
        rw [List.filter_cons, hne, if_neg Bool.false_ne_true, ih hn hc]

/-- **What a walk visits below a child is what a walk of the child visits.** -/
theorem filter_walkFrom_below {choose : Document → Visit} (hv : ∀ node, choose node ≠ .stop)
    {node child : Document} {token : Token} (hd : node.namesDistinct = true)
    (hc : (token, child) ∈ node.children) :
    (traversal.walkFrom (fun _ node => choose node) (below [] node)).filter (startsAt token) =
      ((traversal.lowered 1).walk (fun _ node => choose node) child).map (shift [token]) := by
  have hone : (below [] node).filter (startsAt token) = [([token], child)] := by
    have hfilter : startsAt token ∘ (fun child : Token × Document => ([child.1], child.2)) =
        fun child => child.1 == token := by
      funext child
      simp [startsAt]
    rw [below, List.filter_map]
    simp only [List.nil_append]
    rw [hfilter, filter_children (Document.children_tokens_nodup hd) hc]
    rfl
  -- the child alone is left of the frontier, and it can be moved to the root
  rw [walkFrom_filter (fun _ => hv) token _ fun _ => ne_nil_of_mem_below, hone]
  exact walkFrom_map_shift [token] choose [([], child)]

/-! ## The nodes that satisfy a predicate -/

variable {predicate : Document → Bool}

/-- How the walk of a search goes on after a node. -/
def searchVisit (predicate : Document → Bool) (node : Document) : Visit :=
  if predicate node then .skip else .descend

theorem searchVisit_ne_stop (node : Document) : searchVisit predicate node ≠ .stop := by
  unfold searchVisit
  split <;> exact Visit.noConfusion

theorem findPaths_eq (node : Document) :
    traversal.findPaths predicate node =
      (traversal.walk (fun _ node => searchVisit predicate node) node).filter
        fun visited => predicate visited.2 := rfl

/-- A match at the root is the only one that is reported. -/
theorem findPaths_of_match {node : Document} (h : predicate node = true) :
    traversal.findPaths predicate node = [([], node)] := by
  have hwalk : traversal.walk (fun _ node => searchVisit predicate node) node = [([], node)] :=
    walk_of_not_expands (Or.inl (by simp [searchVisit, h]))
  rw [findPaths_eq, hwalk]
  simp [h]

/-- Nothing is found in a node that is neither a match nor expanded. -/
theorem findPaths_of_not_expands {node : Document} (h : predicate node = false)
    (hx : traversal.expands node 0 = false) : traversal.findPaths predicate node = [] := by
  rw [findPaths_eq, walk_of_not_expands (Or.inr hx)]
  simp [h]

theorem findPaths_of_expands {node : Document} (h : predicate node = false)
    (hx : traversal.expands node 0 = true) :
    traversal.findPaths predicate node =
      (traversal.walkFrom (fun _ node => searchVisit predicate node) (below [] node)).filter
        fun visited => predicate visited.2 := by
  have hv : searchVisit predicate node = .descend := by simp [searchVisit, h]
  rw [findPaths_eq, walk_of_expands hv hx]
  simp [h]

/-- **The matches below a child are those that are found in the child alone.** -/
theorem under_findPaths {node child : Document} {token : Token} (hd : node.namesDistinct = true)
    (h : predicate node = false) (hx : traversal.expands node 0 = true)
    (hc : (token, child) ∈ node.children) :
    under token (traversal.findPaths predicate node) =
      (traversal.lowered 1).findPaths predicate child := by
  have htail : (fun visited : Path × Document => (visited.1.tail, visited.2)) ∘ shift [token] =
      id := by
    funext visited
    rfl
  have hmatch : (fun visited : Path × Document => predicate visited.2) ∘ shift [token] =
      fun visited => predicate visited.2 := by
    funext visited
    rfl
  rw [findPaths_of_expands h hx, under, List.filter_comm,
    filter_walkFrom_below searchVisit_ne_stop hd hc, List.filter_map, List.map_map, hmatch, htail,
    List.map_id, findPaths_eq]

/-- What is found in a node that is no match lies below one of its children. -/
theorem exists_child_of_mem_findPaths {node : Document} (h : predicate node = false)
    {visited : Path × Document} (hm : visited ∈ traversal.findPaths predicate node) :
    ∃ child ∈ node.children, ∃ rest, visited.1 = child.1 :: rest := by
  cases hx : traversal.expands node 0 with
  | false =>
      rw [findPaths_of_not_expands h hx] at hm
      cases hm
  | true =>
      rw [findPaths_of_expands h hx, List.mem_filter] at hm
      have hlisted : visited ∈ traversal.listings (fun _ node => searchVisit predicate node)
          (below [] node) :=
        (walkFrom_perm (fun _ => searchVisit_ne_stop) (below [] node)).mem_iff.1 hm.1
      rw [listings, List.mem_flatten] at hlisted
      obtain ⟨_, hlist, hv⟩ := hlisted
      obtain ⟨start, hstart, rfl⟩ := List.mem_map.1 hlist
      obtain ⟨child, hc, rfl⟩ := mem_below_iff.1 hstart
      obtain ⟨rest, hrest⟩ := prefix_of_mem_listing hv
      exact ⟨child, hc, rest, hrest.symm⟩

end PathDoc.Traversal

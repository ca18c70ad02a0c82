import PathDoc.Proofs.Document.Counting
import PathDoc.Proofs.Traversal.Orders
import PathDoc.Proofs.Write.Sequences

/-!
# What a walk visits

A walk takes nodes from a frontier and puts their children back into it. Its visits are those of the
recursive listing of the document, up to the first one that ends the walk (`walkFrom_eq_untilStop`):
depth first in the order of the listing, breadth first by depth and, within one depth, in that order
(`walkFrom_breadthFirst`). Every node is visited once, at a path that leads to it. `loop` keeps the
depths beside the paths and takes nodes from one end of a single list; it makes the same visits, and
the depth of a node is the length of its path (`loop_waiting`). `walk_visits` puts it all together.
-/

set_option autoImplicit false

namespace PathDoc

namespace Traversal

variable {traversal : Traversal} {visit : Path → Document → Visit}

/-! ## The end of a walk -/

/-- The visits up to the first one that ends the walk, with that one. -/
def untilStop (visit : Path → Document → Visit) : List (Path × Document) → List (Path × Document)
  | [] => []
  | visited :: rest =>
    if visit visited.1 visited.2 = .stop then [visited] else visited :: untilStop visit rest

/-- A visitor that leaves out what is below a node where another visitor ends the walk. -/
def unstopped (visit : Path → Document → Visit) (path : Path) (node : Document) : Visit :=
  if visit path node = .stop then .skip else visit path node

theorem unstopped_ne_stop (path : Path) (node : Document) : unstopped visit path node ≠ .stop := by
  unfold unstopped
  split
  · exact Visit.noConfusion
  · assumption

theorem enters_unstopped (path : Path) (node : Document) :
    traversal.enters (unstopped visit) path node ↔ traversal.enters visit path node := by
  unfold enters unstopped
  split
  · rename_i h
    simp [h]
  · rfl

/-- Where a walk ends does not change what is below other nodes. -/
theorem listing_unstopped (path : Path) (node : Document) :
    traversal.listing (unstopped visit) path node = traversal.listing visit path node := by
  induction hn : node.nodeCount using Nat.strongRecOn generalizing path node with
  | _ n ih =>
    subst hn
    by_cases h : traversal.enters visit path node
    · rw [listing_of_enters h, listing_of_enters ((enters_unstopped path node).2 h), listings,
        listings]
      have hbelow : ∀ child ∈ below path node,
          traversal.listing (unstopped visit) child.1 child.2 =
            traversal.listing visit child.1 child.2 :=
        fun child hc => ih _ (nodeCount_lt_of_mem_below hc) child.1 child.2 rfl
      rw [List.map_congr_left hbelow]
    · rw [listing_of_not_enters h, listing_of_not_enters (mt (enters_unstopped path node).1 h)]

/-- **A walk makes the visits of one that is not stopped, up to the first one that ends it.** -/
theorem walkFrom_eq_untilStop (frontier : List (Path × Document)) :
    traversal.walkFrom visit frontier =
      untilStop visit (traversal.walkFrom (unstopped visit) frontier) := by
  -- only a node that ends the walk cuts the visits
  induction frontier using walkFrom_induct traversal visit with
  | nil => rw [walkFrom, walkFrom, untilStop]
  | stop path node rest h =>
      have hu : unstopped visit path node = .skip := if_pos h
      rw [walkFrom_of_stop h, walkFrom, hu, untilStop, if_pos h]
  | pass path node rest hs h ih =>
      rw [walkFrom_of_not_enters hs h, walkFrom_of_not_enters (unstopped_ne_stop path node)
        (mt (enters_unstopped path node).1 h), untilStop, if_neg hs, ih]
  | enter path node rest h ih =>
      have hs : visit path node ≠ .stop := by
        rw [h.1]
        exact Visit.noConfusion
      rw [walkFrom_of_enters h, walkFrom_of_enters ((enters_unstopped path node).2 h), untilStop,
        if_neg hs, ih]

theorem prefix_untilStop (visits : List (Path × Document)) : untilStop visit visits <+: visits := by
  induction visits with
  | nil => exact List.prefix_rfl
  | cons visited rest ih =>
      rw [untilStop]
      split
      · exact ⟨rest, rfl⟩
      · exact List.prefix_cons_inj visited |>.2 ih

/-! ## Visits by depth -/

/-- Whether a visit is at a depth. -/
def isAt (depth : Nat) (visited : Path × Document) : Bool :=
  visited.1.length == depth

/-- The visits by depth; those of one depth stay in their order. -/
def byDepth (visits : List (Path × Document)) : List (Path × Document) :=
  visits.mergeSort fun a b => decide (a.1.length ≤ b.1.length)

theorem pairwise_byDepth (visits : List (Path × Document)) :
    (byDepth visits).Pairwise fun a b => a.1.length ≤ b.1.length := by
  have h : (byDepth visits).Pairwise fun a b => decide (a.1.length ≤ b.1.length) = true :=
    List.pairwise_mergeSort (by simp only [decide_eq_true_eq]; omega)
      (by simp only [Bool.or_eq_true, decide_eq_true_eq]; omega) visits
  exact h.imp of_decide_eq_true

theorem filter_byDepth (depth : Nat) (visits : List (Path × Document)) :
    (byDepth visits).filter (isAt depth) = visits.filter (isAt depth) := by
  -- the visits of one depth are sorted, so they are still in their order when all are
  have hsorted : (visits.filter (isAt depth)).Pairwise
      fun a b => decide (a.1.length ≤ b.1.length) = true := by
    apply List.pairwise_of_forall_mem_list
    intro a ha b hb
    have ha' := beq_iff_eq.1 (List.mem_filter.1 ha).2
    have hb' := beq_iff_eq.1 (List.mem_filter.1 hb).2
    simp [ha', hb']
  have hsub : (visits.filter (isAt depth)).Sublist (byDepth visits) :=
    List.sublist_mergeSort (by simp only [decide_eq_true_eq]; omega)
      (by simp only [Bool.or_eq_true, decide_eq_true_eq]; omega) hsorted List.filter_sublist
  have hfilter := hsub.filter (isAt depth)
  simp only [List.filter_filter, Bool.and_self] at hfilter
  have hlength :
      (visits.filter (isAt depth)).length = ((byDepth visits).filter (isAt depth)).length :=
    ((List.mergeSort_perm visits _).filter (isAt depth)).length_eq.symm
  exact (hfilter.eq_of_length hlength).symm

/-- Visits by depth are determined by the visits at each depth. -/
theorem eq_of_filter_isAt {a b : List (Path × Document)}
    (ha : a.Pairwise fun v w => v.1.length ≤ w.1.length)
    (hb : b.Pairwise fun v w => v.1.length ≤ w.1.length)
    (h : ∀ depth, a.filter (isAt depth) = b.filter (isAt depth)) : a = b := by
  have hmem : ∀ {a b : List (Path × Document)} {v : Path × Document},
      (∀ depth, a.filter (isAt depth) = b.filter (isAt depth)) → v ∈ a → v ∈ b := by
    intro a b v h hv
    have hfilter : v ∈ a.filter (isAt v.1.length) := List.mem_filter.2 ⟨hv, beq_self_eq_true _⟩
    rw [h] at hfilter
    exact (List.mem_filter.1 hfilter).1
  induction a generalizing b with
  | nil =>
      cases b with
      | nil => rfl
      | cons w b => cases hmem (fun depth => (h depth).symm) (List.mem_cons_self (a := w) (l := b))
  | cons v a ih =>
      cases b with
      | nil => cases hmem h (List.mem_cons_self (a := v) (l := a))
      | cons w b =>
          obtain ⟨hv, ha⟩ := List.pairwise_cons.1 ha
          obtain ⟨hw, hb⟩ := List.pairwise_cons.1 hb
          -- both begin with a visit at the least depth, so with the first one at that depth
          have hle : v.1.length ≤ w.1.length := by
            rcases List.mem_cons.1 (hmem (fun depth => (h depth).symm) List.mem_cons_self) with
              rfl | hm
            · exact Nat.le_refl _
            · exact hv w hm
          have hge : w.1.length ≤ v.1.length := by
            rcases List.mem_cons.1 (hmem h List.mem_cons_self) with rfl | hm
            · exact Nat.le_refl _
            · exact hw v hm
          have hdepth : isAt v.1.length w = true := beq_iff_eq.2 (Nat.le_antisymm hge hle)
          have hfirst := h v.1.length
          have hself : isAt v.1.length v = true := beq_self_eq_true _
          rw [List.filter_cons_of_pos hself, List.filter_cons_of_pos hdepth] at hfirst
          have hvw : v = w := (List.cons.inj hfirst).1
          have hrest : ∀ depth, a.filter (isAt depth) = b.filter (isAt depth) := by
            intro depth
            have hd := h depth
            rw [← hvw, List.filter_cons, List.filter_cons] at hd
            split at hd
            · exact (List.cons.inj hd).2
            · exact hd
          rw [hvw, ih ha hb hrest]

/-- What is listed lies no further up than the start. -/
theorem filter_isAt_listings {depth : Nat} {frontier : List (Path × Document)}
    (h : ∀ start ∈ frontier, depth < start.1.length) :
    (traversal.listings visit frontier).filter (isAt depth) = [] := by
  refine List.filter_eq_nil_iff.2 fun visited hm hd => ?_
  rw [listings, List.mem_flatten] at hm
  obtain ⟨_, hlist, hm⟩ := hm
  obtain ⟨start, hstart, rfl⟩ := List.mem_map.1 hlist
  have hle := (prefix_of_mem_listing hm).length_le
  have hlt := h start hstart
  rw [isAt, beq_iff_eq] at hd
  omega

/-- The children of a node to which a walk goes on. -/
def entered (traversal : Traversal) (visit : Path → Document → Visit) (path : Path)
    (node : Document) : List (Path × Document) :=
  if traversal.enters visit path node then below path node else []

theorem listing_eq_cons (path : Path) (node : Document) :
    traversal.listing visit path node =
      (path, node) :: traversal.listings visit (traversal.entered visit path node) := by
  unfold entered
  split
  · rename_i h
    rw [listing_of_enters h]
  · rename_i h
    rw [listing_of_not_enters h, listings_nil]

theorem length_of_mem_entered {path : Path} {node : Document} {visited : Path × Document}
    (h : visited ∈ traversal.entered visit path node) : visited.1.length = path.length + 1 := by
  unfold entered at h
  split at h
  · obtain ⟨child, -, rfl⟩ := mem_below_iff.1 h
    exact List.length_append
  · cases h

theorem pending_entered_lt (path : Path) (node : Document) (rest : List (Path × Document)) :
    pending (rest ++ traversal.entered visit path node) < pending ((path, node) :: rest) := by
  have hbelow := pending_below path node
  rw [pending_append, pending]
  unfold entered
  split
  · omega
  · rw [pending]
    omega

theorem walkFrom_cons_breadthFirst (ho : traversal.order = .breadthFirst)
    (hv : ∀ path node, visit path node ≠ .stop) (path : Path) (node : Document)
    (rest : List (Path × Document)) :
    traversal.walkFrom visit ((path, node) :: rest) =
      (path, node) :: traversal.walkFrom visit (rest ++ traversal.entered visit path node) := by
  rw [walkFrom]
  cases h : visit path node with
  | stop => exact absurd h (hv path node)
  | skip =>
      have hn : ¬ traversal.enters visit path node := by simp [enters, h]
      rw [entered, if_neg hn, List.append_nil]
  | descend =>
      by_cases hx : traversal.expands node path.length = true
      · have he : traversal.enters visit path node := ⟨h, hx⟩
        rw [entered, if_pos he]
        simp only [if_pos hx, advance, ho]
      · have hn : ¬ traversal.enters visit path node := by simp [enters, hx]
        rw [entered, if_neg hn, List.append_nil]
        simp only [if_neg hx]

/-- **At each depth a breadth-first walk visits the nodes in the order of the listing.** The nodes
of a frontier that are one step deeper than the others are children of nodes that were visited
before those, so they come first in the listing. -/
theorem filter_walkFrom_breadthFirst (ho : traversal.order = .breadthFirst)
    (hv : ∀ path node, visit path node ≠ .stop) (depth : Nat) {k : Nat}
    {near far : List (Path × Document)} (hnear : ∀ start ∈ near, start.1.length = k)
    (hfar : ∀ start ∈ far, start.1.length = k + 1) :
    (traversal.walkFrom visit (near ++ far)).filter (isAt depth) =
      (traversal.listings visit (far ++ near)).filter (isAt depth) := by
  induction hn : pending (near ++ far) using Nat.strongRecOn generalizing k near far with
  | _ n ih =>
    subst hn
    -- the first of the nearer nodes is visited, and its children go behind the deeper nodes
    have hstep : ∀ (k : Nat) (path : Path) (node : Document) (near' far' : List (Path × Document)),
        (path, node) :: near' ++ far' = near ++ far →
        (∀ start ∈ (path, node) :: near', start.1.length = k) →
        (∀ start ∈ far', start.1.length = k + 1) →
        (traversal.walkFrom visit ((path, node) :: near' ++ far')).filter (isAt depth) =
          (traversal.listings visit (far' ++ (path, node) :: near')).filter (isAt depth) := by
      intro k path node near' far' he hnear' hfar'
      obtain ⟨hpath, hnear'⟩ := List.forall_mem_cons.1 hnear'
      have hchildren : ∀ start ∈ far' ++ traversal.entered visit path node,
          start.1.length = k + 1 := by
        intro start hs
        rcases List.mem_append.1 hs with hs | hs
        · exact hfar' start hs
        · exact (length_of_mem_entered hs).trans (congrArg (· + 1) hpath)
      have hlt : pending (near' ++ far' ++ traversal.entered visit path node) <
          pending ((path, node) :: (near' ++ far')) := pending_entered_lt path node _
      rw [List.append_assoc, ← List.cons_append, he] at hlt
      have hrest := ih _ hlt hnear' hchildren rfl
      rw [List.cons_append, walkFrom_cons_breadthFirst ho hv, List.append_assoc,
        List.filter_cons, hrest]
      simp only [listings_append, listings_cons, listing_eq_cons path node, List.filter_append,
        List.append_assoc, List.cons_append, List.filter_cons]
      split
      · -- at its own depth nothing lies below the deeper nodes
        rename_i hd
        have hdepth : depth = k := (beq_iff_eq.1 hd).symm.trans hpath
        have hnone : (traversal.listings visit far').filter (isAt depth) = [] :=
          filter_isAt_listings fun start hs => by
            rw [hfar' start hs, hdepth]
            exact Nat.lt_succ_self k
        rw [hnone]
        rfl
      · rfl
    cases near with
    | cons start near => exact hstep k start.1 start.2 near far rfl hnear hfar
    | nil =>
        cases far with
        | nil => rw [List.append_nil, walkFrom]; rfl
        | cons start far =>
            -- all nodes are equally deep
            have h := hstep (k + 1) start.1 start.2 far [] (List.append_nil _) hfar
              (List.forall_mem_nil _)
            rw [List.append_nil, List.nil_append] at h
            rwa [List.append_nil, List.nil_append]

/-- **A breadth-first walk visits the nodes of the listing by depth.** -/
theorem walkFrom_breadthFirst (ho : traversal.order = .breadthFirst)
    (hv : ∀ path node, visit path node ≠ .stop) (path : Path) (node : Document) :
    traversal.walkFrom visit [(path, node)] = byDepth (traversal.listing visit path node) := by
  have hsorted := walkFrom_byDepth ho hv (List.pairwise_singleton Follows (path, node))
  refine eq_of_filter_isAt hsorted (pairwise_byDepth _) fun depth => ?_
  have hfilter : (traversal.walkFrom visit ([(path, node)] ++ [])).filter (isAt depth) =
      (traversal.listings visit ([] ++ [(path, node)])).filter (isAt depth) := by
    have hnear : ∀ start ∈ [(path, node)], start.1.length = path.length := by simp
    exact filter_walkFrom_breadthFirst ho hv depth hnear (List.forall_mem_nil _)
  rw [List.append_nil, List.nil_append, listings_cons, listings_nil, List.append_nil] at hfilter
  rw [hfilter, filter_byDepth]

/-! ## Paths of visits -/

/-- What is listed stands at its path. -/
theorem nodeAt?_of_mem_listing {path : Path} {node : Document} (hd : node.namesDistinct = true)
    {visited : Path × Document} (h : visited ∈ traversal.listing visit path node) :
    ∃ q, visited.1 = path ++ q ∧ node.nodeAt? q = some visited.2 := by
  induction hn : node.nodeCount using Nat.strongRecOn generalizing path node with
  | _ n ih =>
    subst hn
    rcases mem_listing_iff.1 h with rfl | ⟨-, child, hc, h⟩
    · exact ⟨[], (List.append_nil path).symm, rfl⟩
    · have hd' := Document.everywhere_of_mem_children hd hc
      obtain ⟨q, hpath, hnode⟩ := ih _ (Document.nodeCount_lt_of_mem_children hc) hd' h rfl
      have hchild : node.child? child.1 = some child.2 :=
        Document.child?_of_mem_children (Document.children_tokens_nodup hd) hc
      refine ⟨child.1 :: q, by rw [hpath, List.append_assoc]; rfl, ?_⟩
      rw [Document.nodeAt?, hchild]
      exact hnode

/-- **No two nodes are listed at one path.** -/
theorem listing_pairwise_ne {path : Path} {node : Document} (hd : node.namesDistinct = true) :
    (traversal.listing visit path node).Pairwise fun a b => a.1 ≠ b.1 := by
  induction hn : node.nodeCount using Nat.strongRecOn generalizing path node with
  | _ n ih =>
    subst hn
    by_cases he : traversal.enters visit path node
    · rw [listing_of_enters he, listings, List.pairwise_cons, List.pairwise_flatten,
        List.pairwise_map, List.forall_mem_map]
      refine ⟨fun visited hm => ?_, fun start hs => ?_, ?_⟩
      · -- below a node all paths are longer
        obtain ⟨_, hlist, hm⟩ := List.mem_flatten.1 hm
        obtain ⟨start, hstart, rfl⟩ := List.mem_map.1 hlist
        obtain ⟨child, -, rfl⟩ := mem_below_iff.1 hstart
        have hle := (prefix_of_mem_listing hm).length_le
        rw [List.length_append, List.length_singleton] at hle
        intro heq
        dsimp only at heq
        rw [← heq] at hle
        omega
      · obtain ⟨child, hc, rfl⟩ := mem_below_iff.1 hs
        exact ih _ (Document.nodeCount_lt_of_mem_children hc)
          (Document.everywhere_of_mem_children hd hc) rfl
      · -- the paths below two children go through different tokens
        rw [below, List.pairwise_map]
        have htokens := List.pairwise_map.1 (Document.children_tokens_nodup hd)
        refine htokens.imp fun hne a ha b hb heq => hne ?_
        obtain ⟨p, hp⟩ := prefix_of_mem_listing ha
        obtain ⟨q, hq⟩ := prefix_of_mem_listing hb
        rw [heq, ← hq, List.append_assoc, List.append_assoc] at hp
        exact (List.cons.inj (List.append_cancel_left hp)).1
    · rw [listing_of_not_enters he]
      exact List.pairwise_singleton _ _

/-- A walk that is not ended visits no two nodes at one path. -/
theorem nodup_paths_walk (hv : ∀ path node, visit path node ≠ .stop) {document : Document}
    (hd : document.namesDistinct = true) :
    ((traversal.walk visit document).map Prod.fst).Nodup := by
  have hne : (traversal.walk visit document).Pairwise fun a b => a.1 ≠ b.1 :=
    (listing_pairwise_ne hd).perm (walk_perm hv document).symm Ne.symm
  exact List.pairwise_map.2 hne

/-! ## A single list of waiting nodes -/

/-- A node that waits for its visit, with its path and its depth. -/
structure Waiting where
  /-- The path of the node. -/
  path : Path
  /-- The depth of the node. -/
  depth : Nat
  /-- The node. -/
  node : Document

/-- A visited node with the length of its path as its depth. -/
def Waiting.ofVisit (visited : Path × Document) : Waiting :=
  ⟨visited.1, visited.1.length, visited.2⟩

/-- The children of a node, each one step deeper. -/
def Waiting.children (waiting : Waiting) : List Waiting :=
  waiting.node.children.map fun child =>
    ⟨waiting.path ++ [child.1], waiting.depth + 1, child.2⟩

/-- Takes the next node out: depth first the last one, breadth first the first one. -/
def pop? (order : Order) (frontier : List Waiting) : Option (Waiting × List Waiting) :=
  match order with
  | .depthFirst => frontier.getLast?.map fun next => (next, frontier.dropLast)
  | .breadthFirst => frontier.head?.map fun next => (next, frontier.tail)

/-- Puts children at the end of a frontier: depth first in reverse, so that the first child is taken
out first. -/
def push (order : Order) (frontier children : List Waiting) : List Waiting :=
  match order with
  | .depthFirst => frontier ++ children.reverse
  | .breadthFirst => frontier ++ children

/-- The number of parts that are still to be visited. -/
def weight (frontier : List Waiting) : Nat :=
  Document.countItems (frontier.map Waiting.node)

theorem weight_pop? {order : Order} {frontier rest : List Waiting} {next : Waiting}
    (h : pop? order frontier = some (next, rest)) :
    weight frontier = next.node.nodeCount + weight rest := by
  cases order with
  | depthFirst =>
      obtain ⟨last, hlast, he⟩ := Option.map_eq_some_iff.1 h
      cases he
      obtain ⟨before, rfl⟩ := List.getLast?_eq_some_iff.1 hlast
      rw [List.dropLast_concat, weight, List.map_append, Document.countItems_append, Nat.add_comm]
      rfl
  | breadthFirst =>
      obtain ⟨first, hfirst, he⟩ := Option.map_eq_some_iff.1 h
      cases he
      obtain ⟨after, rfl⟩ := List.head?_eq_some_iff.1 hfirst
      rfl

theorem weight_push (order : Order) (frontier : List Waiting) (waiting : Waiting) :
    weight (push order frontier waiting.children) + 1 =
      waiting.node.nodeCount + weight frontier := by
  have hchildren : waiting.node.nodeCount = 1 + weight waiting.children := by
    rw [Document.nodeCount_children, weight, Waiting.children, List.map_map]
    rfl
  cases order with
  | depthFirst =>
      have hreverse : weight waiting.children.reverse = weight waiting.children :=
        Document.countItems_perm ((List.reverse_perm _).map _)
      rw [push, weight, List.map_append, Document.countItems_append, ← weight, ← weight, hreverse]
      omega
  | breadthFirst =>
      rw [push, weight, List.map_append, Document.countItems_append, ← weight, ← weight]
      omega

/-- A walk that takes nodes out of a list of waiting nodes one by one and puts the children of those
that it expands back; gives the visits in order. -/
def loop (traversal : Traversal) (visit : Path → Document → Visit) (frontier : List Waiting) :
    List Waiting :=
  match _h : pop? traversal.order frontier with
  | none => []
  | some (next, rest) =>
    match visit next.path next.node with
    | .stop => [next]
    | .skip => next :: loop traversal visit rest
    | .descend =>
      if traversal.expands next.node next.depth then
        next :: loop traversal visit (push traversal.order rest next.children)
      else next :: loop traversal visit rest
termination_by weight frontier
decreasing_by
  all_goals
    have hpop := weight_pop? _h
    have hpush := weight_push traversal.order rest next
    have hpos := Document.nodeCount_children next.node
    omega

theorem loop_of_pop? {frontier rest : List Waiting} {next : Waiting}
    (h : pop? traversal.order frontier = some (next, rest)) :
    traversal.loop visit frontier =
      match visit next.path next.node with
      | .stop => [next]
      | .skip => next :: traversal.loop visit rest
      | .descend =>
        if traversal.expands next.node next.depth then
          next :: traversal.loop visit (push traversal.order rest next.children)
        else next :: traversal.loop visit rest := by
  rw [loop]
  split
  · rename_i hnone
    cases hnone.symm.trans h
  · rename_i other others hother
    cases hother.symm.trans h
    rfl

/-- A frontier as a list of waiting nodes: depth first the next node stands at the end. -/
def waiting (order : Order) (frontier : List (Path × Document)) : List Waiting :=
  match order with
  | .depthFirst => (frontier.map Waiting.ofVisit).reverse
  | .breadthFirst => frontier.map Waiting.ofVisit

theorem pop?_waiting_cons (order : Order) (visited : Path × Document)
    (rest : List (Path × Document)) :
    pop? order (waiting order (visited :: rest)) =
      some (Waiting.ofVisit visited, waiting order rest) := by
  cases order with
  | depthFirst => simp [pop?, waiting]
  | breadthFirst => rfl

theorem push_waiting (path : Path) (node : Document) (rest : List (Path × Document)) :
    push traversal.order (waiting traversal.order rest) (Waiting.ofVisit (path, node)).children =
      waiting traversal.order (traversal.advance path node rest) := by
  have hchildren :
      (Waiting.ofVisit (path, node)).children = (below path node).map Waiting.ofVisit := by
    rw [Waiting.children, below, List.map_map]
    refine List.map_congr_left fun child _ => ?_
    simp [Waiting.ofVisit]
  rw [hchildren, advance]
  cases traversal.order with
  | depthFirst => simp [push, waiting]
  | breadthFirst => simp [push, waiting]

/-- **The walk over a single list makes the same visits, and depths are lengths of paths.** -/
theorem loop_waiting (frontier : List (Path × Document)) :
    traversal.loop visit (waiting traversal.order frontier) =
      (traversal.walkFrom visit frontier).map Waiting.ofVisit := by
  -- in each branch the next node of the list is the next one of the frontier
  induction frontier using walkFrom.induct traversal visit with
  | case1 =>
      have hnone : pop? traversal.order (waiting traversal.order []) = none := by
        cases traversal.order <;> rfl
      rw [walkFrom, loop]
      split
      · rfl
      · rename_i hsome
        cases hnone.symm.trans hsome
  | case2 path node rest h =>
      rw [walkFrom, h, loop_of_pop? (pop?_waiting_cons _ _ _)]
      simp only [Waiting.ofVisit, h, List.map_cons, List.map_nil]
  | case3 path node rest h ih =>
      rw [walkFrom, h, loop_of_pop? (pop?_waiting_cons _ _ _)]
      simp only [Waiting.ofVisit, h, List.map_cons, ih]
  | case4 path node rest h hx ih =>
      rw [walkFrom, h, loop_of_pop? (pop?_waiting_cons _ _ _), push_waiting, ih]
      simp only [Waiting.ofVisit, h, hx, if_true, List.map_cons]
  | case5 path node rest h hx ih =>
      rw [walkFrom, h, loop_of_pop? (pop?_waiting_cons _ _ _), ih]
      simp only [Waiting.ofVisit, h, Bool.not_eq_true _ ▸ hx, Bool.false_eq_true, if_false,
        List.map_cons]

/-- **A walk visits the listing of a document, each node once and at its path.** Depth first the
visits are those of the listing in its order, breadth first by depth and within a depth in that
order, either way up to the first visit that ends the walk. No two visits are at one path, the path
of a visit leads every navigator to its node, and the depth that the walk counts is the length of
the path. -/
theorem walk_visits (traversal : Traversal) (visit : Path → Document → Visit) {document : Document}
    (hd : document.namesDistinct = true) :
    (traversal.order = .depthFirst →
      traversal.walk visit document = untilStop visit (traversal.listing visit [] document)) ∧
    (traversal.order = .breadthFirst →
      traversal.walk visit document =
        untilStop visit (byDepth (traversal.listing visit [] document))) ∧
    ((traversal.walk visit document).map Prod.fst).Nodup ∧
    (∀ (navigator : Navigator), ∀ visited ∈ traversal.walk visit document,
      navigator.get document visited.1 = .ok visited.2) ∧
    traversal.loop visit [⟨[], 0, document⟩] =
      (traversal.walk visit document).map fun visited =>
        ⟨visited.1, visited.1.length, visited.2⟩ := by
  -- what holds of the walk that is not stopped holds of its beginning
  have hstops : traversal.walk visit document =
      untilStop visit (traversal.walk (unstopped visit) document) := walkFrom_eq_untilStop _
  have hlisted : (traversal.walk (unstopped visit) document).Perm
      (traversal.listing visit [] document) := by
    rw [← listing_unstopped]
    exact walk_perm unstopped_ne_stop document
  refine ⟨fun ho => ?_, fun ho => ?_, ?_, fun navigator visited hv => ?_, ?_⟩
  · rw [hstops, walk_depthFirst ho unstopped_ne_stop, listing_unstopped]
  · rw [hstops, walk, walkFrom_breadthFirst ho unstopped_ne_stop, listing_unstopped]
  · rw [hstops]
    exact (nodup_paths_walk unstopped_ne_stop hd).sublist ((prefix_untilStop _).sublist.map _)
  · rw [hstops] at hv
    have hm := hlisted.mem_iff.1 ((prefix_untilStop _).subset hv)
    obtain ⟨q, hpath, hnode⟩ := nodeAt?_of_mem_listing hd hm
    rw [hpath]
    exact Navigator.follow_of_nodeAt? _ hnode
  · have hstart : waiting traversal.order [([], document)] = [⟨[], 0, document⟩] := by
      cases traversal.order <;> rfl
    rw [← hstart]
    exact loop_waiting [([], document)]

/-- Breadth first with an end at the entry `b`: the item below `a` is one step deeper than that
entry and is not visited any more. -/
theorem walk_visits_ended :
    let traversal : Traversal := ⟨.breadthFirst, [], [], 10, 10⟩
    let visit : Path → Document → Visit := fun path _ =>
      if path = [.key "b"] then .stop else .descend
    let inner : Document := .sequence [.int 1]
    let document : Document := .mapping [("a", inner), ("b", .int 2)]
    document.namesDistinct = true ∧
      traversal.walk visit document =
        [([], document), ([.key "a"], inner), ([.key "b"], .int 2)] ∧
      ((traversal.walk visit document).map Prod.fst).Nodup ∧
      traversal.walk visit document =
        untilStop visit (byDepth (traversal.listing visit [] document)) ∧
      traversal.loop visit [⟨[], 0, document⟩] =
        [⟨[], 0, document⟩, ⟨[.key "a"], 1, inner⟩, ⟨[.key "b"], 1, .int 2⟩] := by
  intro traversal visit inner document
  have hd : document.namesDistinct = true := by decide
  -- the children of the root are visited, and the second one ends the walk
  have hwalk : traversal.walk visit document =
      [([], document), ([.key "a"], inner), ([.key "b"], .int 2)] := by
    simp [walk, walkFrom, advance, expands, below, traversal, visit, inner, document,
      Document.children, Document.positions, Document.length?]
  obtain ⟨-, hbreadth, honce, -, hloop⟩ := walk_visits traversal visit hd
  refine ⟨hd, hwalk, honce, hbreadth rfl, ?_⟩
  rw [hloop, hwalk]
  rfl

end Traversal

end PathDoc

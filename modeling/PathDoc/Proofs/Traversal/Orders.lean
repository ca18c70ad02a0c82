import PathDoc.Proofs.Traversal.Subtrees

/-!
# The order of what is found

A breadth-first walk visits nodes by depth (`walkFrom_byDepth`), a depth-first walk of a set
everything below one member before anything below the next (`findPaths_byMember`). Either way, what
is found below one member of a set is found all before or all after another member that is a match
itself (`under_split`). If nothing is found below the children of a node, what is found in it are
children, in their order (`findPaths_of_shallow`).
-/

set_option autoImplicit false

namespace PathDoc.Traversal

variable {traversal : Traversal} {visit : Path → Document → Visit} {predicate : Document → Bool}

/-- Whether a visit is as deep as an earlier one, or one step deeper. -/
def Follows (a b : Path × Document) : Prop :=
  a.1.length ≤ b.1.length ∧ b.1.length ≤ a.1.length + 1

/-- A walk goes no further up than where it starts. -/
theorem le_length_of_mem_walkFrom (hv : ∀ path node, visit path node ≠ .stop) {n : Nat}
    {frontier : List (Path × Document)} (h : ∀ start ∈ frontier, n ≤ start.1.length)
    {visited : Path × Document} (hm : visited ∈ traversal.walkFrom visit frontier) :
    n ≤ visited.1.length := by
  rw [(walkFrom_perm hv frontier).mem_iff, listings, List.mem_flatten] at hm
  obtain ⟨_, hlist, hm⟩ := hm
  obtain ⟨start, hstart, rfl⟩ := List.mem_map.1 hlist
  exact Nat.le_trans (h start hstart) (prefix_of_mem_listing hm).length_le

/-- The children of a node go to the end of a frontier whose depths differ by one at most. -/
theorem follows_advance {path : Path} {node : Document} {rest : List (Path × Document)}
    (h : ((path, node) :: rest).Pairwise Follows) : (rest ++ below path node).Pairwise Follows := by
  obtain ⟨hfirst, hrest⟩ := List.pairwise_cons.1 h
  -- the children lie one step deeper than the node, which is as deep as the first of the rest
  have hdepth : ∀ visited ∈ below path node, visited.1.length = path.length + 1 := by
    intro visited hm
    obtain ⟨child, -, rfl⟩ := mem_below_iff.1 hm
    rw [List.length_append, List.length_singleton]
  rw [List.pairwise_append]
  refine ⟨hrest, ?_, ?_⟩
  · apply List.pairwise_of_forall_mem_list
    intro a ha b hb
    rw [Follows, hdepth a ha, hdepth b hb]
    omega
  · intro a ha b hb
    have hle := hfirst a ha
    rw [Follows] at hle ⊢
    rw [hdepth b hb]
    dsimp only at hle
    omega

/-- **A breadth-first walk visits nodes by depth.** -/
theorem walkFrom_byDepth (ho : traversal.order = .breadthFirst)
    (hv : ∀ path node, visit path node ≠ .stop) {frontier : List (Path × Document)}
    (h : frontier.Pairwise Follows) :
    (traversal.walkFrom visit frontier).Pairwise fun a b => a.1.length ≤ b.1.length := by
  induction frontier using walkFrom_induct traversal visit with
  | nil => rw [walkFrom]; exact List.Pairwise.nil
  | stop path node rest hs => exact absurd hs (hv path node)
  | pass path node rest hs he ih =>
      obtain ⟨hfirst, hrest⟩ := List.pairwise_cons.1 h
      rw [walkFrom_of_not_enters hs he]
      refine List.pairwise_cons.2 ⟨fun visited hm => ?_, ih hrest⟩
      exact le_length_of_mem_walkFrom hv (fun start hm => (hfirst start hm).1) hm
  | enter path node rest he ih =>
      obtain ⟨hfirst, -⟩ := List.pairwise_cons.1 h
      -- breadth first the children wait behind the rest
      have hadvance : traversal.advance path node rest = rest ++ below path node := by
        rw [advance, ho]
      rw [hadvance] at ih
      rw [walkFrom_of_enters he, hadvance]
      refine List.pairwise_cons.2 ⟨fun visited hm => ?_, ih (follows_advance h)⟩
      refine le_length_of_mem_walkFrom hv (fun start hm => ?_) hm
      rcases List.mem_append.1 hm with hm | hm
      · exact (hfirst start hm).1
      · obtain ⟨child, -, rfl⟩ := mem_below_iff.1 hm
        simp

/-! ## Members of sets -/

/-- The position with which a path begins. -/
def leading : Path → Int
  | .index position :: _ => position
  | _ => 0

theorem leading_of_starts {first : Token} {path : Path} (h : [first] <+: path) :
    leading path = leading [first] := by
  obtain ⟨rest, rfl⟩ := h
  cases first <;> rfl

theorem positions_leading (start : Nat) (items : List Document) :
    (Document.positions start items).Pairwise fun a b => leading [a.1] ≤ leading [b.1] := by
  have h : ((Document.positions start items).map Prod.fst).Pairwise
      fun a b => leading [a] ≤ leading [b] := by
    rw [Document.positions_tokens, List.pairwise_map]
    have hlt : (List.range' start items.length).Pairwise (· < ·) := List.pairwise_lt_range'
    exact hlt.imp fun hij => Int.ofNat_le.2 (Nat.le_of_lt hij)
  rwa [List.pairwise_map] at h

/-- **Depth first, what is found in a set comes member by member.** -/
theorem findPaths_byMember (ho : traversal.order = .depthFirst) {members : List Document}
    (h : predicate (.set members) = false) (hx : traversal.expands (.set members) 0 = true) :
    (traversal.findPaths predicate (.set members)).Pairwise
      fun a b => leading a.1 ≤ leading b.1 := by
  rw [findPaths_of_expands h hx, walkFrom_depthFirst ho fun _ => searchVisit_ne_stop, listings]
  refine List.Pairwise.filter _ (List.pairwise_flatten.2 ⟨?_, ?_⟩)
  · -- all found in one member begin with its position
    intro list hl
    obtain ⟨start, hs, rfl⟩ := List.mem_map.1 hl
    obtain ⟨child, hc, rfl⟩ := mem_below_iff.1 hs
    apply List.pairwise_of_forall_mem_list
    intro a ha b hb
    have ha' : [child.1] <+: a.1 := prefix_of_mem_listing ha
    have hb' : [child.1] <+: b.1 := prefix_of_mem_listing hb
    exact Int.le_of_eq ((leading_of_starts ha').trans (leading_of_starts hb').symm)
  · rw [List.pairwise_map, below, List.pairwise_map]
    -- what is found in an earlier member begins with a smaller position
    apply (positions_leading 0 members).imp
    intro c d hle a ha b hb
    have ha' : [c.1] <+: a.1 := prefix_of_mem_listing ha
    have hb' : [d.1] <+: b.1 := prefix_of_mem_listing hb
    rwa [leading_of_starts ha', leading_of_starts hb']

/-- **Breadth first, what is found comes by depth.** -/
theorem findPaths_byDepth (ho : traversal.order = .breadthFirst) (document : Document) :
    (traversal.findPaths predicate document).Pairwise fun a b => a.1.length ≤ b.1.length := by
  rw [findPaths_eq]
  exact (walkFrom_byDepth ho (fun _ => searchVisit_ne_stop)
    (List.pairwise_singleton _ ([], document))).filter _

theorem under_eq_nil_iff {token : Token} {visits : List (Path × Document)} :
    under token visits = [] ↔ ∀ visited ∈ visits, visited.1.head? ≠ some token := by
  rw [under, List.map_eq_nil_iff, List.filter_eq_nil_iff]
  simp [startsAt]

theorem under_append (token : Token) (a b : List (Path × Document)) :
    under token (a ++ b) = under token a ++ under token b := by
  rw [under, List.filter_append, List.map_append]
  rfl

/-- What is found at a child is a match, and nothing is found below it. -/
theorem under_findPaths_of_mem {node found : Document} {token : Token}
    (hd : node.namesDistinct = true) (h : predicate node = false)
    (hx : traversal.expands node 0 = true)
    (hm : ([token], found) ∈ traversal.findPaths predicate node) :
    (under token (traversal.findPaths predicate node)).length = 1 := by
  obtain ⟨child, hc, rest, hpath⟩ := exists_child_of_mem_findPaths h hm
  cases hpath
  have hunder := under_findPaths hd h hx hc
  have hroot : ([], found) ∈ under child.1 (traversal.findPaths predicate node) := by
    refine List.mem_map.2 ⟨([child.1], found), List.mem_filter.2 ⟨hm, ?_⟩, rfl⟩
    exact beq_self_eq_true _
  rw [hunder] at hroot ⊢
  cases hp : predicate child.2 with
  | true => rw [findPaths_of_match hp]; rfl
  | false =>
      obtain ⟨_, -, _, hne⟩ := exists_child_of_mem_findPaths hp hroot
      cases hne

/-- **Around a member that is a match, what is found below another member comes all before or all
after.** -/
theorem under_split {members : List Document} (hd : (Document.set members).namesDistinct = true)
    (h : predicate (.set members) = false)
    (hx : traversal.expands (.set members) 0 = true) {before after : List (Path × Document)}
    {i j : Int} {found : Document}
    (hs : traversal.findPaths predicate (.set members) = before ++ ([.index i], found) :: after)
    (hij : j ≠ i) : under (.index j) before = [] ∨ under (.index j) after = [] := by
  have hhead : ∀ {visited : Path × Document}, visited.1.head? = some (.index j) →
      leading visited.1 = j := by
    rintro ⟨path, node⟩ hv
    cases path with
    | nil => cases hv
    | cons first rest =>
        cases hv
        rfl
  cases ho : traversal.order with
  | depthFirst =>
      have hsorted := findPaths_byMember ho h hx
      rw [hs, List.pairwise_append, List.pairwise_cons] at hsorted
      obtain ⟨-, ⟨hafter, -⟩, hbefore⟩ := hsorted
      rcases Int.lt_or_gt_of_ne hij with hlt | hgt
      · refine Or.inr (under_eq_nil_iff.2 fun visited hm hv => ?_)
        have hle := hafter visited hm
        rw [hhead hv] at hle
        exact absurd hle (Int.not_le.2 hlt)
      · refine Or.inl (under_eq_nil_iff.2 fun visited hm hv => ?_)
        have hle := hbefore visited hm _ List.mem_cons_self
        rw [hhead hv] at hle
        exact absurd hle (Int.not_le.2 hgt)
  | breadthFirst =>
      rw [or_iff_not_imp_left]
      intro hne
      rw [under_eq_nil_iff] at hne
      push Not at hne
      obtain ⟨⟨path, node⟩, hm, hv⟩ := hne
      -- what comes before a member lies no deeper, so it is the other member itself
      have hsorted : (traversal.findPaths predicate (.set members)).Pairwise
          fun a b => a.1.length ≤ b.1.length := findPaths_byDepth ho (.set members)
      rw [hs, List.pairwise_append] at hsorted
      have hle : path.length ≤ 1 := hsorted.2.2 _ hm _ List.mem_cons_self
      have hpath : path = [.index j] := by
        cases path with
        | nil => cases hv
        | cons first rest =>
            cases hv
            rw [List.length_cons] at hle
            rw [List.length_eq_zero_iff.1 (by omega : rest.length = 0)]
      subst hpath
      have hmem : ([.index j], node) ∈ traversal.findPaths predicate (.set members) := by
        rw [hs]
        exact List.mem_append_left _ hm
      have hone := under_findPaths_of_mem hd h hx hmem
      have hpos : 0 < (under (.index j) before).length := by
        rw [List.length_pos_iff, Ne, under_eq_nil_iff]
        intro hall
        exact hall _ hm hv
      have hmid : under (.index j) (([.index i], found) :: after) = under (.index j) after := by
        have hne : ¬ i = j := fun he => hij he.symm
        simp [under, startsAt, hne]
      rw [hs, under_append, hmid, List.length_append] at hone
      exact List.length_eq_zero_iff.1 (by omega)

/-! ## Matches that are all near the top -/

/-- If the nodes of a frontier that are no match have none below them, the matches that are found
are those of the frontier, in its order. -/
theorem filter_walkFrom_of_shallow {frontier : List (Path × Document)}
    (h : ∀ start ∈ frontier, predicate start.2 = false → ∀ visited ∈
      traversal.listing (fun _ node => searchVisit predicate node) start.1 start.2,
        predicate visited.2 = false) :
    (traversal.walkFrom (fun _ node => searchVisit predicate node) frontier).filter
        (fun visited => predicate visited.2) =
      frontier.filter fun visited => predicate visited.2 := by
  induction frontier using walkFrom_induct traversal
    (fun _ node => searchVisit predicate node) with
  | nil => rw [walkFrom]
  | stop path node rest hs => exact absurd hs (searchVisit_ne_stop node)
  | pass path node rest hs he ih =>
      rw [walkFrom_of_not_enters hs he, List.filter_cons, List.filter_cons, ih fun start hm =>
        h start (List.mem_cons_of_mem _ hm)]
  | enter path node rest he ih =>
      have hp : predicate node = false := by
        by_contra hp
        simp [enters, searchVisit, hp] at he
      have hbelow : ∀ start ∈ below path node, ∀ visited ∈
          traversal.listing (fun _ node => searchVisit predicate node) start.1 start.2,
            predicate visited.2 = false := by
        intro start hm visited hv
        obtain ⟨child, hc, rfl⟩ := mem_below_iff.1 hm
        exact h (path, node) List.mem_cons_self hp visited
          (mem_listing_iff.2 (Or.inr ⟨he, child, hc, hv⟩))
      -- the children of a node that is expanded are no matches, so it does not matter where they go
      have hnone : (below path node).filter (fun visited => predicate visited.2) = [] := by
        apply List.filter_eq_nil_iff.2
        intro start hm
        rw [hbelow start hm start (self_mem_listing start.1 start.2)]
        exact Bool.false_ne_true
      have hnext : ∀ start ∈ traversal.advance path node rest, predicate start.2 = false →
          ∀ visited ∈ traversal.listing (fun _ node => searchVisit predicate node) start.1
            start.2, predicate visited.2 = false := by
        intro start hm
        rcases mem_advance_iff.1 hm with hm | hm
        · intro _
          exact hbelow start hm
        · exact h start (List.mem_cons_of_mem _ hm)
      have hfilter : (traversal.advance path node rest).filter
          (fun visited => predicate visited.2) =
            rest.filter fun visited => predicate visited.2 := by
        unfold advance
        split
        · rw [List.filter_append, hnone, List.nil_append]
        · rw [List.filter_append, hnone, List.append_nil]
      rw [walkFrom_of_enters he, List.filter_cons, List.filter_cons, ih hnext, hfilter]

/-- Where nothing is found in a document, no visit below its path is a match. -/
theorem listing_of_no_match {token : Token} {node : Document}
    (h : (traversal.lowered 1).findPaths predicate node = []) {visited : Path × Document}
    (hm : visited ∈ traversal.listing (fun _ node => searchVisit predicate node) [token] node) :
    predicate visited.2 = false := by
  have hwalk : visited ∈ traversal.walkFrom (fun _ node => searchVisit predicate node)
      [([token], node)] := by
    rw [(walkFrom_perm (fun _ => searchVisit_ne_stop) _).mem_iff, listings_cons, listings_nil,
      List.append_nil]
    exact hm
  have hshift : traversal.walkFrom (fun _ node => searchVisit predicate node) [([token], node)] =
      ((traversal.lowered 1).walk (fun _ node => searchVisit predicate node) node).map
        (shift [token]) := walkFrom_map_shift [token] (searchVisit predicate) [([], node)]
  rw [hshift] at hwalk
  obtain ⟨inner, hinner, rfl⟩ := List.mem_map.1 hwalk
  rw [findPaths_eq, List.filter_eq_nil_iff] at h
  exact Bool.eq_false_iff.2 (h inner hinner)

/-- **If the children that are no match have none below them, the matches are the children that
satisfy the predicate.** -/
theorem findPaths_of_shallow {node : Document} (h : predicate node = false)
    (hx : traversal.expands node 0 = true)
    (hs : ∀ child ∈ node.children, predicate child.2 = false →
      (traversal.lowered 1).findPaths predicate child.2 = []) :
    traversal.findPaths predicate node =
      (below [] node).filter fun visited => predicate visited.2 := by
  rw [findPaths_of_expands h hx]
  apply filter_walkFrom_of_shallow
  intro start hm hp visited hv
  obtain ⟨child, hc, rfl⟩ := mem_below_iff.1 hm
  exact listing_of_no_match (hs child hc hp) hv

end PathDoc.Traversal

import PathDoc.Flat.Flatten
import PathDoc.Proofs.Flat.Tree
import PathDoc.Proofs.Traversal.Listing

/-!
# What a flattened document holds

`FlattenOptions.contents` lists the entries that flattening makes of a node and of everything below
it, with paths from that node on. A node that is listed whole has one entry (`contents_of_whole`);
an expanded one has its marker, if any, and the contents of its children, each behind its token
(`contents_of_expanded`). The paths are different (`contents_nodup`), so the dictionary of a
document holds its contents and nothing else (`flatten_perm`), and the tree of the dictionary is the
tree of the contents (`ofDict_flatten`).
-/

set_option autoImplicit false

namespace PathDoc.FlattenOptions

variable (options : FlattenOptions)

/-- How the walk of flattening goes on after a node. -/
def visit (path : Path) (node : Document) : Visit :=
  if options.listsWhole path.length node then .skip else .descend

/-- The containers that flattening expands, with their paths. -/
def expanded (document : Document) : List (Path × Document) :=
  (options.traversal.walk options.visit document).filter fun visited =>
    !options.listsWhole visited.1.length visited.2

/-- The nodes that flattening visits from a node on. -/
abbrev visited (path : Path) (node : Document) : List (Path × Document) :=
  options.traversal.listing options.visit path node

/-- The entries of a node at a path and of what lies below it; their paths start at the node. -/
def contents (path : Path) (node : Document) : List (Path × Entry) :=
  (options.visited path node).filterMap fun v =>
    (options.entry? v.1 v.2).map fun entry => (v.1.drop path.length, entry)

/-- The contents of the children of a node. -/
def groups (path : Path) (node : Document) : List (Token × List (Path × Entry)) :=
  node.children.map fun child => (child.1, options.contents (path ++ [child.1]) child.2)

variable {options}

theorem visit_ne_stop (path : Path) (node : Document) : options.visit path node ≠ .stop := by
  unfold visit
  split <;> exact Visit.noConfusion

/-- A node that is not listed whole has children and is expanded. -/
theorem listsWhole_eq_false_iff {depth : Nat} {node : Document} :
    options.listsWhole depth node = false ↔
      node.isEmpty = false ∧ options.traversal.expands node depth = true := by
  rw [listsWhole, Bool.or_eq_false_iff, Bool.not_eq_false']

/-- The walk goes on below exactly the nodes that are not listed whole. -/
theorem enters_iff {path : Path} {node : Document} :
    options.traversal.enters options.visit path node ↔
      options.listsWhole path.length node = false := by
  unfold Traversal.enters visit
  by_cases h : options.listsWhole path.length node = true
  · simp [h]
  · rw [Bool.not_eq_true] at h
    simp [h, (listsWhole_eq_false_iff.1 h).2]

theorem visited_of_expanded {path : Path} {node : Document}
    (h : options.listsWhole path.length node = false) :
    options.visited path node =
      (path, node) :: options.traversal.listings options.visit (Traversal.below path node) :=
  Traversal.listing_of_enters (enters_iff.2 h)

theorem visited_of_whole {path : Path} {node : Document}
    (h : options.listsWhole path.length node = true) :
    options.visited path node = [(path, node)] := by
  apply Traversal.listing_of_not_enters
  intro he
  rw [enters_iff.1 he] at h
  exact Bool.noConfusion h

/-- An expanded node has children. -/
theorem children_ne_nil {depth : Nat} {node : Document}
    (h : options.listsWhole depth node = false) : node.children ≠ [] := by
  intro hc
  cases hl : node.length? with
  | none => simp [listsWhole, Traversal.expands, hl] at h
  | some length =>
      have hzero := Document.length_children hl
      rw [hc, List.length_nil] at hzero
      simp [listsWhole, Document.isEmpty, hl, ← hzero] at h

/-! ## The contents of a node -/

/-- A value is the entry of a node that is listed whole. -/
theorem entry?_eq_value_iff {path : Path} {node value : Document} :
    options.entry? path node = some (.value value) ↔
      options.listsWhole path.length node = true ∧ node = value := by
  unfold entry?
  cases options.listsWhole path.length node with
  | true => simp
  | false =>
      rw [if_neg Bool.false_ne_true]
      split <;> simp

/-- A marker is, on request, the entry of a node that is not listed whole; a root whose kind shows
in the tokens below it has none. -/
theorem entry?_eq_marker_iff {path : Path} {node : Document} {marker : Marker} :
    options.entry? path node = some (.marker marker) ↔
      options.listsWhole path.length node = false ∧ options.annotateAll = true ∧
        (path = [] → isInferred node = false) ∧ Marker.ofDocument? node = some marker := by
  unfold entry?
  cases options.listsWhole path.length node with
  | true => simp
  | false =>
      rw [if_neg Bool.false_ne_true]
      cases path <;> simp [and_assoc]

theorem contents_of_whole {path : Path} {node : Document}
    (h : options.listsWhole path.length node = true) :
    options.contents path node = [([], .value node)] := by
  simp [contents, visited_of_whole h, entry?, h]

/-- The path of an entry below a child begins with the token of the child. -/
theorem drop_of_below {path p : Path} {token : Token} (h : path ++ [token] <+: p) :
    p.drop path.length = token :: p.drop (path ++ [token]).length := by
  obtain ⟨rest, rfl⟩ := h
  simp

theorem contents_below {path : Path} (token : Token) (node : Document) :
    ((options.visited (path ++ [token]) node).filterMap fun v =>
      (options.entry? v.1 v.2).map fun entry => (v.1.drop path.length, entry)) =
      (options.contents (path ++ [token]) node).map fun e => (token :: e.1, e.2) := by
  rw [contents, List.map_filterMap]
  apply List.filterMap_congr
  intro v hv
  rw [drop_of_below (Traversal.prefix_of_mem_listing hv), Option.map_map]
  rfl

/-- **An expanded node has its own entry and those of its children.** -/
theorem contents_of_expanded {path : Path} {node : Document}
    (h : options.listsWhole path.length node = false) :
    options.contents path node =
      (options.entry? path node).toList.map (fun entry => ([], entry)) ++
        TokenTree.ungroup (options.groups path node) := by
  have hbelow : ((options.traversal.listings options.visit (Traversal.below path node)).filterMap
      fun v => (options.entry? v.1 v.2).map fun entry => (v.1.drop path.length, entry)) =
      TokenTree.ungroup (options.groups path node) := by
    rw [Traversal.listings, Traversal.below, List.map_map, TokenTree.ungroup, groups,
      List.flatMap_map, List.filterMap_flatten, List.map_map, List.flatMap_def]
    congr 1
    apply List.map_congr_left
    intro child _
    exact contents_below child.1 child.2
  rw [contents, visited_of_expanded h, List.filterMap_cons, hbelow]
  cases options.entry? path node <;> simp

theorem contents_ne_nil (path : Path) (node : Document) : options.contents path node ≠ [] := by
  induction hn : node.nodeCount using Nat.strongRecOn generalizing path node with
  | _ n ih =>
    subst hn
    cases h : options.listsWhole path.length node with
    | true =>
        rw [contents_of_whole h]
        exact List.cons_ne_nil _ _
    | false =>
        rw [contents_of_expanded h]
        obtain ⟨child, rest, hc⟩ := List.exists_cons_of_ne_nil (children_ne_nil h)
        have hmem : child ∈ node.children := hc ▸ List.mem_cons_self
        have hne := ih _ (Document.nodeCount_lt_of_mem_children hmem) (path ++ [child.1]) child.2 rfl
        simp [TokenTree.ungroup, groups, hc, hne]

/-- The entries below an expanded node. -/
theorem mem_ungroup_groups_iff {path rest : Path} {node : Document} {entry : Entry} :
    (rest, entry) ∈ TokenTree.ungroup (options.groups path node) ↔
      ∃ token child below, rest = token :: below ∧ (token, child) ∈ node.children ∧
        (below, entry) ∈ options.contents (path ++ [token]) child := by
  rw [TokenTree.ungroup, groups, List.flatMap_map, List.mem_flatMap]
  constructor
  · rintro ⟨⟨token, child⟩, hc, he⟩
    obtain ⟨⟨below, other⟩, hb, he⟩ := List.mem_map.1 he
    cases he
    exact ⟨token, child, below, rfl, hc, hb⟩
  · rintro ⟨token, child, below, rfl, hc, hb⟩
    exact ⟨(token, child), hc, List.mem_map.2 ⟨(below, entry), hb, rfl⟩⟩

theorem groups_ne_nil (path : Path) (node : Document) :
    ∀ g ∈ options.groups path node, g.2 ≠ [] := by
  intro g hg
  obtain ⟨child, -, rfl⟩ := List.mem_map.1 hg
  exact contents_ne_nil _ _

theorem groups_tokens (path : Path) (node : Document) :
    (options.groups path node).map Prod.fst = node.children.map Prod.fst := by
  rw [groups, List.map_map]
  rfl

/-- Entries in groups of different tokens have different paths, if those of each group have. -/
theorem ungroup_nodup {groups : List (Token × List (Path × Entry))}
    (hn : (groups.map Prod.fst).Nodup) (hg : ∀ g ∈ groups, (g.2.map Prod.fst).Nodup) :
    ((TokenTree.ungroup groups).map Prod.fst).Nodup := by
  rw [TokenTree.ungroup, List.map_flatMap, List.nodup_flatMap]
  constructor
  · intro g hmem
    rw [List.map_map]
    have hcons : (g.2.map Prod.fst).map (g.1 :: ·) =
        g.2.map (Prod.fst ∘ fun e => (g.1 :: e.1, e.2)) := by
      rw [List.map_map]
      rfl
    rw [← hcons]
    exact (hg g hmem).map List.cons_injective
  -- paths in different groups differ in their first token
  · apply (List.pairwise_map.1 hn).imp
    intro g g' hne path hp hq
    simp only [List.map_map, List.mem_map, Function.comp_apply] at hp hq
    obtain ⟨e, -, he⟩ := hp
    obtain ⟨e', -, he'⟩ := hq
    exact hne (List.cons.inj (he.trans he'.symm)).1

/-- **The entries of a document have different paths.** -/
theorem contents_nodup (path : Path) {node : Document} (hd : node.namesDistinct = true) :
    ((options.contents path node).map Prod.fst).Nodup := by
  -- on the number of parts, since the children of a node are a list made from it
  induction hn : node.nodeCount using Nat.strongRecOn generalizing path node with
  | _ n ih =>
    subst hn
    cases h : options.listsWhole path.length node with
    | true =>
        rw [contents_of_whole h]
        exact List.nodup_singleton _
    | false =>
        have hgroups : ((TokenTree.ungroup (options.groups path node)).map Prod.fst).Nodup := by
          refine ungroup_nodup ?_ fun g hg => ?_
          · rw [groups_tokens]
            exact Document.children_tokens_nodup hd
          · obtain ⟨child, hc, rfl⟩ := List.mem_map.1 hg
            exact ih _ (Document.nodeCount_lt_of_mem_children hc) _
              (Document.everywhere_of_mem_children hd hc) rfl
        rw [contents_of_expanded h]
        -- the marker stands at the empty path, all other paths begin with a token
        cases options.entry? path node with
        | none => exact hgroups
        | some entry =>
            refine List.nodup_cons.2 ⟨fun hm => ?_, hgroups⟩
            obtain ⟨e, he, hnil⟩ := List.mem_map.1 hm
            obtain ⟨token, child, below, hcons, -⟩ := mem_ungroup_groups_iff.1 he
            cases hcons.symm.trans hnil

/-! ## The dictionary of a document -/

/-- Flattening walks depth first, so the order of its visits is that of the listing. -/
theorem flatten_eq_ofList (options : FlattenOptions) (document : Document) :
    document.flatten options = PathDict.ofList (options.contents [] document) := by
  rw [contents, visited, ← Traversal.walk_depthFirst rfl visit_ne_stop]
  rfl

/-- **The dictionary of a document holds its contents.** -/
theorem flatten_perm (options : FlattenOptions) {document : Document} (hd : document.namesDistinct = true) :
    (document.flatten options).entries.Perm (options.contents [] document) := by
  rw [flatten_eq_ofList]
  exact PathDict.ofList_perm (contents_nodup [] hd)

/-- The dictionary of a document holds the entries of the nodes that are visited. -/
theorem mem_flatten_iff {document : Document} (hd : document.namesDistinct = true)
    {e : Path × Entry} :
    e ∈ (document.flatten options).entries ↔
      ∃ v ∈ options.visited [] document, v.1 = e.1 ∧ options.entry? v.1 v.2 = some e.2 := by
  rw [(flatten_perm options hd).mem_iff, contents, List.mem_filterMap]
  refine exists_congr fun v => and_congr_right fun _ => ?_
  rw [Option.map_eq_some_iff, List.length_nil, List.drop_zero]
  constructor
  · rintro ⟨entry, hentry, rfl⟩
    exact ⟨rfl, hentry⟩
  · rintro ⟨hpath, hentry⟩
    exact ⟨e.2, hentry, Prod.ext hpath rfl⟩

/-- **The tree of the dictionary of a document is the tree of its contents.** -/
theorem ofDict_flatten {document : Document} (hd : document.namesDistinct = true) :
    TokenTree.ofDict (document.flatten options) =
      TokenTree.enter (options.contents [] document) TokenTree.empty := by
  have hp := flatten_perm options hd
  refine TokenTree.enter_perm hp ?_ _
  exact (hp.map Prod.fst).nodup_iff.2 (contents_nodup [] hd)

end PathDoc.FlattenOptions

import PathDoc.Proofs.Find.Removal
import PathDoc.Proofs.Traversal.Replaced

/-!
# The topmost matches

A walk that leaves nothing out reaches a node if all containers above it are expanded (`ReachedAt`).
A search reports the reached nodes that satisfy a predicate and have no reached node above them that
satisfies it, each once and at its path (`mem_findPaths_iff_reachedAt`). No reported path leads
through another one (`not_prefix_of_mem_findPaths`), the order of the walk changes the order of the
report only (`findPaths_order`), and the walk that ends at the first match tells whether anything is
reported at all. `findPaths_topmost` puts it together, with what this means for the three kinds of
answers of a search.
-/

set_option autoImplicit false

namespace PathDoc

namespace Traversal

variable {traversal : Traversal} {predicate : Document → Bool}

/-- Whether a walk that leaves nothing out comes to a node: the node stands at the path, and all
containers above it are expanded. -/
def ReachedAt (traversal : Traversal) (document : Document) (path : Path) (node : Document) : Prop :=
  document.nodeAt? path = some node ∧
    ∀ above token, above ++ [token] <+: path → ∃ container,
      document.nodeAt? above = some container ∧
        traversal.expands container above.length = true

/-- What lies above a reached node is reached. -/
theorem ReachedAt.above {document node : Document} {path above : Path}
    (h : traversal.ReachedAt document path node) (ha : above <+: path) (hne : above ≠ path) :
    ∃ container, traversal.ReachedAt document above container ∧
      traversal.expands container above.length = true := by
  obtain ⟨token, htoken⟩ := exists_token_of_prefix ha hne
  obtain ⟨container, hnode, hx⟩ := h.2 above token htoken
  refine ⟨container, ⟨hnode, ?_⟩, hx⟩
  intro higher token' hstart
  exact h.2 higher token' (hstart.trans ha)

/-- All containers above a path are expanded and have a property, if the walk comes to the document
at a depth. -/
def OpenAbove (traversal : Traversal) (good : Document → Prop) (depth : Nat) (document : Document)
    (path : Path) : Prop :=
  ∀ above token, above ++ [token] <+: path → ∃ container, document.nodeAt? above = some container ∧
    traversal.expands container (depth + above.length) = true ∧ good container

section

variable {good : Document → Prop} {depth : Nat} {document : Document}

theorem openAbove_nil : traversal.OpenAbove good depth document [] := by
  intro above token hstart
  exact absurd (List.prefix_nil.1 hstart) (by simp)

theorem OpenAbove.root {first : Token} {rest : Path}
    (h : traversal.OpenAbove good depth document (first :: rest)) :
    traversal.expands document depth = true ∧ good document := by
  obtain ⟨container, hnode, h⟩ := h [] first (List.cons_prefix_cons.2 ⟨rfl, List.nil_prefix⟩)
  cases hnode
  exact h

/-- What lies above a path is the root and what lies above the rest of the path in its child. -/
theorem openAbove_cons_iff {first : Token} {rest : Path} {child : Document}
    (hc : document.child? first = some child) :
    traversal.OpenAbove good depth document (first :: rest) ↔
      (traversal.expands document depth = true ∧ good document) ∧
        traversal.OpenAbove good (depth + 1) child rest := by
  -- an address below the first token is one in the child, one level further down
  have hbelow : ∀ q, document.nodeAt? (first :: q) = child.nodeAt? q := by
    intro q
    rw [Document.nodeAt?, hc]
    rfl
  have hdepth : ∀ q : Path, depth + 1 + q.length = depth + (first :: q).length := by
    intro q
    rw [List.length_cons]
    omega
  constructor
  · intro h
    refine ⟨h.root, ?_⟩
    intro above token hstart
    rw [← hbelow, hdepth]
    exact h (first :: above) token (List.cons_prefix_cons.2 ⟨rfl, hstart⟩)
  · rintro ⟨hroot, h⟩ above token hstart
    cases above with
    | nil => exact ⟨document, rfl, hroot⟩
    | cons first' above =>
        rw [List.cons_append] at hstart
        obtain ⟨rfl, hrest⟩ := List.cons_prefix_cons.1 hstart
        rw [hbelow, ← hdepth]
        exact h above token hrest

/-- Whether a node is a topmost match, told from its path: it is a match, and every node above it is
expanded and no match. -/
theorem isTopmost_iff {path : Path} :
    traversal.isTopmost predicate depth document path = true ↔
      (∃ node, document.nodeAt? path = some node ∧ predicate node = true) ∧
        traversal.OpenAbove (fun container => predicate container = false) depth document path := by
  -- induction on the path: a match above hides everything below it
  induction path generalizing depth document with
  | nil =>
      rw [isTopmost]
      constructor
      · intro h
        exact ⟨⟨document, rfl, h⟩, openAbove_nil⟩
      · rintro ⟨⟨node, hnode, hp⟩, -⟩
        cases hnode
        exact hp
  | cons first rest ih =>
      rw [isTopmost, Bool.and_eq_true, Bool.and_eq_true, Bool.not_eq_true']
      cases hc : document.child? first with
      | none =>
          refine iff_of_false ?_ ?_
          · rintro ⟨-, h⟩
            exact Bool.false_ne_true h
          · rintro ⟨⟨node, hnode, -⟩, -⟩
            rw [Document.nodeAt?, hc] at hnode
            cases hnode
      | some child =>
          dsimp only
          rw [ih, openAbove_cons_iff hc, Document.nodeAt?, hc, Option.bind_some]
          tauto

end

/-- What holds of all reached nodes above a reached one. -/
theorem ReachedAt.openAbove {good : Document → Prop} {document node : Document} {path : Path}
    (h : traversal.ReachedAt document path node)
    (hgood : ∀ above ancestor, above <+: path → above ≠ path →
      traversal.ReachedAt document above ancestor → good ancestor) :
    traversal.OpenAbove good 0 document path := by
  intro above token hstart
  have hne : above ≠ path := by
    rintro rfl
    have hlength := hstart.length_le
    rw [List.length_append, List.length_singleton] at hlength
    omega
  have hlies : above <+: path := (List.prefix_append above [token]).trans hstart
  obtain ⟨container, hcontainer, hx⟩ := h.above hlies hne
  rw [Nat.zero_add]
  exact ⟨container, hcontainer.1, hx, hgood above container hlies hne hcontainer⟩

/-- A topmost match is a reached match below no reached one. -/
theorem isTopmost_iff_reachedAt {document node : Document} {path : Path}
    (hn : document.nodeAt? path = some node) :
    traversal.isTopmost predicate 0 document path = true ↔
      traversal.ReachedAt document path node ∧ predicate node = true ∧
        ∀ above ancestor, above <+: path → above ≠ path →
          traversal.ReachedAt document above ancestor → predicate ancestor = false := by
  rw [isTopmost_iff]
  constructor
  · rintro ⟨⟨node', hn', hp⟩, habove⟩
    cases hn.symm.trans hn'
    refine ⟨⟨hn, ?_⟩, hp, ?_⟩
    · -- every container above is expanded, which makes the node reached
      intro above token hstart
      obtain ⟨container, hc, hx, -⟩ := habove above token hstart
      rw [Nat.zero_add] at hx
      exact ⟨container, hc, hx⟩
    · intro above ancestor hstart hne hreached
      obtain ⟨token, htoken⟩ := exists_token_of_prefix hstart hne
      obtain ⟨container, hc, -, hno⟩ := habove above token htoken
      cases hc.symm.trans hreached.1
      exact hno
  · rintro ⟨hreached, hp, hnone⟩
    exact ⟨⟨node, hn, hp⟩, hreached.openAbove hnone⟩

/-! ## What a search reports -/

section

variable {document : Document} (hd : document.namesDistinct = true)

include hd

theorem nodeAt?_of_mem_findPaths {found : Path × Document}
    (h : found ∈ traversal.findPaths predicate document) :
    document.nodeAt? found.1 = some found.2 := by
  rw [findPaths_eq, List.mem_filter] at h
  have hlisted := (walk_perm (fun _ => searchVisit_ne_stop) document).mem_iff.1 h.1
  obtain ⟨q, hpath, hnode⟩ := nodeAt?_of_mem_listing hd hlisted
  rw [hpath, List.nil_append]
  exact hnode

/-- **A search reports the reached matches that lie below no reached match.** -/
theorem mem_findPaths_iff_reachedAt {path : Path} {node : Document} :
    (path, node) ∈ traversal.findPaths predicate document ↔
      traversal.ReachedAt document path node ∧ predicate node = true ∧
        ∀ above ancestor, above <+: path → above ≠ path →
          traversal.ReachedAt document above ancestor → predicate ancestor = false := by
  have hmem : path ∈ (traversal.findPaths predicate document).map Prod.fst ↔
      traversal.isTopmost predicate 0 document path = true := mem_findPaths_iff hd 0
  constructor
  · intro h
    have hnode := nodeAt?_of_mem_findPaths hd h
    apply (isTopmost_iff_reachedAt hnode).1
    exact hmem.1 (List.mem_map_of_mem h)
  · intro h
    have hnode : document.nodeAt? path = some node := h.1.1
    -- something is reported at the path, and only one node stands there
    obtain ⟨⟨path', other⟩, hfound, rfl⟩ :=
      List.mem_map.1 (hmem.2 ((isTopmost_iff_reachedAt hnode).2 h))
    cases hnode.symm.trans (nodeAt?_of_mem_findPaths hd hfound)
    exact hfound

theorem nodup_paths_findPaths :
    ((traversal.findPaths predicate document).map Prod.fst).Nodup := by
  rw [findPaths_eq]
  exact (nodup_paths_walk (fun _ => searchVisit_ne_stop) hd).sublist (List.filter_sublist.map _)

/-- No reported path leads through another one. -/
theorem not_prefix_of_mem_findPaths {a b : Path × Document}
    (ha : a ∈ traversal.findPaths predicate document)
    (hb : b ∈ traversal.findPaths predicate document) (hne : a.1 ≠ b.1) : ¬ a.1 <+: b.1 := by
  intro hstart
  obtain ⟨hreached, hp, -⟩ := (mem_findPaths_iff_reachedAt hd).1 ha
  obtain ⟨-, -, hnone⟩ := (mem_findPaths_iff_reachedAt hd).1 hb
  have hno := hnone a.1 a.2 hstart hne hreached
  rw [hp] at hno
  cases hno

end

/-- The listing of a document does not depend on the order of the walk. -/
theorem listing_order (order : Order) (visit : Path → Document → Visit) (path : Path)
    (node : Document) :
    listing { traversal with order := order } visit path node =
      traversal.listing visit path node := by
  induction node using Document.induct_parts generalizing path with
  | step node ih =>
    by_cases h : traversal.enters visit path node
    · have h' : enters { traversal with order := order } visit path node := h
      rw [listing_of_enters h, listing_of_enters h', listings, listings]
      have hbelow : ∀ visited ∈ below path node,
          listing { traversal with order := order } visit visited.1 visited.2 =
            traversal.listing visit visited.1 visited.2 := by
        intro visited hm
        obtain ⟨child, hc, rfl⟩ := mem_below_iff.1 hm
        exact ih child.2 (List.mem_map_of_mem hc) (path ++ [child.1])
      rw [List.map_congr_left hbelow]
    · have h' : ¬ enters { traversal with order := order } visit path node := h
      rw [listing_of_not_enters h, listing_of_not_enters h']

/-- **The order of the walk matters to the order of the report only.** -/
theorem findPaths_order (order : Order) (document : Document) :
    (findPaths { traversal with order := order } predicate document).Perm
      (traversal.findPaths predicate document) := by
  have hwalk : ∀ traversal : Traversal,
      (traversal.walk (fun _ => searchVisit predicate) document).Perm
        (traversal.listing (fun _ => searchVisit predicate) [] document) :=
    fun _ => walk_perm (fun _ => searchVisit_ne_stop) document
  rw [findPaths_eq, findPaths_eq]
  apply List.Perm.filter
  refine (hwalk _).trans ?_
  rw [listing_order]
  exact (hwalk traversal).symm

theorem isEmpty_findPaths_order (order : Order) (document : Document) :
    (findPaths { traversal with order := order } predicate document).isEmpty =
      (traversal.findPaths predicate document).isEmpty := by
  have hlength : (findPaths { traversal with order := order } predicate document).length =
      (traversal.findPaths predicate document).length := (findPaths_order order document).length_eq
  rw [Bool.eq_iff_iff, List.isEmpty_iff_length_eq_zero, List.isEmpty_iff_length_eq_zero, hlength]

end Traversal

namespace Match.ValueMatcher

open Traversal

/-- A dictionary of reported values is empty exactly if nothing is reported. -/
theorem isEmpty_ofList {α : Type} {found : List (Path × α)} (h : (found.map Prod.fst).Nodup)
    (entry : α → Entry) :
    (PathDict.ofList (found.map fun m => (m.1, entry m.2))).entries.isEmpty = found.isEmpty := by
  have hpaths : ((found.map fun m => (m.1, entry m.2)).map Prod.fst).Nodup := by
    rw [List.map_map]
    exact h
  have hlength := (PathDict.ofList_perm hpaths).length_eq
  rw [List.length_map] at hlength
  rw [Bool.eq_iff_iff, List.isEmpty_iff_length_eq_zero, List.isEmpty_iff_length_eq_zero, hlength]

/-- **All kinds of answers of a search tell alike whether there is a match.** -/
theorem found_find (matcher : ValueMatcher) {document : Document}
    (hd : document.namesDistinct = true) (wanted : Wanted) (options : SearchOptions) :
    (matcher.find document wanted options).found =
      !(options.traversal.findPaths matcher.isMatch document).isEmpty := by
  -- all answers but the first are made of the paths that were found, which are all different
  cases wanted with
  | existence =>
      rw [Bool.eq_iff_iff, Bool.not_eq_true', ← Bool.not_eq_true, List.isEmpty_iff]
      exact contains_iff document
  | values =>
      rw [find, Findings.found]
      exact congrArg not (isEmpty_ofList (nodup_paths_findPaths hd) _)
  | reports shape =>
      rw [find, Findings.found, Bool.eq_iff_iff, Bool.not_eq_true', Bool.not_eq_true',
        List.isEmpty_eq_false_iff_exists_mem, List.isEmpty_eq_false_iff_exists_mem]
      simp only [List.mem_mergeSort, List.mem_map, topmost]
      constructor
      · rintro ⟨_, found, hm, -⟩
        exact ⟨found, hm⟩
      · rintro ⟨found, hm⟩
        exact ⟨_, found, hm, rfl⟩

end Match.ValueMatcher

namespace Traversal

open Match

/-- **A search reports exactly the topmost matches.** These are the reached nodes that satisfy the
predicate and have no reached node above them that does. Each is reported once, at a path that leads
every navigator to it; no reported path leads through another one; depth first and breadth first
report the same. The walk that ends at its first match finds one exactly if the report is not empty,
so a search for the existence, the values or reports on the matches tells the same in every
order. -/
theorem findPaths_topmost (traversal : Traversal) (predicate : Document → Bool)
    {document : Document} (hd : document.namesDistinct = true) :
    (∀ path node, (path, node) ∈ traversal.findPaths predicate document ↔
      traversal.ReachedAt document path node ∧ predicate node = true ∧
        ∀ above ancestor, above <+: path → above ≠ path →
          traversal.ReachedAt document above ancestor → predicate ancestor = false) ∧
    ((traversal.findPaths predicate document).map Prod.fst).Nodup ∧
    (∀ (navigator : Navigator), ∀ found ∈ traversal.findPaths predicate document,
      navigator.get document found.1 = .ok found.2) ∧
    (traversal.findPaths predicate document).Pairwise
      (fun a b => ¬ a.1 <+: b.1 ∧ ¬ b.1 <+: a.1) ∧
    (∀ order, (findPaths { traversal with order := order } predicate document).Perm
      (traversal.findPaths predicate document)) ∧
    (traversal.contains predicate document = true ↔
      traversal.findPaths predicate document ≠ []) ∧
    ∀ (matcher : ValueMatcher) (wanted : Wanted) (order : Order) (skipMissing : Bool),
      (matcher.find document wanted ⟨skipMissing, { traversal with order := order }⟩).found =
        traversal.contains matcher.isMatch document := by
  refine ⟨fun path node => mem_findPaths_iff_reachedAt hd, nodup_paths_findPaths hd, ?_, ?_,
    fun order => findPaths_order order document, contains_iff document, ?_⟩
  · intro navigator found hm
    exact Navigator.follow_of_nodeAt? found.1 (nodeAt?_of_mem_findPaths hd hm)
  · -- different topmost paths do not lead through each other
    have hdistinct : ((traversal.findPaths predicate document).map Prod.fst).Nodup :=
      nodup_paths_findPaths hd
    apply (List.pairwise_map.1 hdistinct).imp_of_mem
    intro a b ha hb hne
    exact ⟨not_prefix_of_mem_findPaths hd ha hb hne, not_prefix_of_mem_findPaths hd hb ha hne.symm⟩
  · intro matcher wanted order skipMissing
    rw [ValueMatcher.found_find matcher hd, isEmpty_findPaths_order, Bool.eq_iff_iff, contains_iff,
      Bool.not_eq_true', ← Bool.not_eq_true, List.isEmpty_iff]

/-- A search for sequences reports the one below `a` and not the one inside it. -/
theorem findPaths_topmost_nested :
    let traversal : Traversal := ⟨.breadthFirst, [], [], 10, 10⟩
    let predicate : Document → Bool := fun node => decide (node.kind = .sequence)
    let inner : Document := .sequence [.int 1]
    let outer : Document := .sequence [inner]
    let document : Document := .mapping [("a", outer), ("b", .set [])]
    document.namesDistinct = true ∧
      ([.key "a"], outer) ∈ traversal.findPaths predicate document ∧
      ([.key "a", .index 0], inner) ∉ traversal.findPaths predicate document ∧
      traversal.contains predicate document = true := by
  intro traversal predicate inner outer document
  have hd : document.namesDistinct = true := by decide
  obtain ⟨hmem, -, -, -, -, hcontains, -⟩ := findPaths_topmost traversal predicate hd
  -- only the root lies above the entry
  have hroot : ∀ {above : Path} {token : Token}, above ++ [token] <+: [.key "a"] → above = [] := by
    intro above token hstart
    have hlength := hstart.length_le
    rw [List.length_append, List.length_singleton, List.length_singleton] at hlength
    exact List.length_eq_zero_iff.1 (by omega)
  have hreached : traversal.ReachedAt document [.key "a"] outer := by
    refine ⟨rfl, ?_⟩
    intro above token hstart
    rw [hroot hstart]
    exact ⟨document, rfl, rfl⟩
  have hfound : ([.key "a"], outer) ∈ traversal.findPaths predicate document := by
    apply (hmem [.key "a"] outer).2
    refine ⟨hreached, rfl, ?_⟩
    intro above ancestor hstart hne hancestor
    obtain ⟨token, htoken⟩ := exists_token_of_prefix hstart hne
    rw [hroot htoken] at hancestor
    cases hancestor.1
    rfl
  refine ⟨hd, hfound, ?_, hcontains.2 (List.ne_nil_of_mem hfound)⟩
  intro hinner
  obtain ⟨-, -, hnone⟩ := (hmem [.key "a", .index 0] inner).1 hinner
  have hno := hnone [.key "a"] outer ⟨[.index 0], rfl⟩ (by simp) hreached
  cases hno

end Traversal

end PathDoc

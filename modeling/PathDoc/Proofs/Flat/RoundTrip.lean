import Mathlib.Data.List.Perm.Basic
import PathDoc.Proofs.Document.Distinct
import PathDoc.Proofs.Document.Reordering
import PathDoc.Proofs.Flat.Contents

/-!
# Flattening and unflattening

The tree of the contents of a node is a leaf with the node if the node is listed whole, otherwise it
holds the marker and the trees of the children (`tree_of_whole`, `tree_of_expanded`). Building goes
the same way back: whatever is built from the children goes to the container of the node's marker
(`assemble_values`), so by induction the tree of a node builds the node up to the order of mapping
entries (`build_tree`). A document is therefore restored from its dictionary (`unflatten_flatten`).
-/

set_option autoImplicit false

namespace PathDoc

open Document (Reordered)

namespace TokenTree

/-! ## Building from children -/

/-- A child of a tree at a path and the value that is built from it. -/
def Built (path : Path) (child : Token × TokenTree) (value : Token × Document) : Prop :=
  child.1 = value.1 ∧ child.2.build (path ++ [child.1]) = .ok value.2

theorem buildChildren_of_built {path : Path} {children : List (Token × TokenTree)}
    {values : List (Token × Document)} (h : List.Forall₂ (Built path) children values) :
    buildChildren path children = .ok values := by
  induction h with
  | nil => rfl
  | @cons child value children values hb _ ih =>
      obtain ⟨token, tree⟩ := child
      obtain ⟨htoken, hbuild⟩ := hb
      rw [buildChildren, hbuild, ih]
      exact congrArg (fun t => Except.ok ((t, value.2) :: values)) htoken

theorem forall₂_of_buildChildren {path : Path} {children : List (Token × TokenTree)}
    {values : List (Token × Document)} (h : buildChildren path children = .ok values) :
    List.Forall₂ (Built path) children values := by
  induction children generalizing values with
  | nil =>
      cases h
      exact List.Forall₂.nil
  | cons child rest ih =>
      obtain ⟨token, tree⟩ := child
      rw [buildChildren] at h
      -- the first child that fails would fail them all
      cases hb : build (path ++ [token]) tree with
      | error e =>
          rw [hb] at h
          cases h
      | ok value =>
          rw [hb] at h
          cases hr : buildChildren path rest with
          | error e =>
              rw [hr] at h
              cases h
          | ok others =>
              rw [hr] at h
              cases h
              exact List.Forall₂.cons ⟨rfl, hb⟩ (ih hr)

/-- The marker under which a node without a value is built: its own, or the one its children show.
-/
def Marked (path : Path) (own : Option Entry) (tokens : List Token) (marker : Marker) : Prop :=
  own = some (.marker marker) ∨ (own = none ∧ markerFor path none tokens = .ok marker)

/-- **A node is built from its value or from its children.** -/
theorem build_cases {path : Path} {own : Option Entry} {children : List (Token × TokenTree)}
    {document : Document} (h : (node own children).build path = .ok document) :
    (own = some (.value document) ∧ children = []) ∨
      ∃ marker values, Marked path own (children.map Prod.fst) marker ∧
        List.Forall₂ (Built path) children values ∧
        assemble path values marker = .ok document := by
  -- under a marker the children are built first and then assembled
  have hchildren : ∀ marker,
      ((buildChildren path children).bind fun values => assemble path values marker) =
        .ok document →
      ∃ values, List.Forall₂ (Built path) children values ∧
        assemble path values marker = .ok document := by
    intro marker hb
    cases hc : buildChildren path children with
    | error e =>
        rw [hc] at hb
        cases hb
    | ok values =>
        rw [hc] at hb
        exact ⟨values, forall₂_of_buildChildren hc, hb⟩
  cases own with
  | none =>
      rw [build] at h
      cases hm : markerFor path none (children.map Prod.fst) with
      | error e =>
          rw [hm] at h
          cases h
      | ok marker =>
          rw [hm] at h
          obtain ⟨values, hv, ha⟩ := hchildren marker h
          exact Or.inr ⟨marker, values, Or.inr ⟨rfl, hm⟩, hv, ha⟩
  | some entry =>
      cases entry with
      | value value =>
          rw [build] at h
          split at h
          · rename_i he
            cases h
            exact Or.inl ⟨rfl, List.isEmpty_iff.1 he⟩
          · cases h
      | marker marker =>
          rw [build] at h
          obtain ⟨values, hv, ha⟩ := hchildren marker h
          exact Or.inr ⟨marker, values, Or.inl rfl, hv, ha⟩

/-- Children whose positions run without a gap are numbered items. -/
theorem positions_of_positional {path : Path} {start : Nat} {values : List (Token × Document)}
    {items : List Document} (h : positional path start values = .ok items) :
    values = Document.positions start items := by
  induction values generalizing start items with
  | nil =>
      cases h
      rfl
  | cons child rest ih =>
      obtain ⟨token, value⟩ := child
      rw [positional] at h
      split at h
      · rename_i ht
        -- the token has to be the next position
        cases hr : positional path (start + 1) rest with
        | error e =>
            rw [hr] at h
            cases h
        | ok others =>
            rw [hr] at h
            cases h
            rw [ht, ih hr]
            rfl
      · cases h

/-- **What is assembled is a mapping of all children or has them as its items.** -/
theorem assemble_cases {path : Path} {values : List (Token × Document)} {marker : Marker}
    {document : Document} (h : assemble path values marker = .ok document) :
    (marker = .mapping ∧ document = .ofPairs (values.map fun child => (child.1.text, child.2))) ∨
      ∃ items, values = Document.positions 0 items ∧
        ((marker = .sequence ∧ document = .sequence items) ∨
          (marker = .set ∧ document = .ofMembers items) ∨
          ∃ name fields, marker = .record name fields ∧ items.length = fields.length ∧
            document = .record name (fields.zip items)) := by
  cases hp : positional path 0 values with
  | error e =>
      -- without numbered items only a mapping can be assembled
      cases marker with
      | mapping =>
          cases h
          exact Or.inl ⟨rfl, rfl⟩
      | _ =>
          rw [assemble, hp] at h
          cases h
  | ok items =>
      have hitems := positions_of_positional hp
      cases marker with
      | mapping =>
          cases h
          exact Or.inl ⟨rfl, rfl⟩
      | sequence =>
          rw [assemble, hp] at h
          cases h
          exact Or.inr ⟨items, hitems, Or.inl ⟨rfl, rfl⟩⟩
      | set =>
          rw [assemble, hp] at h
          cases h
          exact Or.inr ⟨items, hitems, Or.inr (Or.inl ⟨rfl, rfl⟩)⟩
      | record name fields =>
          rw [assemble, hp] at h
          change recordFields path name fields items = .ok document at h
          rw [recordFields] at h
          split at h
          · rename_i hlength
            cases h
            exact Or.inr ⟨items, hitems, Or.inr (Or.inr ⟨name, fields, rfl, hlength, rfl⟩)⟩
          · cases h

/-- The parts of an assembled container are among the values. -/
theorem mem_values_of_assemble {path : Path} {values : List (Token × Document)} {marker : Marker}
    {document part : Document} (h : assemble path values marker = .ok document)
    (hp : part ∈ document.parts) : part ∈ values.map Prod.snd := by
  rcases assemble_cases h with ⟨rfl, rfl⟩ | ⟨items, rfl, ⟨rfl, rfl⟩ | ⟨rfl, rfl⟩ |
      ⟨name, fields, rfl, hlength, rfl⟩⟩
  · rw [Document.ofPairs, Document.parts_mapping] at hp
    obtain ⟨entry, he, rfl⟩ := List.mem_map.1 hp
    obtain ⟨child, hc, rfl⟩ := List.mem_map.1 (Entries.mem_ofList he)
    exact List.mem_map_of_mem hc
  · rw [Document.positions_values]
    rwa [Document.parts_sequence] at hp
  · rw [Document.positions_values]
    rw [Document.ofMembers, Document.parts_set] at hp
    exact Document.mem_of_mem_distinct hp
  · rw [Document.positions_values]
    rw [Document.parts_record] at hp
    obtain ⟨field, hf, rfl⟩ := List.mem_map.1 hp
    exact (List.of_mem_zip hf).2

/-- **What holds of an assembled container and everywhere in its children holds everywhere in it.**
-/
theorem everywhere_assemble {condition : Document → Bool} {path : Path}
    {values : List (Token × Document)} {marker : Marker} {document : Document}
    (h : assemble path values marker = .ok document) (hself : condition document = true)
    (hv : ∀ value ∈ values.map Prod.snd, value.everywhere condition = true) :
    document.everywhere condition = true :=
  Document.everywhere_iff.2 ⟨hself, fun part hp => hv part (mem_values_of_assemble h hp)⟩

theorem hasDistinctNames_assemble {path : Path} {values : List (Token × Document)}
    {marker : Marker} {document : Document} (h : assemble path values marker = .ok document) :
    document.hasDistinctNames = true := by
  rcases assemble_cases h with ⟨rfl, rfl⟩ | ⟨items, rfl, ⟨rfl, rfl⟩ | ⟨rfl, rfl⟩ |
      ⟨name, fields, rfl, hlength, rfl⟩⟩
  · exact decide_eq_true (Entries.nodup_ofList _)
  · rfl
  · rfl
  · rfl

/-- **An assembled container has distinct names if its children have.** -/
theorem namesDistinct_assemble {path : Path} {values : List (Token × Document)} {marker : Marker}
    {document : Document} (h : assemble path values marker = .ok document)
    (hv : ∀ value ∈ values.map Prod.snd, value.namesDistinct = true) :
    document.namesDistinct = true :=
  everywhere_assemble h (hasDistinctNames_assemble h) hv

/-- **Children are built in the order in which they are arranged.** -/
theorem exists_built_arrange {path : Path} {children : List (Token × TokenTree)}
    {values : List (Token × Document)} (hn : (children.map Prod.fst).Nodup)
    (h : List.Forall₂ (Built path) children values) :
    ∃ arranged, List.Forall₂ (Built path) (arrange children) arranged ∧ values.Perm arranged ∧
      (children.Pairwise (fun a b => compare a.1 b.1 = .lt) → arranged = values) := by
  -- children that are in order stay in order, others are permuted with what is built from them
  by_cases hs : children.Pairwise fun a b => compare a.1 b.1 = .lt
  · rw [arrange_sorted hs]
    exact ⟨values, h, List.Perm.refl values, fun _ => rfl⟩
  · obtain ⟨arranged, hb, hp⟩ := List.perm_comp_forall₂ (arrange_perm hn) h
    exact ⟨arranged, hb, hp.symm, fun hs' => absurd hs' hs⟩

/-- Children at consecutive positions are accepted. -/
theorem positional_of_tokens (path : Path) {start : Nat} {children : List (Token × Document)}
    {items : List Document}
    (h : children.map Prod.fst = (Document.positions start items).map Prod.fst) :
    positional path start children = .ok (children.map Prod.snd) := by
  induction children generalizing start items with
  | nil => rfl
  | cons child rest ih =>
      cases items with
      | nil => cases h
      | cons item items =>
          obtain ⟨token, value⟩ := child
          obtain ⟨htoken, hrest⟩ := List.cons.inj h
          rw [positional, if_pos htoken, ih hrest]
          rfl

/-- Children of numbered items, each with the value of its item. -/
theorem forall₂_positions {R : Document → Document → Prop} {start : Nat} {items : List Document}
    {values : List (Token × Document)}
    (h : List.Forall₂ (fun c v => c.1 = v.1 ∧ R c.2 v.2) (Document.positions start items) values)
    (path : Path) :
    positional path start values = .ok (values.map Prod.snd) ∧
      List.Forall₂ R items (values.map Prod.snd) := by
  have hfst : (Document.positions start items).map Prod.fst = values.map Prod.fst := by
    rw [← List.forall₂_eq_eq_eq, List.forall₂_map_left_iff, List.forall₂_map_right_iff]
    exact h.imp fun _ _ hcv => hcv.1
  refine ⟨positional_of_tokens path hfst.symm, ?_⟩
  rw [← Document.positions_values start items, List.forall₂_map_left_iff,
    List.forall₂_map_right_iff]
  exact h.imp fun _ _ hcv => hcv.2

/-! ## Markers -/

/-- The kind of a mapping or a sequence shows in the tokens of its children. -/
theorem markerFor_of_inferred {node : Document} (hi : FlattenOptions.isInferred node = true)
    {marker : Marker} (hk : Marker.ofDocument? node = some marker) {tokens : List Token}
    (hp : tokens.Perm (node.children.map Prod.fst)) (hne : tokens ≠ []) (path : Path) :
    markerFor path none tokens = .ok marker := by
  cases node with
  | mapping entries =>
      cases hk
      -- the tokens of a mapping are all names, those of a sequence all positions
      have hkey : ∀ token ∈ tokens, token.isIndex = false := by
        intro token ht
        have hm := hp.mem_iff.1 ht
        rw [Document.children, List.map_map, List.mem_map] at hm
        obtain ⟨entry, -, rfl⟩ := hm
        rfl
      have hindex : tokens.all Token.isIndex = false := by
        obtain ⟨token, rest, rfl⟩ := List.exists_cons_of_ne_nil hne
        rw [List.all_cons, hkey token List.mem_cons_self, Bool.false_and]
      have hname : tokens.all (fun token => !token.isIndex) = true := by
        rw [List.all_eq_true]
        exact fun token ht => by rw [hkey token ht, Bool.not_false]
      simp [markerFor, hindex, hname]
  | sequence items =>
      cases hk
      have hindex : tokens.all Token.isIndex = true := by
        rw [List.all_eq_true]
        intro token ht
        have hm := hp.mem_iff.1 ht
        rw [Document.children, Document.positions_tokens, List.mem_map] at hm
        obtain ⟨position, -, rfl⟩ := hm
        rfl
      simp [markerFor, hindex]
  | scalar value => cases hi
  | set members => cases hi
  | record name fields => cases hi

/-- A reordering of every child under its token. -/
abbrev Restored (child value : Token × Document) : Prop :=
  child.1 = value.1 ∧ Reordered child.2 value.2

/-- **The marker of a container and reorderings of its children make a reordering of it.** -/
theorem assemble_values {node : Document} (hd : node.namesDistinct = true)
    (hf : node.nanFree = true) (hm : node.membersDistinct = true) {marker : Marker}
    (hk : Marker.ofDocument? node = some marker) {values arranged : List (Token × Document)}
    (hv : List.Forall₂ Restored node.children values) (hp : values.Perm arranged)
    (ho : (node.children.Pairwise fun a b => compare a.1 b.1 = .lt) → arranged = values)
    (path : Path) : ∃ y, assemble path arranged marker = .ok y ∧ Reordered node y := by
  cases node with
  | scalar value => cases hk
  | mapping entries =>
      cases hk
      -- the entries come in the order of their names, which need not be the order of the mapping
      let pairs := values.map fun v => (v.1.text, v.2)
      have hentries : List.Forall₂ (fun e p => e.1 = p.1 ∧ Reordered e.2 p.2) entries pairs := by
        rw [List.forall₂_map_right_iff]
        rw [Document.children, List.forall₂_map_left_iff] at hv
        exact hv.imp fun e v hev => ⟨by rw [← hev.1]; rfl, hev.2⟩
      obtain ⟨hnames, hvalues⟩ := Document.forall₂_entries_iff.1 hentries
      have horder : pairs.Perm (arranged.map fun v => (v.1.text, v.2)) := hp.map _
      simp only [Document.everywhere_mapping, Document.hasDistinctNames, decide_eq_true_eq] at hd
      have hnodup : (Entries.names (arranged.map fun v => (v.1.text, v.2))).Nodup := by
        rw [Entries.names, ← (horder.map Prod.fst).nodup_iff, ← hnames]
        exact hd.1
      refine ⟨_, rfl, ?_⟩
      rw [Document.ofPairs, Entries.ofList_of_nodup hnodup]
      exact Reordered.mapping hnames hvalues horder
  | sequence items =>
      cases hk
      obtain rfl := ho (Document.positions_sorted 0 items)
      obtain ⟨hpos, hitems⟩ := forall₂_positions hv path
      exact ⟨_, by rw [assemble, hpos]; rfl, Reordered.sequence hitems⟩
  | set members =>
      cases hk
      obtain rfl := ho (Document.positions_sorted 0 members)
      obtain ⟨hpos, hmembers⟩ := forall₂_positions hv path
      simp only [Document.everywhere_set, Document.hasDistinctMembers,
        decide_eq_true_eq] at hd hf hm
      have hdistinct := Reordered.distinct_members hmembers hd.2 hf.2 hm.1
      refine ⟨_, by rw [assemble, hpos]; rfl, ?_⟩
      rw [Document.ofMembers, Document.distinct_of_pairwise hdistinct]
      exact Reordered.set hmembers
  | record name fields =>
      cases hk
      obtain rfl := ho (Document.positions_sorted 0 _)
      obtain ⟨hpos, hvalues⟩ := forall₂_positions hv path
      have hlength : (arranged.map Prod.snd).length = (fields.map Prod.fst).length := by
        rw [← hvalues.length_eq, List.length_map, List.length_map]
      refine ⟨.record name ((fields.map Prod.fst).zip (arranged.map Prod.snd)), ?_, ?_⟩
      · rw [assemble, hpos]
        exact if_pos hlength
      · refine Reordered.record ?_ ?_
        · rw [List.map_fst_zip hlength.ge]
        · rw [List.map_snd_zip hlength.le]
          exact hvalues

end TokenTree

namespace PathDict

/-- A dictionary that is unflattened is empty or built from its tree. -/
theorem unflatten_cases {dict : PathDict} {document : Document}
    (h : dict.unflatten = .ok document) :
    (dict.entries = [] ∧ document = .mapping []) ∨
      (TokenTree.ofDict dict).build [] = .ok document := by
  unfold unflatten at h
  split at h
  · cases h
  · split at h
    · rename_i he
      cases h
      exact Or.inl ⟨List.isEmpty_iff.1 he, rfl⟩
    · exact Or.inr h

end PathDict

namespace FlattenOptions

variable {options : FlattenOptions}

/-! ## The tree of a node -/

/-- The tree of the contents of a node. -/
def tree (options : FlattenOptions) (path : Path) (node : Document) : TokenTree :=
  TokenTree.enter (options.contents path node) TokenTree.empty

/-- The trees of the children of a node. -/
def childTrees (options : FlattenOptions) (path : Path) (node : Document) :
    List (Token × TokenTree) :=
  node.children.map fun child => (child.1, options.tree (path ++ [child.1]) child.2)

theorem childTrees_tokens (options : FlattenOptions) (path : Path) (node : Document) :
    (options.childTrees path node).map Prod.fst = node.children.map Prod.fst := by
  rw [childTrees, List.map_map]
  rfl

theorem tree_of_whole {path : Path} {node : Document}
    (h : options.listsWhole path.length node = true) :
    options.tree path node = .node (some (.value node)) [] := by
  rw [tree, contents_of_whole h]
  rfl

/-- **The tree of an expanded node has the trees of its children**, also if every entry is changed
before it is entered. -/
theorem enter_of_expanded (f : Entry → Entry) {path : Path} {node : Document}
    (hd : node.namesDistinct = true) (h : options.listsWhole path.length node = false) :
    TokenTree.enter ((options.contents path node).map fun e => (e.1, f e.2)) TokenTree.empty =
      .node ((options.entry? path node).map f)
        (TokenTree.arrange (node.children.map fun child =>
          (child.1, TokenTree.enter
            ((options.contents (path ++ [child.1]) child.2).map fun e => (e.1, f e.2))
            TokenTree.empty))) := by
  let changed := (options.groups path node).map fun g => (g.1, g.2.map fun e => (e.1, f e.2))
  -- the entries are the node's own one and then those of the children, child by child
  have hcontents : (options.contents path node).map (fun e => (e.1, f e.2)) =
      ((options.entry? path node).map f).toList.map (fun entry => ([], entry)) ++
        TokenTree.ungroup changed := by
    rw [contents_of_expanded h, List.map_append, TokenTree.ungroup, TokenTree.ungroup,
      List.map_flatMap, List.flatMap_map]
    congr 1
    · cases options.entry? path node <;> rfl
    · simp only [List.map_map]
      rfl
  have hne : ∀ g ∈ changed, g.2 ≠ [] := by
    intro g hg
    obtain ⟨group, hgroup, rfl⟩ := List.mem_map.1 hg
    exact fun hnil => groups_ne_nil path node group hgroup (List.map_eq_nil_iff.1 hnil)
  -- distinct tokens, so each group becomes one tree
  have htokens : (changed.map Prod.fst).Nodup := by
    rw [List.map_map]
    change ((options.groups path node).map Prod.fst).Nodup
    rw [groups_tokens]
    exact Document.children_tokens_nodup hd
  have hown : TokenTree.enter
      (((options.entry? path node).map f).toList.map fun entry => ([], entry)) TokenTree.empty =
        .node ((options.entry? path node).map f) [] := by
    cases options.entry? path node <;> rfl
  rw [hcontents, TokenTree.enter_append, hown, TokenTree.enter_groups hne htokens, TokenTree.trees,
    List.map_map, groups, List.map_map]
  rfl

theorem tree_of_expanded {path : Path} {node : Document} (hd : node.namesDistinct = true)
    (h : options.listsWhole path.length node = false) :
    options.tree path node =
      .node (options.entry? path node) (TokenTree.arrange (options.childTrees path node)) := by
  have hid : ∀ entries : List (Path × Entry), entries.map (fun e => (e.1, e.2)) = entries :=
    fun entries => List.map_id entries
  have henter := enter_of_expanded id hd h
  simp only [id_eq, Option.map_id_fun, hid] at henter
  exact henter

/-- **An expanded node is built by assembling its children under its own marker.** -/
theorem build_tree_of_expanded {path : Path} {node : Document} (hd : node.namesDistinct = true)
    (h : options.listsWhole path.length node = false)
    (hx : options.annotateAll = true ∨ isInferred node = true) :
    ∃ marker, Marker.ofDocument? node = some marker ∧
      ∀ arranged, List.Forall₂ (TokenTree.Built path)
        (TokenTree.arrange (options.childTrees path node)) arranged →
      (options.tree path node).build path = TokenTree.assemble path arranged marker := by
  obtain ⟨marker, hk⟩ : ∃ marker, Marker.ofDocument? node = some marker := by
    cases node with
    | scalar value => exact absurd rfl (children_ne_nil h)
    | _ => exact ⟨_, rfl⟩
  refine ⟨marker, hk, fun arranged hb => ?_⟩
  rw [tree_of_expanded hd h, entry?, h, if_neg Bool.false_ne_true, hk]
  -- with its marker, or without one if its kind shows in the tokens of its children
  split
  · rw [Option.map_some, TokenTree.build, TokenTree.buildChildren_of_built hb]
    rfl
  · rename_i hnone
    have hi : isInferred node = true := by
      rcases hx with hx | hx
      · rw [hx, Bool.true_and, Bool.not_eq_true, Bool.or_eq_false_iff] at hnone
        simpa using hnone.2
      · exact hx
    have hperm := (TokenTree.arrange_perm
      (childTrees_tokens options path node ▸ Document.children_tokens_nodup hd)).map
        Prod.fst
    rw [childTrees_tokens] at hperm
    have hne : (TokenTree.arrange (options.childTrees path node)).map Prod.fst ≠ [] := by
      intro hnil
      rw [hnil] at hperm
      exact children_ne_nil h (List.map_eq_nil_iff.1 hperm.nil_eq.symm)
    rw [TokenTree.build, TokenTree.markerFor_of_inferred hi hk hperm hne,
      TokenTree.buildChildren_of_built hb]
    rfl

/-- **The tree of a node builds the node, up to the order of mapping entries.** -/
theorem build_tree {path : Path} {node : Document} (hd : node.namesDistinct = true)
    (hf : node.nanFree = true) (hm : node.membersDistinct = true)
    (hx : options.annotateAll = true ∨ ∀ v ∈ options.visited path node,
      options.listsWhole v.1.length v.2 = false → isInferred v.2 = true) :
    ∃ y, (options.tree path node).build path = .ok y ∧ Reordered node y := by
  induction hn : node.nodeCount using Nat.strongRecOn generalizing path node with
  | _ n ih =>
    subst hn
    cases h : options.listsWhole path.length node with
    | true =>
        rw [tree_of_whole h]
        exact ⟨node, rfl, Reordered.refl node⟩
    | false =>
        have hself : options.annotateAll = true ∨ isInferred node = true :=
          hx.imp_right fun hx => hx _ (Traversal.self_mem_listing path node) h
        obtain ⟨marker, hk, hbuild⟩ := build_tree_of_expanded hd h hself
        have hchild : ∀ child ∈ node.children, ∃ y,
            (options.tree (path ++ [child.1]) child.2).build (path ++ [child.1]) = .ok y ∧
              Reordered child.2 y := by
          intro child hc
          refine ih _ (Document.nodeCount_lt_of_mem_children hc)
            (Document.everywhere_of_mem_children hd hc) (Document.everywhere_of_mem_children hf hc)
            (Document.everywhere_of_mem_children hm hc) (hx.imp_right fun hx v hv => ?_) rfl
          exact hx v (Traversal.mem_listing_iff.2 (Or.inr ⟨enters_iff.2 h, child, hc, hv⟩))
        -- the children build reorderings of themselves, in the order in which the tree keeps them
        choose! rebuilt hrebuilt using hchild
        let values := node.children.map fun child => (child.1, rebuilt child)
        have hbuilt : List.Forall₂ (TokenTree.Built path) (options.childTrees path node) values := by
          rw [childTrees, List.forall₂_map_left_iff, List.forall₂_map_right_iff, List.forall₂_same]
          intro child hc
          exact ⟨rfl, (hrebuilt child hc).1⟩
        have hrestored : List.Forall₂ TokenTree.Restored node.children values := by
          rw [List.forall₂_map_right_iff, List.forall₂_same]
          intro child hc
          exact ⟨rfl, (hrebuilt child hc).2⟩
        have hnodup : ((options.childTrees path node).map Prod.fst).Nodup :=
          childTrees_tokens options path node ▸ Document.children_tokens_nodup hd
        obtain ⟨arranged, hb, hp, ho⟩ := TokenTree.exists_built_arrange hnodup hbuilt
        rw [hbuild arranged hb]
        refine TokenTree.assemble_values hd hf hm hk hrestored hp (fun hs => ho ?_) path
        exact List.pairwise_map.2 hs

/-! ## Documents -/

/-- No dictionary of a document has a value at the root next to other paths. -/
theorem hasRootValue_flatten {document : Document} (hd : document.namesDistinct = true) :
    (document.flatten options).hasRootValue = false := by
  have hp := flatten_perm options hd
  rw [PathDict.hasRootValue, Bool.and_eq_false_imp]
  intro hsize
  -- a document that is listed whole is the only entry, so this one is expanded
  have hexpanded : options.listsWhole 0 document = false := by
    rw [← Bool.not_eq_true]
    intro h
    have hl := hp.length_eq
    have hwhole : options.contents [] document = [([], .value document)] := contents_of_whole h
    rw [hwhole] at hl
    rw [PathDict.size, hl] at hsize
    exact absurd (of_decide_eq_true hsize) (Nat.lt_irrefl 1)
  split
  · rename_i value hget
    rw [PathDict.get?, List.lookup_eq_some_iff] at hget
    obtain ⟨before, after, hsplit, -⟩ := hget
    have hm : (([], .value value) : Path × Entry) ∈ options.contents [] document :=
      hp.mem_iff.1 (hsplit ▸ List.mem_append_right _ List.mem_cons_self)
    have hcontents := @contents_of_expanded options [] document hexpanded
    rw [hcontents, List.mem_append] at hm
    rcases hm with hm | hm
    · obtain ⟨entry, hentry, he⟩ := List.mem_map.1 hm
      have hvalue : options.entry? [] document = some (.value value) := by
        rw [Option.mem_toList] at hentry
        rw [hentry]
        exact congrArg some (congrArg Prod.snd he)
      have hwhole := (entry?_eq_value_iff.1 hvalue).1
      rw [List.length_nil, hexpanded] at hwhole
      cases hwhole
    · obtain ⟨token, child, below, hcons, -⟩ := mem_ungroup_groups_iff.1 hm
      cases hcons
  · rfl

/-- The dictionary of a document is built from the tree of the document. -/
theorem unflatten_flatten_eq_build {document : Document} (hd : document.namesDistinct = true) :
    (document.flatten options).unflatten = (options.tree [] document).build [] := by
  have hne : (document.flatten options).entries.isEmpty = false := by
    rw [List.isEmpty_eq_false_iff]
    intro hnil
    have hp := flatten_perm options hd
    rw [hnil] at hp
    exact contents_ne_nil [] document hp.nil_eq.symm
  rw [PathDict.unflatten, hasRootValue_flatten hd, if_neg Bool.false_ne_true, hne,
    if_neg Bool.false_ne_true, ofDict_flatten hd]
  rfl

/-- **A flattened document is restored.** The names of mappings are distinct by construction. A
document without `NaN` and without equal members in a set is built back from its dictionary, equal
and with nothing but mapping entries in another order, if expanded containers have markers or need
none. -/
theorem unflatten_flatten (options : FlattenOptions) {x : Document} (hd : x.namesDistinct = true)
    (hf : x.nanFree = true) (hm : x.membersDistinct = true)
    (hx : options.annotateAll = true ∨ ∀ v ∈ options.expanded x, isInferred v.2 = true) :
    ∃ y, (x.flatten options).unflatten = .ok y ∧ (y == x) = true ∧ Reordered x y := by
  -- the containers that are expanded are the visited nodes that are not listed whole
  have hvisited : options.annotateAll = true ∨ ∀ v ∈ options.visited [] x,
      options.listsWhole v.1.length v.2 = false → isInferred v.2 = true := by
    refine hx.imp_right fun hx v hv hw => hx v (List.mem_filter.2 ⟨?_, ?_⟩)
    · rw [Traversal.walk_depthFirst rfl visit_ne_stop]
      exact hv
    · rw [hw, Bool.not_false]
  obtain ⟨y, hy, hr⟩ := build_tree hd hf hm hvisited
  refine ⟨y, (unflatten_flatten_eq_build hd).trans hy, ?_, hr⟩
  rw [← Document.beq_comm hd (hr.namesDistinct hd)]
  exact hr.beq hd hf

/-- A mapping with a set and a record, to be flattened. -/
def inventory : Document :=
  .mapping [("tags", .set [.string "b", .int 1]), ("10", .sequence []),
    ("box", .record "Box" [("size", .int 3), ("items", .sequence [.null, .bool true])])]

/-- All containers of the inventory down to depth two are expanded and restored. -/
theorem unflatten_flatten_inventory :
    ∃ y, (inventory.flatten ⟨true, 2, 5⟩).unflatten = .ok y ∧ (y == inventory) = true ∧
      Reordered inventory y :=
  unflatten_flatten ⟨true, 2, 5⟩ (by decide) (by decide) (by decide) (Or.inl rfl)

end FlattenOptions

end PathDoc

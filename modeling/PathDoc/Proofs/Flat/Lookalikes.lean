import PathDoc.Proofs.Document.Counting
import PathDoc.Proofs.Flat.Encoding
import PathDoc.Proofs.Flat.RoundTrip
import PathDoc.Step.Basic

/-!
# Flattening through an encoding

Flattening lists a lookalike as a value only if it lists it whole. If there is none, the dictionary
of a document is the same after its encoding was decoded (`ofDocument_flatten`). Otherwise there is
a marker in the place of every lookalike, and what is built under it is empty, so the document that
is built lacks a part for every lookalike (`build_readBack`) and does not equal the first one. In a
pipeline, flattening and unflattening therefore restore exactly the documents without lookalikes
(`run_flatten_unflatten_iff`).
-/

set_option autoImplicit false

namespace PathDoc

namespace Document

/-- Whether the positions of the children of a node are words. -/
def hasWordPositions (node : Document) : Bool :=
  node.children.all fun child => child.1.inRange

/-- A mapping that is taken for a marker is not empty. -/
theorem two_le_nodeCount {document : Document} (h : document.encodesMarker = true) :
    2 ≤ document.nodeCount := by
  cases document with
  | mapping entries =>
      cases entries with
      | nil => cases h
      | cons entry rest =>
          obtain ⟨name, value⟩ := entry
          have hpos : 1 ≤ value.nodeCount := by
            rw [nodeCount_children]
            exact Nat.le_add_right 1 _
          rw [nodeCount, countEntries]
          omega
  | _ => cases h

end Document

namespace TokenTree

/-! ## Parts of what is built -/

/-- **An assembled container has one part more than its children at most.** -/
theorem nodeCount_assemble_le {path : Path} {values : List (Token × Document)} {marker : Marker}
    {document : Document} (h : assemble path values marker = .ok document) :
    document.nodeCount ≤ 1 + Document.countItems (values.map Prod.snd) := by
  rcases assemble_cases h with ⟨rfl, rfl⟩ | ⟨items, rfl, ⟨rfl, rfl⟩ | ⟨rfl, rfl⟩ |
      ⟨name, fields, rfl, hlength, rfl⟩⟩
  · -- children whose tokens have the same text are one entry
    have hle := Document.countEntries_ofList_le (values.map fun child => (child.1.text, child.2))
    rw [← Document.countItems_values (values.map fun child => (child.1.text, child.2)),
      List.map_map] at hle
    exact Nat.add_le_add_left hle 1
  · rw [Document.positions_values]
    exact Nat.le_refl _
  · -- a set leaves out the members that equal an earlier one
    rw [Document.positions_values]
    exact Nat.add_le_add_left (Document.countItems_distinct_le items) 1
  · rw [Document.positions_values, Document.nodeCount, ← Document.countItems_values,
      List.map_snd_zip hlength.le]

end TokenTree

namespace FlattenOptions

variable {options : FlattenOptions}

/-! ## Lookalikes -/

/-- How many mappings that are taken for markers flattening lists whole, from a node on. -/
def lookalikes (options : FlattenOptions) (path : Path) (node : Document) : Nat :=
  (options.visited path node).countP fun v =>
    options.listsWhole v.1.length v.2 && v.2.encodesMarker

theorem lookalikes_of_whole {path : Path} {node : Document}
    (h : options.listsWhole path.length node = true) :
    options.lookalikes path node = if node.encodesMarker then 1 else 0 := by
  rw [lookalikes, visited_of_whole h, List.countP_singleton, h, Bool.true_and]

theorem lookalikes_of_expanded {path : Path} {node : Document}
    (h : options.listsWhole path.length node = false) :
    options.lookalikes path node =
      (node.children.map fun child => options.lookalikes (path ++ [child.1]) child.2).sum := by
  rw [lookalikes, visited_of_expanded h, List.countP_cons_of_neg, Traversal.listings,
    List.countP_flatten, Traversal.below, List.map_map, List.map_map]
  · rfl
  · simp [h]

/-- The tree of what the entries of a node are read back as. -/
def readBackTree (options : FlattenOptions) (path : Path) (node : Document) : TokenTree :=
  TokenTree.enter ((options.contents path node).map fun e => (e.1, e.2.readBack)) TokenTree.empty

/-- What children lose is lost to their container. -/
theorem countItems_add_le (lost : Token × Document → Nat)
    {children values : List (Token × Document)}
    (h : List.Forall₂ (fun child value => value.2.namesDistinct = true ∧
      value.2.nodeCount + lost child ≤ child.2.nodeCount) children values) :
    (∀ value ∈ values.map Prod.snd, value.namesDistinct = true) ∧
      Document.countItems (values.map Prod.snd) + (children.map lost).sum ≤
        Document.countItems (children.map Prod.snd) := by
  induction h with
  | nil => exact ⟨fun _ hv => absurd hv List.not_mem_nil, Nat.le_refl _⟩
  | cons hfirst _ ih =>
      refine ⟨List.forall_mem_cons.2 ⟨hfirst.1, ih.1⟩, ?_⟩
      have hle := ih.2
      simp only [List.map_cons, List.sum_cons, Document.countItems]
      omega

/-- What is built in the place of a node that is listed whole. -/
theorem build_readBack_of_whole {path : Path} {node document : Document}
    (hd : node.namesDistinct = true)
    (h : TokenTree.build path (.node (some (Entry.value node).readBack) []) = .ok document) :
    document.namesDistinct = true ∧
      document.nodeCount + (if node.encodesMarker then 1 else 0) ≤ node.nodeCount := by
  cases hm : node.encodesMarker with
  | false =>
      rw [Entry.readBack, hm, if_neg Bool.false_ne_true] at h
      cases h
      exact ⟨hd, Nat.le_refl _⟩
  | true =>
      rw [Entry.readBack, hm, if_pos rfl] at h
      -- a marker without children makes an empty container
      rcases TokenTree.build_cases h with ⟨hvalue, -⟩ | ⟨marker, values, -, hbuilt, hassemble⟩
      · cases hvalue
      · cases hbuilt
        have hcount := TokenTree.nodeCount_assemble_le hassemble
        have hnode := Document.two_le_nodeCount hm
        refine ⟨TokenTree.namesDistinct_assemble hassemble fun _ hv => ?_, ?_⟩
        · exact absurd hv List.not_mem_nil
        · rw [if_pos rfl]
          change document.nodeCount ≤ 1 at hcount
          omega

/-- **What is built from the entries read back lacks a part for every lookalike.** -/
theorem build_readBack {path : Path} {node document : Document} (hd : node.namesDistinct = true)
    (h : (options.readBackTree path node).build path = .ok document) :
    document.namesDistinct = true ∧
      document.nodeCount + options.lookalikes path node ≤ node.nodeCount := by
  -- on the number of parts, since the children of a node are a list made from it
  induction hn : node.nodeCount using Nat.strongRecOn generalizing path node document with
  | _ n ih =>
    subst hn
    cases hw : options.listsWhole path.length node with
    | true =>
        rw [readBackTree, contents_of_whole hw] at h
        rw [lookalikes_of_whole hw]
        exact build_readBack_of_whole hd h
    | false =>
        rw [readBackTree, enter_of_expanded Entry.readBack hd hw] at h
        rw [lookalikes_of_expanded hw]
        have htokens : ((node.children.map fun child =>
            (child.1, options.readBackTree (path ++ [child.1]) child.2)).map Prod.fst).Nodup := by
          rw [List.map_map]
          exact Document.children_tokens_nodup hd
        have hperm := TokenTree.arrange_perm htokens
        rcases TokenTree.build_cases h with ⟨-, hnil⟩ | ⟨marker, values, -, hbuilt, hassemble⟩
        · -- a tree without children would come from a node without children
          have hempty := List.perm_nil.1 (hnil ▸ hperm.symm)
          exact absurd (List.map_eq_nil_iff.1 hempty) (children_ne_nil hw)
        · -- the children are built in another order, which does not matter to their parts
          obtain ⟨ordered, hordered, horder⟩ := List.perm_comp_forall₂ hperm.symm hbuilt
          rw [List.forall₂_map_left_iff] at hordered
          have hchildren := countItems_add_le
              (fun child => options.lookalikes (path ++ [child.1]) child.2) <|
            Document.forall₂_imp_mem hordered fun child hc value _ hb =>
              ih _ (Document.nodeCount_lt_of_mem_children hc)
                (Document.everywhere_of_mem_children hd hc) hb.2 rfl
          have hcount := TokenTree.nodeCount_assemble_le hassemble
          rw [Document.countItems_perm (horder.map Prod.snd).symm] at hcount
          refine ⟨TokenTree.namesDistinct_assemble hassemble fun value hv => ?_, ?_⟩
          · exact hchildren.1 value ((horder.map Prod.snd).mem_iff.2 hv)
          · rw [Document.nodeCount_children node]
            have hle := hchildren.2
            omega

/-! ## Entries of flattened documents -/

/-- Flattening visits paths of words only. -/
theorem inRange_of_visited {path : Path} {node : Document}
    (hw : node.everywhere Document.hasWordPositions = true) (hp : path.inRange = true)
    {v : Path × Document} (hv : v ∈ options.visited path node) : v.1.inRange = true := by
  induction hn : node.nodeCount using Nat.strongRecOn generalizing path node with
  | _ n ih =>
    subst hn
    rcases Traversal.mem_listing_iff.1 hv with rfl | ⟨-, child, hc, hv⟩
    · exact hp
    · -- the path of a child has one token more, a word like all tokens of children
      have hchild : child.1.inRange = true :=
        List.all_eq_true.1 (Document.everywhere_iff.1 hw).1 child hc
      have hbelow : Path.inRange (path ++ [child.1]) = true := by
        rw [Path.inRange, List.all_append, Bool.and_eq_true]
        exact ⟨hp, by simpa using hchild⟩
      exact ih _ (Document.nodeCount_lt_of_mem_children hc)
        (Document.everywhere_of_mem_children hw hc) hbelow hv rfl

theorem inRange_of_mem_flatten {document : Document} (hd : document.namesDistinct = true)
    (hw : document.everywhere Document.hasWordPositions = true) :
    ∀ e ∈ (document.flatten options).entries, e.1.inRange = true := by
  intro e he
  obtain ⟨v, hv, hpath, -⟩ := (mem_flatten_iff hd).1 he
  rw [← hpath]
  exact inRange_of_visited hw rfl hv

/-- An entry is a lookalike only if its node was listed whole. -/
theorem isLookalike_of_entry? {path : Path} {node : Document} {entry : Entry}
    (h : options.entry? path node = some entry) (hl : entry.isLookalike = true) :
    options.listsWhole path.length node = true ∧ node.encodesMarker = true := by
  cases entry with
  | value value =>
      obtain ⟨hw, rfl⟩ := entry?_eq_value_iff.1 h
      exact ⟨hw, hl⟩
  | marker kind => cases hl

/-- **The dictionary of a document is read back if it lists no lookalike.** -/
theorem ofDocument_flatten {document : Document} (hd : document.namesDistinct = true)
    (hw : document.everywhere Document.hasWordPositions = true)
    (hl : ∀ v ∈ options.visited [] document, options.listsWhole v.1.length v.2 = true →
      v.2.encodesMarker = false) :
    PathDict.ofDocument (document.flatten options).toDocument = .ok (document.flatten options) := by
  apply PathDict.ofDocument_toDocument (inRange_of_mem_flatten hd hw)
  intro e he
  obtain ⟨v, hv, -, hentry⟩ := (mem_flatten_iff hd).1 he
  rw [← Bool.not_eq_true]
  intro hlook
  obtain ⟨hwhole, hmarker⟩ := isLookalike_of_entry? hentry hlook
  rw [hl v hv hwhole] at hmarker
  cases hmarker

/-- **What is unflattened after the dictionary of a document went through its encoding was built
from the entries read back.** -/
theorem build_of_ofDocument_flatten {document built : Document}
    (hd : document.namesDistinct = true)
    (hw : document.everywhere Document.hasWordPositions = true) {dict : PathDict}
    (hdict : PathDict.ofDocument (document.flatten options).toDocument = .ok dict)
    (hbuilt : dict.unflatten = .ok built) :
    (options.readBackTree [] document).build [] = .ok built := by
  have hentries := PathDict.entries_of_ofDocument (inRange_of_mem_flatten hd hw) hdict
  have hperm : dict.entries.Perm
      ((options.contents [] document).map fun e => (e.1, e.2.readBack)) := by
    rw [hentries]
    exact (flatten_perm options hd).map _
  rcases PathDict.unflatten_cases hbuilt with ⟨hnil, -⟩ | hbuild
  · -- no document has a dictionary without entries
    rw [hnil] at hperm
    exact absurd (List.map_eq_nil_iff.1 hperm.nil_eq.symm) (contents_ne_nil [] document)
  · rw [readBackTree, ← TokenTree.enter_perm hperm (keys_nodup dict.sorted)]
    exact hbuild

end FlattenOptions

/-! ## Pipelines -/

namespace Step

variable {context : Context} {x y : Document}

/-- Only failures are turned into dropped documents. -/
theorem dropMissing_eq_some_iff {skip : Bool} {outcome : Outcome (Option Document)} :
    dropMissing skip outcome = .ok (some y) ↔ outcome = .ok (some y) := by
  cases outcome with
  | ok result => exact Iff.rfl
  | error error =>
      constructor
      · intro h
        rw [dropMissing] at h
        split at h <;> cases h
      · intro h
        cases h

theorem run_ofAction_eq_some_iff {operation : Action} :
    (ofAction operation).run context x = .ok (some y) ↔
      operation.run context context.config.skipMissing x = .ok (some y) :=
  dropMissing_eq_some_iff

/-- Steps one after the other keep a document if each of them does. -/
theorem runAll_cons_eq_some_iff {step : Step} {rest : List Step} :
    runAll context (step :: rest) x = .ok (some y) ↔
      ∃ next, step.run context x = .ok (some next) ∧ runAll context rest next = .ok (some y) := by
  rw [runAll]
  cases step.run context x with
  | error error => simp
  | ok result => cases result <;> simp

/-- **Unflattening after flattening decodes the encoding of the dictionary.** -/
theorem run_flatten_unflatten_eq_some_iff {annotateAll : Bool} :
    (chain [.ofAction (.flatten annotateAll), .ofAction .unflatten]).run context x =
        .ok (some y) ↔
      ∃ dict, PathDict.ofDocument
          (x.flatten (context.config.flatten annotateAll)).toDocument = .ok dict ∧
        dict.unflatten = .ok y := by
  have hunflatten : ∀ encoded built : Document,
      Action.run context context.config.skipMissing encoded .unflatten = .ok (some built) ↔
        ∃ dict, PathDict.ofDocument encoded = .ok dict ∧ dict.unflatten = .ok built := by
    intro encoded built
    rw [Action.run]
    cases PathDict.ofDocument encoded with
    | error error => simp [bind, Except.bind]
    | ok dict =>
        cases h : dict.unflatten <;> simp [bind, Except.bind, Except.map, h]
  have hflatten : ∀ encoded : Document,
      Action.run context context.config.skipMissing x (.flatten annotateAll) =
        .ok (some encoded) ↔
          encoded = (x.flatten (context.config.flatten annotateAll)).toDocument := by
    intro encoded
    rw [Action.run]
    simp [eq_comm]
  -- the chain keeps what its two operations keep
  rw [run]
  simp only [runAll_cons_eq_some_iff, run_ofAction_eq_some_iff, hflatten, hunflatten,
    exists_eq_left]
  simp [runAll]

/-- **Flattening and unflattening in a pipeline restore exactly the documents without lookalikes.**
The names of mappings are distinct by construction and positions are words. Without `NaN` and equal
members in a set, a document comes back equal if and only if no mapping with an entry `$marker` is
listed whole, because of the limits of the configuration. -/
theorem run_flatten_unflatten_iff (context : Context) {x : Document}
    (hd : x.namesDistinct = true) (hf : x.nanFree = true) (hm : x.membersDistinct = true)
    (hw : x.everywhere Document.hasWordPositions = true) :
    (∃ y, (chain [.ofAction (.flatten true), .ofAction .unflatten]).run context x =
        .ok (some y) ∧ (y == x) = true) ↔
      ∀ v ∈ (context.config.flatten true).visited [] x,
        (context.config.flatten true).listsWhole v.1.length v.2 = true →
          v.2.encodesMarker = false := by
  simp only [run_flatten_unflatten_eq_some_iff]
  constructor
  · rintro ⟨y, ⟨dict, hdict, hbuilt⟩, he⟩ v hv hwhole
    obtain ⟨hnames, hparts⟩ := FlattenOptions.build_readBack hd
      (FlattenOptions.build_of_ofDocument_flatten hd hw hdict hbuilt)
    -- a document that equals the first has as many parts at least
    rw [← Document.beq_comm hd hnames, Document.beq_eq_eqLeaves] at he
    have hle := Document.nodeCount_le_of_eqLeaves hd he
    have hnone : (context.config.flatten true).lookalikes [] x = 0 := by omega
    rw [FlattenOptions.lookalikes, List.countP_eq_zero] at hnone
    simpa [hwhole] using hnone v hv
  · intro hl
    obtain ⟨y, hy, hr⟩ : ∃ y, ((context.config.flatten true).tree [] x).build [] = .ok y ∧
        Document.Reordered x y :=
      FlattenOptions.build_tree hd hf hm (Or.inl rfl)
    refine ⟨y, ⟨_, FlattenOptions.ofDocument_flatten hd hw hl, ?_⟩, ?_⟩
    · exact (FlattenOptions.unflatten_flatten_eq_build hd).trans hy
    · rw [← Document.beq_comm hd (hr.namesDistinct hd)]
      exact hr.beq hd hf

/-- The standard settings, with containers expanded down to a depth. -/
def standardToDepth (depth : Nat) : Context :=
  { Context.standard with config := { Config.standard with maxDepth := depth } }

/-- A mapping with entries `$marker` in it that are listed by themselves. -/
def labelled : Document :=
  .mapping [("kind", .mapping [("$marker", .string "sequence"), ("10", .set [.int 1, .null])]),
    ("$marker", .record "Box" [("size", .mapping [("a.b", .int 3)])])]

/-- The mappings with an entry are expanded, those at the depth limit have none. -/
theorem run_flatten_unflatten_labelled :
    ∃ y, (chain [.ofAction (.flatten true), .ofAction .unflatten]).run (standardToDepth 2)
      labelled = .ok (some y) ∧ (y == labelled) = true :=
  (run_flatten_unflatten_iff (standardToDepth 2) (by decide) (by decide) (by decide)
    (by decide)).2 (by decide +kernel)

/-- A mapping with an entry `$marker` below the root. -/
def capped : Document :=
  .mapping [("a", .mapping [("$marker", .string "sequence")])]

theorem flatten_capped :
    capped.flatten ((standardToDepth 1).config.flatten true) =
      .ofList [([.key "a"], .value (.mapping [("$marker", .string "sequence")]))] := by
  rw [FlattenOptions.flatten_eq_ofList, FlattenOptions.contents_of_expanded rfl,
    FlattenOptions.groups, capped, Document.children, List.map_map, List.map_singleton,
    Function.comp_apply, FlattenOptions.contents_of_whole rfl]
  rfl

/-- **A mapping that spells a marker comes back as an empty container** under a valid configuration
that lists it whole. -/
theorem not_run_flatten_unflatten_capped :
    (standardToDepth 1).config.validate = .ok () ∧
      capped.nanFree = true ∧ capped.membersDistinct = true ∧
      (chain [.ofAction (.flatten true), .ofAction .unflatten]).run (standardToDepth 1) capped =
        .ok (some (.mapping [("a", .sequence [])])) ∧
      (Document.mapping [("a", .sequence [])] == capped) = false := by
  refine ⟨by decide +kernel, by decide, by decide, ?_, rfl⟩
  apply run_flatten_unflatten_eq_some_iff.2
  refine ⟨.ofList [([.key "a"], .marker .sequence)], ?_, rfl⟩
  -- the only entry is a value that is decoded as a marker
  rw [flatten_capped, PathDict.toDocument_eq (by decide), PathDict.ofDocument]
  change (PathDict.decodeEntries [(Path.text [.key "a"], _)]).map _ = _
  rw [PathDict.decodeEntries, Path.parse_canonical rfl]
  rfl

end Step

end PathDoc

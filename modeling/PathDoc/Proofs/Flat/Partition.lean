import PathDoc.Proofs.Find.Topmost
import PathDoc.Proofs.Flat.Contents

/-!
# What a flattened document lists

Flattening visits the nodes that a walk within its limits comes to (`mem_visited_iff_reachedAt`). A
reached node that is listed whole has its value in the dictionary (`lists_iff`); every other reached
node is an opened container (`opened_iff`) and may have its marker (`marker_mem_flatten_iff`).
Listed values do not lie below each other (`eq_of_lists_prefix`), and a node that is not opened lies
at or below one of them (`exists_within`). The listed values are therefore a partition of the
document, with the opened containers above them (`flatten_partition`).
-/

set_option autoImplicit false

namespace PathDoc

namespace Traversal

variable {traversal : Traversal} {document node part : Document} {path : Path} {token : Token}

/-- A walk comes to the children of a reached node that it expands. -/
theorem ReachedAt.child (h : traversal.ReachedAt document path node)
    (hx : traversal.expands node path.length = true) (hc : node.child? token = some part) :
    traversal.ReachedAt document (path ++ [token]) part := by
  constructor
  · rw [Document.nodeAt?_append, h.1, Option.bind_some, Document.nodeAt?, hc]
    rfl
  · intro above next hstart
    -- the container right above the child is the node itself
    rcases List.prefix_concat_iff.1 hstart with heq | hstart
    · obtain ⟨rfl, -⟩ := List.append_inj' heq rfl
      exact ⟨node, h.1, hx⟩
    · exact h.2 above next hstart

/-- What a walk reaches is reached from the root on, with the same containers above it. -/
theorem reachedAt_iff_openAbove :
    traversal.ReachedAt document path node ↔
      document.nodeAt? path = some node ∧
        traversal.OpenAbove (fun _ => True) 0 document path := by
  simp only [ReachedAt, OpenAbove, Nat.zero_add, and_true]

end Traversal

namespace FlattenOptions

variable {options : FlattenOptions} {document node : Document} {path : Path}

/-! ## Reached nodes -/

/-- A node with a child is not empty. -/
theorem isEmpty_of_child? {token : Token} {child : Document} (hc : node.child? token = some child) :
    node.isEmpty = false := by
  rw [Document.isEmpty, beq_eq_false_iff_ne]
  intro hlength
  have hnone := Document.length_children hlength
  rw [List.length_eq_zero_iff] at hnone
  have hmem := Document.mem_children_of_child? hc
  rw [hnone] at hmem
  cases hmem

/-- The limits alone decide whether flattening goes on to a child. -/
theorem listsWhole_eq_false_iff_of_child? {token : Token} {child : Document} {depth : Nat}
    (hc : node.child? token = some child) :
    options.listsWhole depth node = false ↔ options.traversal.expands node depth = true := by
  rw [listsWhole_eq_false_iff, and_iff_right (isEmpty_of_child? hc)]

/-- A visited node further down lies below a child of a node that is not listed whole. -/
theorem mem_visited_cons_iff {token : Token} {rest : Path} {part : Document}
    (hd : node.namesDistinct = true) :
    (path ++ token :: rest, part) ∈ options.visited path node ↔
      options.listsWhole path.length node = false ∧ ∃ child, node.child? token = some child ∧
        ((path ++ [token]) ++ rest, part) ∈ options.visited (path ++ [token]) child := by
  have hsplit : path ++ token :: rest = (path ++ [token]) ++ rest := by simp
  rw [Traversal.mem_listing_iff, enters_iff, hsplit]
  constructor
  · rintro (he | ⟨hw, child, hc, hm⟩)
    · have hlength := congrArg List.length (congrArg Prod.fst he)
      simp at hlength
    · -- the path of the child begins the path of the node below it, so its token is the first one
      have hstart : path ++ [child.1] <+: (path ++ [token]) ++ rest :=
        Traversal.prefix_of_mem_listing hm
      rw [List.append_assoc, List.prefix_append_right_inj, List.singleton_append,
        List.cons_prefix_cons] at hstart
      obtain ⟨rfl, -⟩ := hstart
      exact ⟨hw, child.2,
        Document.child?_of_mem_children (Document.children_tokens_nodup hd) hc, hm⟩
  · rintro ⟨hw, child, hc, hm⟩
    exact Or.inr ⟨hw, (token, child), Document.mem_children_of_child? hc, hm⟩

/-- Flattening visits the parts of a node with expanded containers only above them. -/
theorem mem_visited_iff {rest : Path} {part : Document} (hd : node.namesDistinct = true) :
    (path ++ rest, part) ∈ options.visited path node ↔
      node.nodeAt? rest = some part ∧
        options.traversal.OpenAbove (fun _ => True) path.length node rest := by
  induction rest generalizing path node with
  | nil =>
      rw [List.append_nil, Traversal.mem_listing_iff]
      constructor
      · -- the node itself, for everything below has a longer path
        rintro (he | ⟨-, child, -, hm⟩)
        · cases he
          exact ⟨rfl, Traversal.openAbove_nil⟩
        · have hlength := (Traversal.prefix_of_mem_listing hm).length_le
          simp at hlength
      · rintro ⟨hnode, -⟩
        cases hnode
        exact Or.inl rfl
  | cons token rest ih =>
      rw [mem_visited_cons_iff hd]
      cases hc : node.child? token with
      | none => simp [Document.nodeAt?, hc]
      -- one token down the container above is open, and the depth is one more
      | some child =>
          have hchild := Document.everywhere_of_mem_children hd (Document.mem_children_of_child? hc)
          have hbelow := @ih child (path ++ [token]) hchild
          rw [List.length_append, List.length_singleton] at hbelow
          rw [Traversal.openAbove_cons_iff hc, listsWhole_eq_false_iff_of_child? hc,
            Document.nodeAt?, hc, Option.bind_some]
          simp only [Option.some.injEq, exists_eq_left', hbelow, and_true]
          exact and_left_comm

/-- **Flattening visits the nodes that a walk within its limits comes to.** -/
theorem mem_visited_iff_reachedAt (hd : document.namesDistinct = true) :
    (path, node) ∈ options.visited [] document ↔
      options.traversal.ReachedAt document path node := by
  rw [Traversal.reachedAt_iff_openAbove]
  change ([] ++ path, node) ∈ options.visited [] document ↔ _
  exact mem_visited_iff hd

/-- A node above a reached one is reached and not listed whole. -/
theorem listsWhole_above {above : Path} (h : options.traversal.ReachedAt document path node)
    (ha : above <+: path) (hne : above ≠ path) :
    ∃ container, options.traversal.ReachedAt document above container ∧
      options.listsWhole above.length container = false := by
  obtain ⟨container, hreached, hx⟩ := h.above ha hne
  refine ⟨container, hreached, ?_⟩
  obtain ⟨rest, rfl⟩ := ha
  -- the path goes on from the container to one of its children, so the container is not empty
  cases rest with
  | nil => exact absurd (List.append_nil above).symm hne
  | cons token rest =>
      have hbelow := h.1
      rw [Document.nodeAt?_append, hreached.1, Option.bind_some] at hbelow
      obtain ⟨child, hc, -⟩ := Option.bind_eq_some_iff.1 hbelow
      exact (listsWhole_eq_false_iff_of_child? hc).2 hx

/-- **Every address is reached or lies below a reached node that is listed whole.** -/
theorem reachedAt_or_below (hn : document.nodeAt? path = some node) :
    options.traversal.ReachedAt document path node ∨
      ∃ above value, above <+: path ∧ above ≠ path ∧
        options.traversal.ReachedAt document above value ∧
        options.listsWhole above.length value = true := by
  -- from the root down, since the first node that is listed whole decides
  induction path using List.reverseRecOn generalizing node with
  | nil =>
      cases hn
      exact Or.inl (Traversal.reachedAt_iff_openAbove.2 ⟨rfl, Traversal.openAbove_nil⟩)
  | append_singleton path token ih =>
      rw [Document.nodeAt?_append] at hn
      obtain ⟨container, hcontainer, hstep⟩ := Option.bind_eq_some_iff.1 hn
      obtain ⟨child, hc, hnode⟩ := Option.bind_eq_some_iff.1 hstep
      cases hnode
      have hne : path ≠ path ++ [token] := by simp
      rcases ih hcontainer with hreached | ⟨above, value, ha, -, hvalue, hw⟩
      · cases hw : options.listsWhole path.length container with
        | true => exact Or.inr ⟨path, container, List.prefix_append _ _, hne, hreached, hw⟩
        | false => exact Or.inl (hreached.child (listsWhole_eq_false_iff.1 hw).2 hc)
      · refine Or.inr ⟨above, value, ha.trans (List.prefix_append _ _), ?_, hvalue, hw⟩
        rintro rfl
        have hlength := ha.length_le
        simp at hlength

/-- **At or below every reached node one is listed whole.** -/
theorem exists_whole_below (hd : document.namesDistinct = true)
    (h : options.traversal.ReachedAt document path node) :
    ∃ below value, path <+: below ∧ options.traversal.ReachedAt document below value ∧
      options.listsWhole below.length value = true := by
  induction node using Document.induct_parts generalizing path with
  | step node ih =>
    cases hw : options.listsWhole path.length node with
    | true => exact ⟨path, node, List.prefix_rfl, h, hw⟩
    | false =>
        -- a node that is not listed whole has a first child
        obtain ⟨⟨token, child⟩, rest, hchildren⟩ := List.exists_cons_of_ne_nil (children_ne_nil hw)
        have hm : (token, child) ∈ node.children := by
          rw [hchildren]
          exact List.mem_cons_self
        have hc : node.child? token = some child :=
          Document.child?_of_mem_children
            (Document.children_tokens_nodup (Document.everywhere_of_nodeAt? hd h.1)) hm
        have hbelow := h.child (listsWhole_eq_false_iff.1 hw).2 hc
        obtain ⟨below, value, hstart, hvalue⟩ := ih child (List.mem_map_of_mem hm) hbelow
        exact ⟨below, value, (List.prefix_append _ _).trans hstart, hvalue⟩

/-! ## Entries -/

theorem mem_flatten_iff_reachedAt (hd : document.namesDistinct = true) {entry : Entry} :
    (path, entry) ∈ (document.flatten options).entries ↔
      ∃ node, options.traversal.ReachedAt document path node ∧
        options.entry? path node = some entry := by
  rw [mem_flatten_iff hd]
  constructor
  · rintro ⟨⟨path, node⟩, hv, rfl, hentry⟩
    exact ⟨node, (mem_visited_iff_reachedAt hd).1 hv, hentry⟩
  · rintro ⟨node, hreached, hentry⟩
    exact ⟨(path, node), (mem_visited_iff_reachedAt hd).2 hreached, rfl, hentry⟩

/-- Whether flattening lists a value at a path. -/
def Lists (options : FlattenOptions) (document : Document) (path : Path) (value : Document) :
    Prop :=
  (path, Entry.value value) ∈ (document.flatten options).entries

/-- **The listed values are the reached nodes that are listed whole.** -/
theorem lists_iff {value : Document} (hd : document.namesDistinct = true) :
    options.Lists document path value ↔
      options.traversal.ReachedAt document path value ∧
        options.listsWhole path.length value = true := by
  rw [Lists, mem_flatten_iff_reachedAt hd]
  simp only [entry?_eq_value_iff]
  constructor
  · rintro ⟨node, hreached, hw, rfl⟩
    exact ⟨hreached, hw⟩
  · rintro ⟨hreached, hw⟩
    exact ⟨value, hreached, hw, rfl⟩

/-- Whether a node is a container that is opened: it is not empty, the walk expands it, and it lies
above a listed value. -/
structure Opened (options : FlattenOptions) (document : Document) (path : Path) (node : Document) :
    Prop where
  /-- The node stands at the path. -/
  stands : document.nodeAt? path = some node
  /-- It has children. -/
  nonempty : node.isEmpty = false
  /-- The walk goes on to them. -/
  expands : options.traversal.expands node path.length = true
  /-- A value is listed further down. -/
  above : ∃ below value, options.Lists document below value ∧ path <+: below ∧ path ≠ below

/-- **The opened containers are the reached nodes that are not listed whole.** -/
theorem opened_iff (hd : document.namesDistinct = true) :
    options.Opened document path node ↔
      options.traversal.ReachedAt document path node ∧
        options.listsWhole path.length node = false := by
  constructor
  · intro h
    -- all that lies above the listed value is reached
    obtain ⟨below, value, hlisted, hstart, hne⟩ := h.above
    obtain ⟨container, hreached, hw⟩ := listsWhole_above ((lists_iff hd).1 hlisted).1 hstart hne
    cases h.stands.symm.trans hreached.1
    exact ⟨hreached, hw⟩
  · rintro ⟨hreached, hw⟩
    obtain ⟨hnonempty, hx⟩ := listsWhole_eq_false_iff.1 hw
    obtain ⟨below, value, hstart, hvalue, hwhole⟩ := exists_whole_below hd hreached
    refine ⟨hreached.1, hnonempty, hx, below, value, (lists_iff hd).2 ⟨hvalue, hwhole⟩, hstart, ?_⟩
    rintro rfl
    cases hreached.1.symm.trans hvalue.1
    rw [hw] at hwhole
    cases hwhole

/-- **The markers are those of the opened containers, save for a root whose kind shows below it.**
-/
theorem marker_mem_flatten_iff {marker : Marker} (hd : document.namesDistinct = true) :
    (path, Entry.marker marker) ∈ (document.flatten options).entries ↔
      options.annotateAll = true ∧ ∃ node, options.Opened document path node ∧
        (path = [] → isInferred node = false) ∧ Marker.ofDocument? node = some marker := by
  rw [mem_flatten_iff_reachedAt hd]
  simp only [entry?_eq_marker_iff, opened_iff hd]
  constructor
  · rintro ⟨node, hreached, hw, hannotate, hroot, hmarker⟩
    exact ⟨hannotate, node, ⟨hreached, hw⟩, hroot, hmarker⟩
  · rintro ⟨hannotate, node, ⟨hreached, hw⟩, hroot, hmarker⟩
    exact ⟨node, hreached, hw, hannotate, hroot, hmarker⟩

/-- An opened container has a marker. -/
theorem Opened.exists_marker (h : options.Opened document path node) :
    ∃ marker, Marker.ofDocument? node = some marker := by
  cases node with
  | scalar value => exact absurd h.expands Bool.false_ne_true
  | _ => exact ⟨_, rfl⟩

/-! ## The partition -/

/-- Whether a node lies at or below a listed value. -/
def Within (options : FlattenOptions) (document : Document) (path : Path) (node : Document)
    (listed : Path × Document) : Prop :=
  options.Lists document listed.1 listed.2 ∧
    ∃ rest, path = listed.1 ++ rest ∧ listed.2.nodeAt? rest = some node

section

variable (hd : document.namesDistinct = true)

include hd

/-- No value is listed at or below another one. -/
theorem eq_of_lists_prefix {path' : Path} {value value' : Document}
    (h : options.Lists document path value) (h' : options.Lists document path' value')
    (hstart : path <+: path') :
    path = path' ∧ value = value' := by
  obtain ⟨hreached, hw⟩ := (lists_iff hd).1 h
  obtain ⟨hreached', -⟩ := (lists_iff hd).1 h'
  have hpath : path = path' := by
    -- above a listed value there are only opened containers
    by_contra hne
    obtain ⟨container, habove, hopen⟩ := listsWhole_above hreached' hstart hne
    cases hreached.1.symm.trans habove.1
    rw [hw] at hopen
    cases hopen
  subst hpath
  cases hreached.1.symm.trans hreached'.1
  exact ⟨rfl, rfl⟩

/-- **No node lies below two listed values.** -/
theorem Within.eq {a b : Path × Document} (ha : options.Within document path node a)
    (hb : options.Within document path node b) : a = b := by
  obtain ⟨hlisted, rest, hpath, -⟩ := ha
  obtain ⟨hlisted', rest', hpath', -⟩ := hb
  have hstart : a.1 <+: path := ⟨rest, hpath.symm⟩
  have hstart' : b.1 <+: path := ⟨rest', hpath'.symm⟩
  -- both begin the path of the node, so one of them begins the other
  rcases List.prefix_or_prefix_of_prefix hstart hstart' with hle | hle
  · obtain ⟨hfirst, hsecond⟩ := eq_of_lists_prefix hd hlisted hlisted' hle
    exact Prod.ext hfirst hsecond
  · obtain ⟨hfirst, hsecond⟩ := eq_of_lists_prefix hd hlisted' hlisted hle
    exact (Prod.ext hfirst hsecond).symm

/-- Nothing is listed at or above an opened container. -/
theorem Opened.not_within {listed : Path × Document} (h : options.Opened document path node) :
    ¬ options.Within document path node listed := by
  rintro ⟨hlisted, rest, rfl, -⟩
  obtain ⟨below, value, hvalue, hstart, hne⟩ := h.above
  have hhigher : listed.1 <+: listed.1 ++ rest := List.prefix_append listed.1 rest
  obtain ⟨hpath, -⟩ := eq_of_lists_prefix hd hlisted hvalue (hhigher.trans hstart)
  -- the opened container stands between the listed value and itself
  rw [hpath] at hhigher hstart hne
  exact hne (hstart.eq_of_length_le hhigher.length_le)

/-- **A node that is not opened lies at or below a listed value.** -/
theorem exists_within (hn : document.nodeAt? path = some node)
    (h : ¬ options.Opened document path node) :
    ∃ listed, options.Within document path node listed := by
  rw [opened_iff hd, not_and, Bool.not_eq_false] at h
  -- a reached node that is not opened is listed itself
  have hcases : options.traversal.ReachedAt document path node ∨ _ := reachedAt_or_below hn
  rcases hcases with hreached | ⟨above, value, ⟨rest, rfl⟩, -, hvalue, hw⟩
  · exact ⟨(path, node), (lists_iff hd).2 ⟨hreached, h hreached⟩, [],
      (List.append_nil path).symm, rfl⟩
  · refine ⟨(above, value), (lists_iff hd).2 ⟨hvalue, hw⟩, rest, rfl, ?_⟩
    rw [Document.nodeAt?_append, hvalue.1] at hn
    exact hn

end

/-- The dictionary is that of a walk that counts the depth of its nodes itself. -/
theorem flatten_eq_loop (options : FlattenOptions) (document : Document) :
    document.flatten options =
      PathDict.ofList ((options.traversal.loop options.visit [⟨[], 0, document⟩]).filterMap
        fun w => (options.entry? w.path w.node).map fun entry => (w.path, entry)) := by
  have hloop : options.traversal.loop options.visit [⟨[], 0, document⟩] =
      (options.traversal.walk options.visit document).map Traversal.Waiting.ofVisit :=
    Traversal.loop_waiting [([], document)]
  rw [hloop, List.filterMap_map]
  rfl

/-- **The values of a flattened document partition it.** No value is listed at or below another one,
and the path of each leads every navigator to it. A node of the document either lies at or below
exactly one of them, or it is an opened container strictly above one and lies below none. Markers
are listed on request only; they are then the markers of the opened containers, of which each has
one, except for a root that is a mapping or a sequence. The depth at which a node counts as capped
is the length of its path for the listing and a counter of its own for the walk: both give the same
dictionary. -/
theorem flatten_partition (options : FlattenOptions) {document : Document}
    (hd : document.namesDistinct = true) :
    (∀ path value path' value', options.Lists document path value →
      options.Lists document path' value' → path <+: path' → path = path' ∧ value = value') ∧
    (∀ (navigator : Navigator) path value, options.Lists document path value →
      navigator.get document path = .ok value) ∧
    (∀ path node, document.nodeAt? path = some node →
      ((∃! listed, options.Within document path node listed) ∧
          ¬ options.Opened document path node) ∨
        (options.Opened document path node ∧
          ∀ listed, ¬ options.Within document path node listed)) ∧
    (∀ path marker, (path, Entry.marker marker) ∈ (document.flatten options).entries ↔
      options.annotateAll = true ∧ ∃ node, options.Opened document path node ∧
        (path = [] → isInferred node = false) ∧ Marker.ofDocument? node = some marker) ∧
    (∀ path node, options.Opened document path node →
      ∃ marker, Marker.ofDocument? node = some marker) ∧
    document.flatten options =
      PathDict.ofList ((options.traversal.loop options.visit [⟨[], 0, document⟩]).filterMap
        fun w => (options.entry? w.path w.node).map fun entry => (w.path, entry)) := by
  refine ⟨?_, ?_, ?_, fun path marker => marker_mem_flatten_iff hd,
    fun path node => Opened.exists_marker, flatten_eq_loop options document⟩
  · intro path value path' value' h h' hstart
    exact eq_of_lists_prefix hd h h' hstart
  · intro navigator path value h
    exact Navigator.follow_of_nodeAt? path ((lists_iff hd).1 h).1.1
  · intro path node hn
    -- an opened container is no part of a listed value, any other node is
    by_cases h : options.Opened document path node
    · exact Or.inr ⟨h, fun _ => h.not_within hd⟩
    · obtain ⟨listed, hwithin⟩ := exists_within hd hn h
      exact Or.inl ⟨⟨listed, hwithin, fun _ hother => hother.eq hd hwithin⟩, h⟩

/-- With a depth of one the sequence below `a` is listed whole, and its item lies below it. The root
is opened and gets no marker. -/
theorem flatten_partition_capped :
    let options : FlattenOptions := ⟨true, 1, 5⟩
    let inner : Document := .sequence [.int 1]
    let document : Document := .mapping [("a", inner), ("b", .set [])]
    document.namesDistinct = true ∧
      (∃! listed, options.Within document [.key "a", .index 0] (.int 1) listed) ∧
      options.Within document [.key "a", .index 0] (.int 1) ([.key "a"], inner) ∧
      options.Opened document [] document ∧
      ∀ path marker, (path, Entry.marker marker) ∉ (document.flatten options).entries := by
  intro options inner document
  have hd : document.namesDistinct = true := by decide
  obtain ⟨-, -, hnodes, hmarkers, -, -⟩ := flatten_partition options hd
  have hroot : options.traversal.ReachedAt document [] document :=
    Traversal.reachedAt_iff_openAbove.2 ⟨rfl, Traversal.openAbove_nil⟩
  have hinner : options.Lists document [.key "a"] inner :=
    (lists_iff hd).2 ⟨hroot.child rfl rfl, rfl⟩
  have hitem : ¬ options.Opened document [.key "a", .index 0] (.int 1) := by
    intro h
    exact Bool.false_ne_true h.expands
  refine ⟨hd, ?_, ⟨hinner, [.index 0], rfl, rfl⟩, (opened_iff hd).2 ⟨hroot, rfl⟩, ?_⟩
  · rcases hnodes [.key "a", .index 0] (.int 1) rfl with h | h
    · exact h.1
    · exact absurd h.1 hitem
  · intro path marker hm
    obtain ⟨-, node, hopened, hshown, -⟩ := (hmarkers path marker).1 hm
    cases path with
    | nil =>
        cases hopened.stands
        exact Bool.false_ne_true (hshown rfl).symm
    | cons token rest =>
        -- only the root is above the greatest depth
        have hdepth := hopened.expands
        cases hl : node.length? <;> simp [Traversal.expands, hl, traversal, options] at hdepth

end FlattenOptions

end PathDoc

import PathDoc.Proofs.Document.Addresses
import PathDoc.Proofs.Document.Distinct
import PathDoc.Proofs.Traversal.Subtrees
import PathDoc.Traversal.Rebuild

/-!
# What a rebuilt document looks like

With a replacement that cannot fail a rebuild never fails, and `Traversal.replaced` is its outcome.
The outcome of an expanded container other than a set has the outcomes of its children in place of
the children (`replaced_of_expands`), that of a set is the set of the outcomes (`replaced_set`). A
document without a match is given back (`replaced_of_no_match`), whether or not the search for a
first match is made beforehand (`replaceAll_eq`).
-/

set_option autoImplicit false

namespace PathDoc

namespace Document

/-- The document with a function applied to its children. -/
def mapChildren (f : Document → Document) : Document → Document
  | scalar value => scalar value
  | mapping entries => mapping (entries.map fun entry => (entry.1, f entry.2))
  | sequence items => sequence (items.map f)
  | set members => set (members.map f)
  | record name fields => record name (fields.map fun field => (field.1, f field.2))

theorem positions_map (f : Document → Document) (start : Nat) (items : List Document) :
    positions start (items.map f) =
      (positions start items).map fun child => (child.1, f child.2) := by
  induction items generalizing start with
  | nil => rfl
  | cons item rest ih => rw [List.map_cons, positions, positions, ih, List.map_cons]

theorem children_mapChildren (f : Document → Document) (node : Document) :
    (node.mapChildren f).children = node.children.map fun child => (child.1, f child.2) := by
  cases node with
  | scalar value => rfl
  | mapping entries =>
      rw [mapChildren, children, children, List.map_map, List.map_map]
      rfl
  | sequence items => exact positions_map f 0 items
  | set members => exact positions_map f 0 members
  | record name fields =>
      rw [mapChildren, children, children, ← positions_map, List.map_map, List.map_map]
      rfl

/-- The children of a document change and nothing else. -/
theorem outline_mapChildren (f : Document → Document) (node : Document) :
    (node.mapChildren f).outline = node.outline := by
  have htokens : (node.mapChildren f).tokens = node.tokens := by
    rw [tokens, children_mapChildren, List.map_map]
    rfl
  have hmarker : Marker.ofDocument? (node.mapChildren f) = Marker.ofDocument? node := by
    cases node with
    | record name fields =>
        rw [mapChildren, Marker.ofDocument?, Marker.ofDocument?, List.map_map]
        rfl
    | _ => rfl
  rw [outline, outline, htokens, hmarker]

theorem child?_mapChildren (f : Document → Document) (node : Document) (token : Token) :
    (node.mapChildren f).child? token = (node.child? token).map f := by
  rw [child?, child?, children_mapChildren]
  induction node.children with
  | nil => rfl
  | cons child rest ih =>
      rw [List.map_cons, lookup_cons_ite, lookup_cons_ite, ih]
      split <;> rfl

end Document

namespace Traversal

attribute [local simp] rebuild rebuildItems rebuildEntries

variable {traversal : Traversal} {predicate : Document → Bool} {f : Document → Document}

/-- The node at a depth after replacement by a function that cannot fail. -/
def replaced (traversal : Traversal) (predicate : Document → Bool) (f : Document → Document)
    (depth : Nat) (node : Document) : Document :=
  match traversal.rebuild predicate (fun node => .ok (f node)) depth node with
  | .ok changed => changed.getD node
  | .error _ => node

theorem joinChanged_getD {α : Type} (item : α) (rest : List α) (item' : Option α)
    (rest' : Option (List α)) :
    (joinChanged item rest item' rest').getD (item :: rest) =
      item'.getD item :: rest'.getD rest := by
  cases item' <;> cases rest' <;> rfl

theorem rebuildItems_ok {depth : Nat} (items : List Document)
    (h : ∀ item ∈ items, ∃ changed,
      traversal.rebuild predicate (fun node => .ok (f node)) depth item = .ok changed) :
    ∃ changed, traversal.rebuildItems predicate (fun node => .ok (f node)) depth items =
        .ok changed ∧
      changed.getD items = items.map (traversal.replaced predicate f depth) := by
  induction items with
  | nil => exact ⟨none, rfl, rfl⟩
  | cons item rest ih =>
      rw [List.forall_mem_cons] at h
      obtain ⟨⟨item', hitem⟩, hrest⟩ := h
      obtain ⟨rest', hrest', hgetD⟩ := ih hrest
      refine ⟨joinChanged item rest item' rest', ?_, ?_⟩
      · rw [rebuildItems, hitem, hrest']
        rfl
      · rw [joinChanged_getD, hgetD, List.map_cons, replaced, hitem]

theorem rebuildEntries_ok {depth : Nat} (entries : List (String × Document))
    (h : ∀ entry ∈ entries, ∃ changed,
      traversal.rebuild predicate (fun node => .ok (f node)) depth entry.2 = .ok changed) :
    ∃ changed, traversal.rebuildEntries predicate (fun node => .ok (f node)) depth entries =
        .ok changed ∧
      changed.getD entries =
        entries.map fun entry => (entry.1, traversal.replaced predicate f depth entry.2) := by
  induction entries with
  | nil => exact ⟨none, rfl, rfl⟩
  | cons entry rest ih =>
      rw [List.forall_mem_cons] at h
      obtain ⟨⟨value', hvalue⟩, hrest⟩ := h
      obtain ⟨name, value⟩ := entry
      obtain ⟨rest', hrest', hgetD⟩ := ih hrest
      -- joining keeps the old entries when neither the head nor the rest has changed
      refine ⟨joinChanged (name, value) rest (value'.map fun value => (name, value)) rest',
        ?_, ?_⟩
      · rw [rebuildEntries, hvalue, hrest']
        rfl
      · rw [joinChanged_getD, hgetD, List.map_cons, replaced, hvalue]
        cases value' <;> rfl

theorem rebuild_of_match {depth : Nat} {node : Document} (h : predicate node = true) :
    traversal.rebuild predicate (fun node => .ok (f node)) depth node = .ok (some (f node)) := by
  cases node <;> simp [h, Except.map]

theorem rebuild_of_not_expands {depth : Nat} {node : Document} (h : predicate node = false)
    (hx : traversal.expands node depth = false) :
    traversal.rebuild predicate (fun node => .ok (f node)) depth node = .ok none := by
  cases node <;> simp [h, hx]

/-- **A rebuild with a replacement that cannot fail does not fail.** -/
theorem rebuild_ok (depth : Nat) (node : Document) :
    ∃ changed, traversal.rebuild predicate (fun node => .ok (f node)) depth node = .ok changed := by
  -- a match is replaced, and any other node rebuilt from its children if they are expanded
  induction node using Document.induct generalizing depth with
  | scalar value =>
      cases hp : predicate (.scalar value) with
      | true => exact ⟨_, rebuild_of_match hp⟩
      | false => exact ⟨_, rebuild_of_not_expands hp rfl⟩
  | mapping entries ih =>
      obtain ⟨changed, hc, -⟩ := rebuildEntries_ok _ fun e he => ih e he (depth + 1)
      cases hp : predicate (.mapping entries) with
      | true => exact ⟨_, rebuild_of_match hp⟩
      | false =>
          rw [rebuild, hp, hc, if_neg Bool.false_ne_true]
          split
          · exact ⟨_, rfl⟩
          · exact ⟨_, rfl⟩
  | sequence items ih =>
      obtain ⟨changed, hc, -⟩ := rebuildItems_ok _ fun d hd => ih d hd (depth + 1)
      cases hp : predicate (.sequence items) with
      | true => exact ⟨_, rebuild_of_match hp⟩
      | false =>
          rw [rebuild, hp, hc, if_neg Bool.false_ne_true]
          split
          · exact ⟨_, rfl⟩
          · exact ⟨_, rfl⟩
  | set members ih =>
      obtain ⟨changed, hc, -⟩ := rebuildItems_ok _ fun d hd => ih d hd (depth + 1)
      cases hp : predicate (.set members) with
      | true => exact ⟨_, rebuild_of_match hp⟩
      | false =>
          rw [rebuild, hp, hc, if_neg Bool.false_ne_true]
          split
          · exact ⟨_, rfl⟩
          · exact ⟨_, rfl⟩
  | record name fields ih =>
      obtain ⟨changed, hc, -⟩ := rebuildEntries_ok _ fun e he => ih e he (depth + 1)
      cases hp : predicate (.record name fields) with
      | true => exact ⟨_, rebuild_of_match hp⟩
      | false =>
          rw [rebuild, hp, hc, if_neg Bool.false_ne_true]
          split
          · exact ⟨_, rfl⟩
          · exact ⟨_, rfl⟩

theorem replaced_of_match {depth : Nat} {node : Document} (h : predicate node = true) :
    traversal.replaced predicate f depth node = f node := by
  rw [replaced, rebuild_of_match h]
  rfl

theorem replaced_of_not_expands {depth : Nat} {node : Document} (h : predicate node = false)
    (hx : traversal.expands node depth = false) :
    traversal.replaced predicate f depth node = node := by
  rw [replaced, rebuild_of_not_expands h hx]
  rfl

/-- **An expanded container other than a set keeps all but its children.** -/
theorem replaced_of_expands {depth : Nat} {node : Document} (h : predicate node = false)
    (hx : traversal.expands node depth = true) (hs : node.kind ≠ .set) :
    traversal.replaced predicate f depth node =
      node.mapChildren (traversal.replaced predicate f (depth + 1)) := by
  cases node with
  | scalar value => cases hx
  | mapping entries =>
      obtain ⟨changed, hc, hg⟩ := rebuildEntries_ok entries fun e _ => rebuild_ok (depth + 1) e.2
      rw [replaced, rebuild, h, hx, hc, Document.mapChildren, ← hg]
      cases changed <;> rfl
  | sequence items =>
      obtain ⟨changed, hc, hg⟩ := rebuildItems_ok items fun d _ => rebuild_ok (depth + 1) d
      rw [replaced, rebuild, h, hx, hc, Document.mapChildren, ← hg]
      cases changed <;> rfl
  | set members => exact absurd rfl hs
  | record name fields =>
      obtain ⟨changed, hc, hg⟩ := rebuildEntries_ok fields fun e _ => rebuild_ok (depth + 1) e.2
      rw [replaced, rebuild, h, hx, hc, Document.mapChildren, ← hg]
      cases changed <;> rfl

/-- A rebuilt set whose members stay apart keeps all of them. -/
theorem replaced_of_expands_set {depth : Nat} {members : List Document}
    (h : predicate (.set members) = false) (hx : traversal.expands (.set members) depth = true)
    (ha : (members.map (traversal.replaced predicate f (depth + 1))).Pairwise
      fun a b => (a == b) = false) :
    traversal.replaced predicate f depth (.set members) =
      (Document.set members).mapChildren (traversal.replaced predicate f (depth + 1)) := by
  obtain ⟨changed, hc, hg⟩ := rebuildItems_ok members fun d _ => rebuild_ok (depth + 1) d
  rw [replaced, rebuild, h, hx, hc, Document.mapChildren]
  rw [← hg] at ha ⊢
  cases changed with
  | none => rfl
  | some items => exact congrArg Document.set (Document.distinct_of_pairwise ha)

/-- **A rebuilt set of members that differ is the set of their outcomes.** -/
theorem replaced_set {depth : Nat} {members : List Document}
    (h : predicate (.set members) = false) (hx : traversal.expands (.set members) depth = true)
    (hp : members.Pairwise fun a b => (a == b) = false) :
    traversal.replaced predicate f depth (.set members) =
      .ofMembers (members.map (traversal.replaced predicate f (depth + 1))) := by
  obtain ⟨changed, hc, hg⟩ := rebuildItems_ok members fun d _ => rebuild_ok (depth + 1) d
  rw [replaced, rebuild, h, hx, hc, ← hg]
  cases changed with
  | none => exact congrArg Document.set (Document.distinct_of_pairwise hp).symm
  | some items => rfl

/-! ## Depth -/

/-- What stands deeper is rebuilt like a document of its own with a closer depth limit. -/
theorem rebuild_lowered (replace : Document → Outcome Document) (a b : Nat) (node : Document) :
    (traversal.lowered a).rebuild predicate replace b node =
      traversal.rebuild predicate replace (a + b) node := by
  -- the children lists first; the depth is raised by one on the way down
  have hitems : ∀ {items : List Document} (b : Nat), (∀ d ∈ items, ∀ b,
      (traversal.lowered a).rebuild predicate replace b d =
        traversal.rebuild predicate replace (a + b) d) →
      (traversal.lowered a).rebuildItems predicate replace b items =
        traversal.rebuildItems predicate replace (a + b) items := by
    intro items b h
    induction items with
    | nil => rfl
    | cons item rest ih =>
        rw [List.forall_mem_cons] at h
        rw [rebuildItems, rebuildItems, h.1, ih h.2]
  have hentries : ∀ {entries : List (String × Document)} (b : Nat), (∀ e ∈ entries, ∀ b,
      (traversal.lowered a).rebuild predicate replace b e.2 =
        traversal.rebuild predicate replace (a + b) e.2) →
      (traversal.lowered a).rebuildEntries predicate replace b entries =
        traversal.rebuildEntries predicate replace (a + b) entries := by
    intro entries b h
    induction entries with
    | nil => rfl
    | cons entry rest ih =>
        rw [List.forall_mem_cons] at h
        obtain ⟨name, value⟩ := entry
        rw [rebuildEntries, rebuildEntries, h.1, ih h.2]
  induction node using Document.induct generalizing b with
  | scalar value => rw [rebuild, rebuild, expands_lowered]
  | mapping entries ih => rw [rebuild, rebuild, expands_lowered, hentries (b + 1) ih]; rfl
  | sequence items ih => rw [rebuild, rebuild, expands_lowered, hitems (b + 1) ih]; rfl
  | set members ih => rw [rebuild, rebuild, expands_lowered, hitems (b + 1) ih]; rfl
  | record name fields ih => rw [rebuild, rebuild, expands_lowered, hentries (b + 1) ih]; rfl

theorem replaced_lowered (a : Nat) (node : Document) :
    (traversal.lowered a).replaced predicate f 0 node = traversal.replaced predicate f a node := by
  rw [replaced, replaced, rebuild_lowered, Nat.add_zero]

/-! ## Documents without a match -/

/-- How the walk that looks for a first match goes on after a node. -/
def containsVisit (predicate : Document → Bool) (node : Document) : Visit :=
  if predicate node then .stop else .descend

/-- The walk that ends at the first match passes one exactly if the full walk does. -/
theorem any_walkFrom_containsVisit (frontier : List (Path × Document)) :
    (traversal.walkFrom (fun _ node => containsVisit predicate node) frontier).any
        (fun visited => predicate visited.2) =
      (traversal.walkFrom (fun _ node => searchVisit predicate node) frontier).any
        fun visited => predicate visited.2 := by
  -- the walks differ only behind the first match, where the answer is known
  have hsearch : ∀ {path : Path} {node : Document}, predicate node = false →
      (traversal.enters (fun _ node => searchVisit predicate node) path node ↔
        traversal.enters (fun _ node => containsVisit predicate node) path node) := by
    intro path node hp
    simp [enters, searchVisit, containsVisit, hp]
  induction frontier using walkFrom_induct traversal
    (fun _ node => containsVisit predicate node) with
  | nil => rw [walkFrom, walkFrom]
  | stop path node rest h =>
      have hp : predicate node = true := by
        by_contra hp
        simp [containsVisit, hp] at h
      have hn : ¬ traversal.enters (fun _ node => searchVisit predicate node) path node := by
        simp [enters, searchVisit, hp]
      rw [walkFrom_of_stop h, walkFrom_of_not_enters (searchVisit_ne_stop node) hn]
      simp [hp]
  | pass path node rest hs h ih =>
      have hp : predicate node = false := by
        by_contra hp
        simp [containsVisit, hp] at hs
      rw [walkFrom_of_not_enters hs h, walkFrom_of_not_enters (searchVisit_ne_stop node)
        (mt (hsearch hp).1 h), List.any_cons, List.any_cons, ih]
  | enter path node rest h ih =>
      have hp : predicate node = false := by
        by_contra hp
        simp [enters, containsVisit, hp] at h
      rw [walkFrom_of_enters h, walkFrom_of_enters ((hsearch hp).2 h), List.any_cons,
        List.any_cons, ih]

/-- The walk that ends at the first match finds one exactly if there is one. -/
theorem contains_iff (document : Document) :
    traversal.contains predicate document = true ↔
      traversal.findPaths predicate document ≠ [] := by
  have h : traversal.contains predicate document =
      (traversal.walk (fun _ node => searchVisit predicate node) document).any
        fun visited => predicate visited.2 :=
    any_walkFrom_containsVisit [([], document)]
  rw [h, findPaths_eq, ← List.length_pos_iff, List.length_filter_pos_iff, List.any_eq_true]

theorem rebuildItems_none {replace : Document → Outcome Document} {depth : Nat}
    {items : List Document}
    (h : ∀ item ∈ items, traversal.rebuild predicate replace depth item = .ok none) :
    traversal.rebuildItems predicate replace depth items = .ok none := by
  induction items with
  | nil => rfl
  | cons item rest ih =>
      rw [List.forall_mem_cons] at h
      rw [rebuildItems, h.1, ih h.2]
      rfl

theorem rebuildEntries_none {replace : Document → Outcome Document} {depth : Nat}
    {entries : List (String × Document)}
    (h : ∀ entry ∈ entries, traversal.rebuild predicate replace depth entry.2 = .ok none) :
    traversal.rebuildEntries predicate replace depth entries = .ok none := by
  induction entries with
  | nil => rfl
  | cons entry rest ih =>
      rw [List.forall_mem_cons] at h
      obtain ⟨name, value⟩ := entry
      rw [rebuildEntries, h.1, ih h.2]
      rfl

/-- **Without a match nothing is rebuilt.** -/
theorem rebuild_of_no_match {replace : Document → Outcome Document} {node : Document}
    (hd : node.namesDistinct = true) (h : traversal.findPaths predicate node = []) :
    traversal.rebuild predicate replace 0 node = .ok none := by
  induction hn : node.nodeCount using Nat.strongRecOn generalizing traversal node with
  | _ n ih =>
    subst hn
    have hp : predicate node = false := by
      by_contra hp
      rw [findPaths_of_match (Bool.of_not_eq_false hp)] at h
      cases h
    cases hx : traversal.expands node 0 with
    | false => cases node <;> simp [hp, hx]
    | true =>
        -- what is found below a child is found below the node, so there is nothing in the children
        have hchildren : ∀ child ∈ node.children,
            traversal.rebuild predicate replace 1 child.2 = .ok none := by
          intro child hc
          have hnone : (traversal.lowered 1).findPaths predicate child.2 = [] := by
            rw [← under_findPaths hd hp hx hc, h]
            rfl
          have hlt := Document.nodeCount_lt_of_mem_children hc
          have hd' := Document.everywhere_of_mem_children hd hc
          rw [← ih _ hlt hd' hnone rfl, rebuild_lowered]
        have hitems : ∀ item ∈ node.children.map Prod.snd,
            traversal.rebuild predicate replace 1 item = .ok none :=
          List.forall_mem_map.2 hchildren
        cases node with
        | scalar value => cases hx
        | mapping entries =>
            rw [Document.children, List.forall_mem_map] at hchildren
            rw [rebuild, hp, hx, rebuildEntries_none hchildren]
            rfl
        | sequence items =>
            rw [Document.children, Document.positions_values] at hitems
            rw [rebuild, hp, hx, rebuildItems_none hitems]
            rfl
        | set members =>
            rw [Document.children, Document.positions_values] at hitems
            rw [rebuild, hp, hx, rebuildItems_none hitems]
            rfl
        | record name fields =>
            rw [Document.children, Document.positions_values, List.forall_mem_map] at hitems
            rw [rebuild, hp, hx, rebuildEntries_none hitems]
            rfl

theorem replaced_of_no_match {node : Document} (hd : node.namesDistinct = true)
    (h : traversal.findPaths predicate node = []) :
    traversal.replaced predicate f 0 node = node := by
  rw [replaced, rebuild_of_no_match hd h]
  rfl

/-- **Looking for a first match beforehand makes no difference.** -/
theorem replaceAll_eq (checkFirst : Bool) {document : Document}
    (hd : document.namesDistinct = true) :
    traversal.replaceAll predicate (fun node => .ok (f node)) checkFirst document =
      .ok (traversal.replaced predicate f 0 document) := by
  rw [replaceAll]
  split
  · rename_i h
    rw [Bool.and_eq_true, Bool.not_eq_true', ← Bool.not_eq_true, contains_iff, not_not] at h
    rw [replaced_of_no_match hd h.2]
  · have hrebuild : ∃ changed, traversal.rebuild predicate (fun node => .ok (f node)) 0 document =
        .ok changed := rebuild_ok 0 document
    obtain ⟨changed, hc⟩ := hrebuild
    rw [replaced, hc]
    rfl

end Traversal

end PathDoc

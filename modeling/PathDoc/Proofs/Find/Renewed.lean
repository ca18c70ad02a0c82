import PathDoc.Proofs.Find.Topmost

/-!
# Documents with their topmost matches replaced

`Traversal.renewed` says by recursion over a document what becomes of it when its topmost matches
are replaced: a match becomes its replacement, an expanded container keeps all but its children, and
a set that holds a match is made anew from its members, of equal ones the first. The rebuild makes
copies only above a match, and its replacements may fail. It comes to the renewed document unless
the replacement of some topmost match fails, and then to the failure of the first one in preorder
(`rebuild_eq`). `replaceAll_topmost` says the same of the whole search, whatever its order and
whether or not it looks for a first match beforehand, and finds every reached node again at its path
as long as no set stands above it (`nodeAt?_renewed`).
-/

set_option autoImplicit false

namespace PathDoc

namespace Document

/-- Functions that agree on the parts of a node do the same to it. -/
theorem mapChildren_congr {g h : Document → Document} {node : Document}
    (hsame : ∀ part ∈ node.parts, g part = h part) : node.mapChildren g = node.mapChildren h := by
  -- entries and fields keep their names, so only the values matter
  have hentries : ∀ entries : List (String × Document), (∀ e ∈ entries, g e.2 = h e.2) →
      (entries.map fun e => (e.1, g e.2)) = entries.map fun e => (e.1, h e.2) := by
    intro entries he
    apply List.map_congr_left
    intro e hm
    rw [he e hm]
  cases node with
  | scalar value => rfl
  | mapping entries =>
      rw [parts_mapping, List.forall_mem_map] at hsame
      rw [mapChildren, mapChildren, hentries entries hsame]
  | sequence items =>
      rw [parts_sequence] at hsame
      rw [mapChildren, mapChildren, List.map_congr_left hsame]
  | set members =>
      rw [parts_set] at hsame
      rw [mapChildren, mapChildren, List.map_congr_left hsame]
  | record name fields =>
      rw [parts_record, List.forall_mem_map] at hsame
      rw [mapChildren, mapChildren, hentries fields hsame]

theorem mapChildren_id (node : Document) : node.mapChildren id = node := by
  cases node <;> simp [mapChildren]

end Document

namespace Traversal

/-- The topmost matches in a node at a depth, in preorder. -/
def matchesIn (traversal : Traversal) (predicate : Document → Bool) (depth : Nat)
    (node : Document) : List Document :=
  ((lowered { traversal with order := .depthFirst } depth).findPaths predicate node).map Prod.snd

section

variable (traversal : Traversal) (predicate : Document → Bool) (f : Document → Document)

mutual

/-- The node at a depth with a function applied to its topmost matches. -/
def renewed (depth : Nat) (node : Document) : Document :=
  if predicate node then f node
  else if traversal.expands node depth then
    match node with
    | .scalar value => .scalar value
    | .mapping entries => .mapping (renewedEntries (depth + 1) entries)
    | .sequence items => .sequence (renewedItems (depth + 1) items)
    | .set members =>
      -- members that were equal before stay apart unless something is replaced
      if (traversal.matchesIn predicate depth (.set members)).isEmpty then .set members
      else .ofMembers (renewedItems (depth + 1) members)
    | .record name fields => .record name (renewedEntries (depth + 1) fields)
  else node

/-- The items at a depth, each with a function applied to its topmost matches. -/
def renewedItems (depth : Nat) : List Document → List Document
  | [] => []
  | item :: rest => renewed depth item :: renewedItems depth rest

/-- The entries at a depth, each with a function applied to the topmost matches of its value. -/
def renewedEntries (depth : Nat) : List (String × Document) → List (String × Document)
  | [] => []
  | (name, value) :: rest => (name, renewed depth value) :: renewedEntries depth rest

end

end

variable {traversal : Traversal} {predicate : Document → Bool} {f : Document → Document}
  {depth : Nat}

theorem renewedItems_eq (items : List Document) :
    traversal.renewedItems predicate f depth items =
      items.map (traversal.renewed predicate f depth) := by
  induction items with
  | nil => rfl
  | cons item rest ih => rw [renewedItems, ih, List.map_cons]

theorem renewedEntries_eq (entries : List (String × Document)) :
    traversal.renewedEntries predicate f depth entries =
      entries.map fun entry => (entry.1, traversal.renewed predicate f depth entry.2) := by
  induction entries with
  | nil => rfl
  | cons entry rest ih =>
      obtain ⟨name, value⟩ := entry
      rw [renewedEntries, ih, List.map_cons]

/-! ## The matches of a node -/

theorem matchesIn_of_match {node : Document} (h : predicate node = true) :
    traversal.matchesIn predicate depth node = [node] := by
  rw [matchesIn, findPaths_of_match h]
  rfl

theorem matchesIn_of_not_expands {node : Document} (h : predicate node = false)
    (hx : traversal.expands node depth = false) :
    traversal.matchesIn predicate depth node = [] := by
  have hx' : (lowered { traversal with order := .depthFirst } depth).expands node 0 = false := by
    rw [expands_lowered, Nat.add_zero]
    exact hx
  rw [matchesIn, findPaths_of_not_expands h hx']
  rfl

/-- Depth first, what is found below a child is found as in the child alone. -/
theorem filter_listing_child (ho : traversal.order = .depthFirst) (token : Token)
    (child : Document) :
    ((traversal.listing (fun _ => searchVisit predicate) [token] child).filter
        fun visited => predicate visited.2).map Prod.snd =
      ((traversal.lowered 1).findPaths predicate child).map Prod.snd := by
  have hmoved : traversal.walkFrom (fun _ => searchVisit predicate) [([token], child)] =
      ((traversal.lowered 1).walk (fun _ => searchVisit predicate) child).map (shift [token]) :=
    walkFrom_map_shift [token] (searchVisit predicate) [([], child)]
  rw [walkFrom_depthFirst ho fun _ => searchVisit_ne_stop, listings_cons, listings_nil,
    List.append_nil] at hmoved
  rw [hmoved, List.filter_map, List.map_map, findPaths_eq]
  rfl

/-- **The matches of an expanded node are those of its children, one child after the other.** -/
theorem matchesIn_of_expands {node : Document} (h : predicate node = false)
    (hx : traversal.expands node depth = true) :
    traversal.matchesIn predicate depth node =
      node.parts.flatMap (traversal.matchesIn predicate (depth + 1)) := by
  have hx' : (lowered { traversal with order := .depthFirst } depth).expands node 0 = true := by
    rw [expands_lowered, Nat.add_zero]
    exact hx
  rw [matchesIn, findPaths_of_expands h hx', walkFrom_depthFirst rfl fun _ => searchVisit_ne_stop,
    listings, List.filter_flatten, List.map_flatten, List.map_map, List.map_map, below,
    List.map_map, Document.parts, List.flatMap_map, List.flatMap_def]
  refine congrArg List.flatten (List.map_congr_left fun child _ => ?_)
  rw [Function.comp_apply, Function.comp_apply, Function.comp_apply, List.nil_append,
    filter_listing_child rfl, lowered_lowered]
  rfl

theorem matchesIn_eq_nil_of_not_contains {document : Document}
    (h : traversal.contains predicate document = false) :
    traversal.matchesIn predicate 0 document = [] := by
  rw [← Bool.not_eq_true, contains_iff, not_not, ← List.isEmpty_iff,
    ← isEmpty_findPaths_order .depthFirst, List.isEmpty_iff] at h
  exact congrArg (List.map Prod.snd) h

/-! ## One node at a time -/

theorem renewed_of_match {node : Document} (h : predicate node = true) :
    traversal.renewed predicate f depth node = f node := by
  cases node <;> exact if_pos h

theorem renewed_of_not_expands {node : Document} (h : predicate node = false)
    (hx : traversal.expands node depth = false) :
    traversal.renewed predicate f depth node = node := by
  cases node <;> simp [renewed, h, hx]

/-- **An expanded container other than a set keeps all but its children.** -/
theorem renewed_of_expands {node : Document} (h : predicate node = false)
    (hx : traversal.expands node depth = true) (hs : node.kind ≠ .set) :
    traversal.renewed predicate f depth node =
      node.mapChildren (traversal.renewed predicate f (depth + 1)) := by
  cases node with
  | scalar value => cases hx
  | mapping entries => simp [renewed, h, hx, renewedEntries_eq, Document.mapChildren]
  | sequence items => simp [renewed, h, hx, renewedItems_eq, Document.mapChildren]
  | set members => exact absurd rfl hs
  | record name fields => simp [renewed, h, hx, renewedEntries_eq, Document.mapChildren]

/-- **An expanded set that holds a match is made anew from its members.** -/
theorem renewed_set {members : List Document} (h : predicate (.set members) = false)
    (hx : traversal.expands (.set members) depth = true) :
    traversal.renewed predicate f depth (.set members) =
      if (traversal.matchesIn predicate depth (.set members)).isEmpty then .set members
      else .ofMembers (members.map (traversal.renewed predicate f (depth + 1))) := by
  simp [renewed, h, hx, renewedItems_eq]

/-- **A node without a match stays as it is.** -/
theorem renewed_of_no_match {node : Document}
    (h : traversal.matchesIn predicate depth node = []) :
    traversal.renewed predicate f depth node = node := by
  induction node using Document.induct_parts generalizing depth with
  | step node ih =>
    have hp : predicate node = false := by
      by_contra hp
      rw [matchesIn_of_match (Bool.of_not_eq_false hp)] at h
      cases h
    cases hx : traversal.expands node depth with
    | false => exact renewed_of_not_expands hp hx
    | true =>
        by_cases hs : node.kind = .set
        · cases node with
          | set members => rw [renewed_set hp hx, h, List.isEmpty_nil, if_pos rfl]
          | _ => cases hs
        · -- the matches of the children are among those of the node
          rw [matchesIn_of_expands hp hx, List.flatMap_eq_nil_iff] at h
          rw [renewed_of_expands hp hx hs]
          refine (Document.mapChildren_congr ?_).trans (Document.mapChildren_id node)
          intro part hm
          exact ih part hm (h part hm)

/-! ## Replacements that may fail -/

section

variable {replace : Document → Outcome Document} {α β : Type}

/-- A value, unless a replacement of some node fails; then the failure of the first such node. -/
def unlessFailing (replace : Document → Outcome Document) (value : α) :
    List Document → Outcome α
  | [] => .ok value
  | node :: rest =>
    match replace node with
    | .error error => .error error
    | .ok _ => unlessFailing replace value rest

/-- What comes after some replacements comes to pass if none of them fails. -/
theorem unlessFailing_bind (value : α) (next : α → Outcome β) (nodes rest : List Document)
    {result : β} (h : next value = unlessFailing replace result rest) :
    (unlessFailing replace value nodes >>= next) = unlessFailing replace result (nodes ++ rest) := by
  induction nodes with
  | nil => exact h
  | cons node nodes ih =>
      rw [unlessFailing, List.cons_append, unlessFailing]
      cases replace node with
      | error error => rfl
      | ok _ => exact ih

theorem unlessFailing_map (value : α) (g : α → β) (nodes : List Document) :
    (unlessFailing replace value nodes).map g = unlessFailing replace (g value) nodes := by
  induction nodes with
  | nil => rfl
  | cons node nodes ih =>
      rw [unlessFailing, unlessFailing]
      cases replace node with
      | error error => rfl
      | ok _ => exact ih

/-- The value comes to pass exactly if no replacement fails. -/
theorem unlessFailing_eq_ok_iff {value result : α} {nodes : List Document} :
    unlessFailing replace value nodes = .ok result ↔
      (∀ node ∈ nodes, ∃ new, replace node = .ok new) ∧ result = value := by
  induction nodes with
  | nil =>
      rw [unlessFailing, Except.ok.injEq, eq_comm]
      exact (and_iff_right (List.forall_mem_nil _)).symm
  | cons first rest ih =>
      rw [unlessFailing, List.forall_mem_cons]
      cases hfirst : replace first with
      | error other => simp
      | ok new =>
          rw [ih]
          simp

/-- **The failure is the one of the first node whose replacement fails.** -/
theorem unlessFailing_eq_error_iff {value : α} {nodes : List Document} {error : Error} :
    unlessFailing replace value nodes = .error error ↔ ∃ before node after,
      nodes = before ++ node :: after ∧ (∀ earlier ∈ before, ∃ new, replace earlier = .ok new) ∧
        replace node = .error error := by
  -- induction on the nodes: the first one fails, or it is passed and joins those before the failure
  induction nodes with
  | nil =>
      constructor
      · intro h
        cases h
      · rintro ⟨before, node, after, h, -, -⟩
        cases before <;> cases h
  | cons first rest ih =>
      rw [unlessFailing]
      cases hfirst : replace first with
      | error other =>
          constructor
          · intro h
            cases h
            exact ⟨[], first, rest, rfl, List.forall_mem_nil _, hfirst⟩
          · rintro ⟨before, node, after, h, hbefore, hnode⟩
            cases before with
            | nil =>
                cases h
                exact congrArg Except.error (Except.error.inj (hfirst.symm.trans hnode))
            | cons earlier before =>
                cases h
                obtain ⟨new, hnew⟩ := hbefore first List.mem_cons_self
                cases hfirst.symm.trans hnew
      | ok new =>
          rw [ih]
          constructor
          · rintro ⟨before, node, after, rfl, hbefore, hnode⟩
            exact ⟨first :: before, node, after, rfl,
              List.forall_mem_cons.2 ⟨⟨new, hfirst⟩, hbefore⟩, hnode⟩
          · rintro ⟨before, node, after, h, hbefore, hnode⟩
            cases before with
            | nil =>
                cases h
                cases hfirst.symm.trans hnode
            | cons earlier before =>
                cases h
                exact ⟨before, node, after, rfl, (List.forall_mem_cons.1 hbefore).2, hnode⟩

/-- Something new, if there was a match that called for it. -/
def ifAny (found : List Document) (new : α) : Option α :=
  if found.isEmpty then none else some new

theorem ifAny_map (found : List Document) (new : α) (g : α → β) :
    (ifAny found new).map g = ifAny found (g new) := by
  unfold ifAny
  split <;> rfl

theorem ifAny_getD {found : List Document} {new old : α} (h : found = [] → new = old) :
    (ifAny found new).getD old = new := by
  cases found with
  | nil => exact (h rfl).symm
  | cons node rest => rfl

/-- A list changes if its first item or its rest does. -/
theorem joinChanged_ifAny {item new : α} {rest others : List α} {a b : List Document}
    (ha : a = [] → new = item) (hb : b = [] → others = rest) :
    joinChanged item rest (ifAny a new) (ifAny b others) = ifAny (a ++ b) (new :: others) := by
  cases a with
  | nil =>
      cases b with
      | nil => rfl
      | cons node b =>
          rw [ha rfl]
          rfl
  | cons node a =>
      cases b with
      | nil =>
          rw [hb rfl, List.append_nil]
          rfl
      | cons node b => rfl

end

section

variable {replace : Document → Outcome Document}

/-- What the replacement of a node comes to; the node itself where it fails. -/
def outcomeOr (replace : Document → Outcome Document) (node : Document) : Document :=
  (replace node).toOption.getD node

/-- **The rebuild of a node.** Something new if there is a match in it, namely the renewed node;
unless a replacement fails. -/
def RebuildsTo (traversal : Traversal) (predicate : Document → Bool)
    (replace : Document → Outcome Document) (depth : Nat) (node : Document) : Prop :=
  traversal.rebuild predicate replace depth node =
    unlessFailing replace
      (ifAny (traversal.matchesIn predicate depth node)
        (traversal.renewed predicate (outcomeOr replace) depth node))
      (traversal.matchesIn predicate depth node)

/-- Items without a match stay as they are. -/
theorem map_renewed_of_no_match {items : List Document}
    (h : items.flatMap (traversal.matchesIn predicate depth) = []) :
    items.map (traversal.renewed predicate f depth) = items := by
  rw [List.flatMap_eq_nil_iff] at h
  exact (List.map_congr_left fun d hd => renewed_of_no_match (h d hd)).trans (List.map_id items)

/-- Two rebuilds one after the other, joined: the matches of the second follow those of the
first. -/
theorem unlessFailing_join {α : Type} {item new : α} {rest others : List α} {a b : List Document}
    (ha : a = [] → new = item) (hb : b = [] → others = rest) :
    (do
      let item' ← unlessFailing replace (ifAny a new) a
      let rest' ← unlessFailing replace (ifAny b others) b
      .ok (joinChanged item rest item' rest')) =
      unlessFailing replace (ifAny (a ++ b) (new :: others)) (a ++ b) := by
  apply unlessFailing_bind
  rw [← joinChanged_ifAny ha hb]
  -- nothing comes after the second rebuild
  have hlast : (unlessFailing replace (ifAny b others) b >>= fun rest' =>
      Except.ok (joinChanged item rest (ifAny a new) rest')) =
      unlessFailing replace (joinChanged item rest (ifAny a new) (ifAny b others)) (b ++ []) :=
    unlessFailing_bind (ifAny b others) _ b [] rfl
  rw [List.append_nil] at hlast
  exact hlast

theorem rebuildItems_eq {items : List Document}
    (h : ∀ item ∈ items, RebuildsTo traversal predicate replace depth item) :
    traversal.rebuildItems predicate replace depth items =
      unlessFailing replace
        (ifAny (items.flatMap (traversal.matchesIn predicate depth))
          (items.map (traversal.renewed predicate (outcomeOr replace) depth)))
        (items.flatMap (traversal.matchesIn predicate depth)) := by
  induction items with
  | nil => rfl
  | cons item rest ih =>
      obtain ⟨hitem, hrest⟩ := List.forall_mem_cons.1 h
      rw [rebuildItems, hitem, ih hrest, List.flatMap_cons, List.map_cons]
      exact unlessFailing_join renewed_of_no_match map_renewed_of_no_match

/-- Entries are rebuilt as their values are; the names stay. -/
theorem rebuildEntries_eq {entries : List (String × Document)}
    (h : ∀ value ∈ entries.map Prod.snd, RebuildsTo traversal predicate replace depth value) :
    traversal.rebuildEntries predicate replace depth entries =
      unlessFailing replace
        (ifAny ((entries.map Prod.snd).flatMap (traversal.matchesIn predicate depth))
          (entries.map fun entry =>
            (entry.1, traversal.renewed predicate (outcomeOr replace) depth entry.2)))
        ((entries.map Prod.snd).flatMap (traversal.matchesIn predicate depth)) := by
  induction entries with
  | nil => rfl
  | cons entry rest ih =>
      obtain ⟨name, value⟩ := entry
      obtain ⟨hvalue, hrest⟩ := List.forall_mem_cons.1 h
      -- the head and the rest, each rebuilt only if a match lies in it
      have hentry : (traversal.rebuild predicate replace depth value).map
          (fun changed => changed.map fun value => (name, value)) =
          unlessFailing replace
            (ifAny (traversal.matchesIn predicate depth value)
              (name, traversal.renewed predicate (outcomeOr replace) depth value))
            (traversal.matchesIn predicate depth value) := by
        rw [hvalue, unlessFailing_map, ifAny_map]
      have hsame : traversal.matchesIn predicate depth value = [] →
          (name, traversal.renewed predicate (outcomeOr replace) depth value) = (name, value) := by
        intro hnone
        rw [renewed_of_no_match hnone]
      have hothers : (rest.map Prod.snd).flatMap (traversal.matchesIn predicate depth) = [] →
          (rest.map fun entry =>
            (entry.1, traversal.renewed predicate (outcomeOr replace) depth entry.2)) = rest := by
        intro hnone
        rw [List.flatMap_eq_nil_iff, List.forall_mem_map] at hnone
        refine (List.map_congr_left fun entry hm => ?_).trans (List.map_id rest)
        rw [renewed_of_no_match (hnone entry hm)]
        rfl
      rw [List.map_cons, List.flatMap_cons, List.map_cons, ← unlessFailing_join hsame hothers,
        ← hentry, ← ih hrest, rebuildEntries]
      cases traversal.rebuild predicate replace depth value <;> rfl

/-- **The rebuild of an expanded container.** Its children are rebuilt, if nothing has failed. -/
theorem rebuild_of_expands {node : Document} (hp : predicate node = false)
    (hx : traversal.expands node depth = true)
    (h : ∀ part ∈ node.parts, RebuildsTo traversal predicate replace (depth + 1) part) :
    RebuildsTo traversal predicate replace depth node := by
  -- the kinds differ in what is built from the children: a set drops members that became equal
  have hno := ne_true_of_eq_false hp
  cases node with
  | scalar value => cases hx
  | mapping entries =>
      rw [Document.parts_mapping] at h
      rw [RebuildsTo, renewed_of_expands hp hx (by simp [Document.kind]), Document.mapChildren,
        matchesIn_of_expands hp hx, Document.parts_mapping, rebuild, if_neg hno, if_pos hx,
        rebuildEntries_eq h, unlessFailing_map, ifAny_map]
  | sequence items =>
      rw [Document.parts_sequence] at h
      rw [RebuildsTo, renewed_of_expands hp hx (by simp [Document.kind]), Document.mapChildren,
        matchesIn_of_expands hp hx, Document.parts_sequence, rebuild, if_neg hno, if_pos hx,
        rebuildItems_eq h, unlessFailing_map, ifAny_map]
  | set members =>
      rw [Document.parts_set] at h
      rw [RebuildsTo, renewed_set hp hx, matchesIn_of_expands hp hx, Document.parts_set, rebuild,
        if_neg hno, if_pos hx, rebuildItems_eq h, unlessFailing_map, ifAny_map, ifAny, ifAny]
      split <;> rfl
  | record name fields =>
      rw [Document.parts_record] at h
      rw [RebuildsTo, renewed_of_expands hp hx (by simp [Document.kind]), Document.mapChildren,
        matchesIn_of_expands hp hx, Document.parts_record, rebuild, if_neg hno, if_pos hx,
        rebuildEntries_eq h, unlessFailing_map, ifAny_map]

/-- **The rebuild of a node comes to the renewed node, unless a replacement fails.** -/
theorem rebuild_eq (node : Document) : RebuildsTo traversal predicate replace depth node := by
  induction node using Document.induct_parts generalizing depth with
  | step node ih =>
    cases hp : predicate node with
    | true =>
        rw [RebuildsTo, matchesIn_of_match hp, renewed_of_match hp, unlessFailing, outcomeOr]
        cases node <;> rw [rebuild, if_pos hp] <;> cases replace _ <;> rfl
    | false =>
        cases hx : traversal.expands node depth with
        | false =>
            rw [RebuildsTo, matchesIn_of_not_expands hp hx]
            cases node <;> simp [rebuild, hp, hx, unlessFailing, ifAny]
        | true => exact rebuild_of_expands hp hx fun part hm => ih part hm

/-- **The document with its topmost matches replaced**, or the failure of the first of them that
cannot be replaced; with or without the look for a first match. -/
theorem replaceAll_eq_unlessFailing (checkFirst : Bool) (document : Document) :
    traversal.replaceAll predicate replace checkFirst document =
      unlessFailing replace (traversal.renewed predicate (outcomeOr replace) 0 document)
        (traversal.matchesIn predicate 0 document) := by
  rw [replaceAll]
  split
  · rename_i h
    rw [Bool.and_eq_true, Bool.not_eq_true'] at h
    have hnone := matchesIn_eq_nil_of_not_contains h.2
    rw [renewed_of_no_match hnone, hnone, unlessFailing]
  · rw [rebuild_eq document, unlessFailing_map, ifAny_getD renewed_of_no_match]

end

/-! ## What stays at its path -/

/-- **What becomes of a node is found at its path**, if all that stands above it is expanded, no
match and no set. -/
theorem nodeAt?_renewed {document : Document} {path : Path}
    (h : traversal.OpenAbove (fun container => predicate container = false ∧ container.kind ≠ .set)
      depth document path) :
    (traversal.renewed predicate f depth document).nodeAt? path =
      (document.nodeAt? path).map (traversal.renewed predicate f (depth + path.length)) := by
  -- induction on the path; a step leads to a child that has been renewed one level further down
  induction path generalizing depth document with
  | nil => rfl
  | cons token rest ih =>
      obtain ⟨hx, hp, hs⟩ := h.root
      rw [renewed_of_expands hp hx hs, Document.nodeAt?, Document.child?_mapChildren,
        Document.nodeAt?]
      cases hc : document.child? token with
      | none => rfl
      | some child =>
          have hdepth : depth + (token :: rest).length = depth + 1 + rest.length := by
            rw [List.length_cons]
            omega
          rw [Option.map_some, Option.bind_some, Option.bind_some, hdepth]
          exact ih ((openAbove_cons_iff hc).1 h).2

/-- A match is among the topmost ones if all that stands above it is expanded and no match. -/
theorem mem_matchesIn {document node : Document} {path : Path}
    (hn : document.nodeAt? path = some node) (hp : predicate node = true)
    (h : traversal.OpenAbove (fun container => predicate container = false) depth document path) :
    node ∈ traversal.matchesIn predicate depth document := by
  induction path generalizing depth document with
  | nil =>
      cases hn
      rw [matchesIn_of_match hp]
      exact List.mem_singleton_self _
  | cons token rest ih =>
      obtain ⟨child, hc, hrest⟩ := Option.bind_eq_some_iff.1 hn
      obtain ⟨hx, hno⟩ := h.root
      rw [matchesIn_of_expands hno hx, List.mem_flatMap]
      have hmem : child ∈ document.parts :=
        List.mem_map_of_mem (Document.mem_children_of_child? hc)
      exact ⟨child, hmem, ih hrest ((openAbove_cons_iff hc).1 h).2⟩

/-- What is no match and no set keeps its kind, its names and its positions. -/
theorem outline_renewed {node : Document} (h : predicate node = false) (hs : node.kind ≠ .set) :
    (traversal.renewed predicate f depth node).outline = node.outline := by
  cases hx : traversal.expands node depth with
  | false => rw [renewed_of_not_expands h hx]
  | true => rw [renewed_of_expands h hx hs, Document.outline_mapChildren]

/-- A set that is no match stays as it is or becomes a set without equal members. -/
theorem renewed_set_distinct {node : Document} (h : predicate node = false)
    (hs : node.kind = .set) :
    traversal.renewed predicate f depth node = node ∨
      ((traversal.renewed predicate f depth node).kind = .set ∧
        (traversal.renewed predicate f depth node).hasDistinctMembers = true) := by
  cases node with
  | set members =>
      cases hx : traversal.expands (.set members) depth with
      | false => exact Or.inl (renewed_of_not_expands h hx)
      | true =>
          rw [renewed_set h hx]
          split
          · exact Or.inl rfl
          · exact Or.inr ⟨rfl, Document.hasDistinctMembers_ofMembers _⟩
  | _ => cases hs

/-- What becomes of a document does not depend on the order of the walk. -/
theorem renewed_order (order : Order) (node : Document) :
    renewed { traversal with order := order } predicate f depth node =
      traversal.renewed predicate f depth node := by
  -- the order is no part of what is expanded
  induction node using Document.induct_parts generalizing depth with
  | step node ih =>
    cases hp : predicate node with
    | true => exact (renewed_of_match hp).trans (renewed_of_match hp).symm
    | false =>
        cases hx : traversal.expands node depth with
        | false =>
            have hx' : expands { traversal with order := order } node depth = false := hx
            exact (renewed_of_not_expands hp hx').trans (renewed_of_not_expands hp hx).symm
        | true =>
            have hx' : expands { traversal with order := order } node depth = true := hx
            by_cases hs : node.kind = .set
            · cases node with
              | set members =>
                  rw [Document.parts_set] at ih
                  refine (renewed_set hp hx').trans ((renewed_set hp hx).trans ?_).symm
                  rw [List.map_congr_left fun member hm => ih member hm]
                  rfl
              | _ => cases hs
            · rw [renewed_of_expands hp hx hs,
                ← Document.mapChildren_congr fun part hm => ih part hm]
              exact renewed_of_expands hp hx' hs

/-- Of the images of a list the first one with a property is the image of the first item with it. -/
theorem exists_split_map_iff {α β : Type} {g : α → β} {list : List α} {P Q : β → Prop} :
    (∃ before y after, list.map g = before ++ y :: after ∧ (∀ earlier ∈ before, P earlier) ∧ Q y) ↔
      ∃ before x after, list = before ++ x :: after ∧ (∀ earlier ∈ before, P (g earlier)) ∧
        Q (g x) := by
  constructor
  · rintro ⟨before, y, after, hsplit, hbefore, hy⟩
    obtain ⟨before', rest, rfl, rfl, hafter⟩ := List.map_eq_append_iff.1 hsplit
    obtain ⟨x, after', rfl, rfl, rfl⟩ := List.map_eq_cons_iff.1 hafter
    exact ⟨before', x, after', rfl, List.forall_mem_map.1 hbefore, hy⟩
  · rintro ⟨before, x, after, rfl, hbefore, hx⟩
    refine ⟨before.map g, g x, after.map g, ?_, List.forall_mem_map.2 hbefore, hx⟩
    rw [List.map_append, List.map_cons]

/-- What becomes of a reached node with no match and no set above it. -/
theorem exists_nodeAt?_renewed {replace : Document → Outcome Document} {document node : Document}
    {path : Path}
    (hall : ∀ found ∈ traversal.matchesIn predicate 0 document, ∃ new, replace found = .ok new)
    (hreached : traversal.ReachedAt document path node)
    (habove : ∀ above ancestor, above <+: path → above ≠ path →
      traversal.ReachedAt document above ancestor →
        predicate ancestor = false ∧ ancestor.kind ≠ .set) :
    ∃ new, (traversal.renewed predicate (outcomeOr replace) 0 document).nodeAt? path = some new ∧
      (predicate node = true → replace node = .ok new) ∧
      (predicate node = false → node.kind ≠ .set → new.outline = node.outline) ∧
      (predicate node = false → node.kind = .set →
        new = node ∨ (new.kind = .set ∧ new.hasDistinctMembers = true)) := by
  refine ⟨traversal.renewed predicate (outcomeOr replace) (0 + path.length) node, ?_, ?_,
    outline_renewed, renewed_set_distinct⟩
  · rw [nodeAt?_renewed (hreached.openAbove habove), hreached.1, Option.map_some]
  · intro hp
    -- a match with no match above it is one of those that are replaced
    have hmem : node ∈ traversal.matchesIn predicate 0 document := by
      apply mem_matchesIn hreached.1 hp
      apply hreached.openAbove
      intro above ancestor hstart hne hancestor
      exact (habove above ancestor hstart hne hancestor).1
    obtain ⟨new, hnew⟩ := hall node hmem
    rw [renewed_of_match hp, outcomeOr, hnew]
    rfl

/-- **A replacement of all topmost matches.** It gives the renewed document unless the replacement
of a topmost match fails; then it fails like that of the first one in preorder. A document without a
match comes back, and neither the look for a first match nor the order of the walk matters. In the
new document a reached node is found at its own path, if no match and no set stands above it: a
match as its replacement, another container with its kind, its names and its positions, and a set as
it was or without equal members. -/
theorem replaceAll_topmost (traversal : Traversal) (predicate : Document → Bool)
    (replace : Document → Outcome Document) (checkFirst : Bool) (document : Document) :
    let topmost := findPaths { traversal with order := .depthFirst } predicate document
    (∀ result, traversal.replaceAll predicate replace checkFirst document = .ok result ↔
      (∀ found ∈ topmost, ∃ new, replace found.2 = .ok new) ∧
        result = traversal.renewed predicate (outcomeOr replace) 0 document) ∧
    (∀ error, traversal.replaceAll predicate replace checkFirst document = .error error ↔
      ∃ before found after, topmost = before ++ found :: after ∧
        (∀ earlier ∈ before, ∃ new, replace earlier.2 = .ok new) ∧
          replace found.2 = .error error) ∧
    (topmost = [] →
      traversal.replaceAll predicate replace checkFirst document = .ok document) ∧
    (∀ order check, replaceAll { traversal with order := order } predicate replace check document =
      traversal.replaceAll predicate replace checkFirst document) ∧
    ∀ result, traversal.replaceAll predicate replace checkFirst document = .ok result →
      ∀ path node, traversal.ReachedAt document path node →
        (∀ above ancestor, above <+: path → above ≠ path →
          traversal.ReachedAt document above ancestor →
            predicate ancestor = false ∧ ancestor.kind ≠ .set) →
        ∃ new, result.nodeAt? path = some new ∧
          (predicate node = true → replace node = .ok new) ∧
          (predicate node = false → node.kind ≠ .set → new.outline = node.outline) ∧
          (predicate node = false → node.kind = .set →
            new = node ∨ (new.kind = .set ∧ new.hasDistinctMembers = true)) := by
  intro topmost
  -- success does not depend on how the replacement is carried out
  have hok : ∀ result, traversal.replaceAll predicate replace checkFirst document = .ok result ↔
      (∀ node ∈ traversal.matchesIn predicate 0 document, ∃ new, replace node = .ok new) ∧
        result = traversal.renewed predicate (outcomeOr replace) 0 document := by
    intro result
    rw [replaceAll_eq_unlessFailing, unlessFailing_eq_ok_iff]
  refine ⟨?_, ?_, ?_, ?_, ?_⟩
  · intro result
    exact (hok result).trans (and_congr_left fun _ => List.forall_mem_map)
  · intro error
    rw [replaceAll_eq_unlessFailing, unlessFailing_eq_error_iff]
    exact exists_split_map_iff
  · intro hnone
    have hempty : traversal.matchesIn predicate 0 document = [] := congrArg (List.map Prod.snd) hnone
    rw [replaceAll_eq_unlessFailing, hempty, renewed_of_no_match hempty, unlessFailing]
  · intro order check
    rw [replaceAll_eq_unlessFailing, replaceAll_eq_unlessFailing, renewed_order]
    rfl
  · intro result hresult path node hreached habove
    obtain ⟨hall, rfl⟩ := (hok result).1 hresult
    exact exists_nodeAt?_renewed hall hreached habove

end Traversal

end PathDoc

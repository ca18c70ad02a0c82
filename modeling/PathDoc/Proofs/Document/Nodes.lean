import PathDoc.Document.Equality

/-!
# Conditions on every node of a document

`Document.induct` is induction over a document with a hypothesis for every child, constructor by
constructor; `Document.induct_parts` treats all kinds alike. A condition holds `everywhere` in a
document if it holds of the document itself and everywhere in its children (`everywhere_iff`). Three
conditions of this form are used throughout: the names of a mapping are distinct (`namesDistinct`,
which makes the entries of a mapping a finite map), no leaf is `NaN` (`nanFree`) and no set holds
two equal members (`membersDistinct`). Distinct names hold of all documents that come from texts and
are kept by all steps, so they are no restriction; proofs that go down to the parts of a document
take them as a hypothesis.
-/

set_option autoImplicit false

namespace PathDoc.Document

/-- The value of an entry is smaller than the list of entries. -/
theorem sizeOf_value_lt {entries : List (String × Document)} {e : String × Document}
    (h : e ∈ entries) : sizeOf e.2 < sizeOf entries := by
  have hlt := List.sizeOf_lt_of_mem h
  have he : sizeOf e = 1 + sizeOf e.1 + sizeOf e.2 := rfl
  omega

/-- Induction over a document with a hypothesis for every entry, item, member and field. -/
@[elab_as_elim]
theorem induct {motive : Document → Prop}
    (scalar : ∀ value, motive (.scalar value))
    (mapping : ∀ entries, (∀ e ∈ entries, motive e.2) → motive (.mapping entries))
    (sequence : ∀ items, (∀ d ∈ items, motive d) → motive (.sequence items))
    (set : ∀ members, (∀ d ∈ members, motive d) → motive (.set members))
    (record : ∀ name fields, (∀ e ∈ fields, motive e.2) → motive (.record name fields)) :
    ∀ document, motive document
  | .scalar value => scalar value
  | .mapping entries => mapping entries fun e h =>
      have := sizeOf_value_lt h
      induct scalar mapping sequence set record e.2
  | .sequence items => sequence items fun d h =>
      have := List.sizeOf_lt_of_mem h
      induct scalar mapping sequence set record d
  | .set members => set members fun d h =>
      have := List.sizeOf_lt_of_mem h
      induct scalar mapping sequence set record d
  | .record name fields => record name fields fun e h =>
      have := sizeOf_value_lt h
      induct scalar mapping sequence set record e.2
termination_by document => sizeOf document
decreasing_by
  all_goals
    simp only [Document.mapping.sizeOf_spec, Document.sequence.sizeOf_spec,
      Document.set.sizeOf_spec, Document.record.sizeOf_spec]
    omega

/-! ## Conditions everywhere -/

section

variable (condition : Document → Bool)

mutual

/-- Whether a condition holds of a document and of all its parts. -/
def everywhere : Document → Bool
  | scalar value => condition (scalar value)
  | mapping entries => condition (mapping entries) && everywhereEntries entries
  | sequence items => condition (sequence items) && everywhereItems items
  | set members => condition (set members) && everywhereItems members
  | record name fields => condition (record name fields) && everywhereEntries fields

/-- Whether a condition holds everywhere in all items. -/
def everywhereItems : List Document → Bool
  | [] => true
  | item :: rest => everywhere item && everywhereItems rest

/-- Whether a condition holds everywhere in the values of all entries. -/
def everywhereEntries : List (String × Document) → Bool
  | [] => true
  | (_, value) :: rest => everywhere value && everywhereEntries rest

end

end

variable {condition : Document → Bool}

section

attribute [local simp] everywhere everywhereItems everywhereEntries

theorem everywhereItems_iff (items : List Document) :
    everywhereItems condition items = true ↔ ∀ d ∈ items, everywhere condition d = true := by
  induction items with
  | nil => simp
  | cons item rest ih => simp [ih]

theorem everywhereEntries_iff (entries : List (String × Document)) :
    everywhereEntries condition entries = true ↔
      ∀ e ∈ entries, everywhere condition e.2 = true := by
  induction entries with
  | nil => simp
  | cons entry rest ih =>
      obtain ⟨name, value⟩ := entry
      simp [ih]

@[simp] theorem everywhere_scalar (value : Scalar) :
    everywhere condition (scalar value) = condition (scalar value) := rfl

@[simp] theorem everywhere_mapping (entries : List (String × Document)) :
    everywhere condition (mapping entries) = true ↔
      condition (mapping entries) = true ∧ ∀ e ∈ entries, everywhere condition e.2 = true := by
  rw [everywhere, Bool.and_eq_true, everywhereEntries_iff]

@[simp] theorem everywhere_sequence (items : List Document) :
    everywhere condition (sequence items) = true ↔
      condition (sequence items) = true ∧ ∀ d ∈ items, everywhere condition d = true := by
  rw [everywhere, Bool.and_eq_true, everywhereItems_iff]

@[simp] theorem everywhere_set (members : List Document) :
    everywhere condition (set members) = true ↔
      condition (set members) = true ∧ ∀ d ∈ members, everywhere condition d = true := by
  rw [everywhere, Bool.and_eq_true, everywhereItems_iff]

@[simp] theorem everywhere_record (name : String) (fields : List (String × Document)) :
    everywhere condition (record name fields) = true ↔
      condition (record name fields) = true ∧ ∀ e ∈ fields, everywhere condition e.2 = true := by
  rw [everywhere, Bool.and_eq_true, everywhereEntries_iff]

end

/-- The children of a document without their tokens. -/
abbrev parts (document : Document) : List Document :=
  document.children.map Prod.snd

theorem parts_mapping (entries : List (String × Document)) :
    (mapping entries).parts = entries.map Prod.snd := by
  rw [parts, children, List.map_map]
  rfl

theorem parts_sequence (items : List Document) : (sequence items).parts = items :=
  positions_values 0 items

theorem parts_set (members : List Document) : (set members).parts = members :=
  positions_values 0 members

theorem parts_record (name : String) (fields : List (String × Document)) :
    (record name fields).parts = fields.map Prod.snd :=
  positions_values 0 _

/-- The numbered items are the items. -/
theorem mem_of_mem_positions {start : Nat} {items : List Document} {child : Token × Document}
    (h : child ∈ positions start items) : child.2 ∈ items := by
  have hm : child.2 ∈ (positions start items).map Prod.snd := List.mem_map_of_mem h
  rwa [positions_values] at hm

/-- **A condition holds everywhere in a document if it holds of the document itself and everywhere
in its children.** -/
theorem everywhere_iff {document : Document} :
    everywhere condition document = true ↔
      condition document = true ∧
        ∀ part ∈ document.parts, everywhere condition part = true := by
  cases document with
  | scalar value => simp [parts, children]
  | mapping entries => rw [everywhere_mapping, parts_mapping, List.forall_mem_map]
  | sequence items => rw [everywhere_sequence, parts_sequence]
  | set members => rw [everywhere_set, parts_set]
  | record name fields => rw [everywhere_record, parts_record, List.forall_mem_map]

/-- What holds everywhere in a document holds everywhere in its children. -/
theorem everywhere_of_mem_children {document : Document} {child : Token × Document}
    (h : everywhere condition document = true) (hc : child ∈ document.children) :
    everywhere condition child.2 = true :=
  (everywhere_iff.1 h).2 _ (List.mem_map_of_mem hc)

/-! ## Induction over the parts -/

/-- A child has fewer parts than its parent. -/
theorem nodeCount_lt_of_mem_children {node : Document} {child : Token × Document}
    (h : child ∈ node.children) : child.2.nodeCount < node.nodeCount := by
  have hle : ∀ items : List Document, child.2 ∈ items → child.2.nodeCount ≤ countItems items := by
    intro items hm
    induction items with
    | nil => cases hm
    | cons item rest ih =>
        rw [countItems]
        rcases List.mem_cons.1 hm with he | hm
        · rw [he]
          omega
        · have := ih hm
          omega
  -- the parts of a node are itself and the parts of its children
  have hlt := hle _ (List.mem_map_of_mem h)
  have hn := nodeCount_children node
  omega

/-- Induction over a document, for statements about all parts of a node alike. -/
@[elab_as_elim]
theorem induct_parts {motive : Document → Prop}
    (step : ∀ node, (∀ part ∈ node.parts, motive part) → motive node) (node : Document) :
    motive node := by
  induction hn : node.nodeCount using Nat.strongRecOn generalizing node with
  | _ n ih =>
    subst hn
    apply step
    intro part hm
    obtain ⟨child, hc, rfl⟩ := List.mem_map.1 hm
    exact ih _ (nodeCount_lt_of_mem_children hc) child.2 rfl

/-- A weaker condition holds everywhere as well. -/
theorem everywhere_imp {weaker : Document → Bool}
    (h : ∀ node, condition node = true → weaker node = true) {document : Document}
    (hd : everywhere condition document = true) : everywhere weaker document = true := by
  induction document using induct_parts with
  | step node ih =>
      obtain ⟨hnode, hparts⟩ := everywhere_iff.1 hd
      exact everywhere_iff.2 ⟨h node hnode, fun part hm => ih part hm (hparts part hm)⟩

/-! ## Conditions in use -/

/-- Whether the names of a mapping are distinct. -/
@[simp] def hasDistinctNames : Document → Bool
  | mapping entries => decide (Entries.names entries).Nodup
  | _ => true

/-- Whether no two members of a set are equal. -/
@[simp] def hasDistinctMembers : Document → Bool
  | set members => decide (members.Pairwise fun a b => (a == b) = false)
  | _ => true

/-- Whether the names of every mapping in a document are distinct, so that every mapping is a finite
map. -/
abbrev namesDistinct (document : Document) : Bool :=
  document.everywhere hasDistinctNames

/-- Whether no leaf of a document is `NaN`. -/
abbrev nanFree (document : Document) : Bool :=
  document.everywhere fun node => !node.isNaN

/-- Whether no set in a document holds two equal members. -/
abbrev membersDistinct (document : Document) : Bool :=
  document.everywhere hasDistinctMembers

/-! ## Addresses of children -/

theorem positions_tokens (start : Nat) (items : List Document) :
    (positions start items).map Prod.fst =
      (List.range' start items.length).map fun i : Nat => Token.index i := by
  induction items generalizing start with
  | nil => rfl
  | cons item rest ih =>
      rw [positions, List.map_cons, ih, List.length_cons, List.range'_succ, List.map_cons]

theorem positions_tokens_nodup (start : Nat) (items : List Document) :
    ((positions start items).map Prod.fst).Nodup := by
  rw [positions_tokens, List.nodup_iff_pairwise_ne, List.pairwise_map]
  refine (List.nodup_iff_pairwise_ne.1 List.nodup_range').imp fun hne he => hne ?_
  injection he with he
  exact Int.ofNat.inj he

/-- The positions of items come in order. -/
theorem positions_sorted (start : Nat) (items : List Document) :
    (positions start items).Pairwise fun a b => compare a.1 b.1 = .lt := by
  have h : ((positions start items).map Prod.fst).Pairwise fun a b => compare a b = .lt := by
    rw [positions_tokens, List.pairwise_map]
    have hlt : (List.range' start items.length).Pairwise (· < ·) := List.pairwise_lt_range'
    exact hlt.imp fun hij => Int.compare_eq_lt.2 (Int.ofNat_lt.2 hij)
  exact List.pairwise_map.1 h

/-- A container has as many children as its length says. -/
theorem length_children {document : Document} {length : Nat} (h : document.length? = some length) :
    document.children.length = length := by
  have hpositions : ∀ items, (positions 0 items).length = items.length := fun items => by
    rw [← List.length_map (f := Prod.snd), positions_values]
  cases document with
  | scalar value => cases h
  | mapping entries =>
      cases h
      exact List.length_map _
  | sequence items =>
      cases h
      exact hpositions items
  | set members =>
      cases h
      exact hpositions members
  | record name fields =>
      cases h
      exact (hpositions _).trans (List.length_map _)

/-- **The children of a document have different tokens.** -/
theorem children_tokens_nodup {document : Document} (h : document.namesDistinct = true) :
    (document.children.map Prod.fst).Nodup := by
  cases document with
  | scalar value => exact List.nodup_nil
  | mapping entries =>
      simp only [everywhere_mapping, hasDistinctNames, decide_eq_true_eq] at h
      rw [children, List.map_map, List.nodup_iff_pairwise_ne, List.pairwise_map]
      refine (List.pairwise_map.1 h.1).imp fun hne he => hne ?_
      injection he
  | sequence items => exact positions_tokens_nodup 0 items
  | set members => exact positions_tokens_nodup 0 members
  | record name fields => exact positions_tokens_nodup 0 _

end PathDoc.Document

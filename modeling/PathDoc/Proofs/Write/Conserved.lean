import Mathlib.Algebra.BigOperators.Group.Multiset.Basic
import PathDoc.Proofs.Write.Independent
import PathDoc.Proofs.Write.ReplaceAt

/-!
# What writes keep

The scalars of a document are its leaf values at all depths, counted as often as they stand in it.
Taking a child out of a container takes away its scalars and no others (`take_scalars`); outside
sets, where equal members are merged, storing a value adds its scalars and takes away those of the
child that it replaces (`store_cases`). A write changes one container only, so the same balance
holds for the whole document (`take_scalars_eq`, `set_scalars_eq`).
-/

set_option autoImplicit false

namespace PathDoc

/-- A failure that is worded otherwise is a failure still. -/
theorem mapError_eq_ok_iff {ε δ α : Type} {x : Except ε α} {f : ε → δ} {value : α} :
    x.mapError f = .ok value ↔ x = .ok value := by
  cases x <;> simp [Except.mapError]

namespace Document

/-! ## Scalars -/

mutual

/-- The leaf values of a document, each as often as it stands in it. -/
def scalars : Document → Multiset Scalar
  | scalar value => {value}
  | mapping entries => scalarsOfEntries entries
  | sequence items => scalarsOfItems items
  | set members => scalarsOfItems members
  | record _ fields => scalarsOfEntries fields

/-- The leaf values of all items. -/
def scalarsOfItems : List Document → Multiset Scalar
  | [] => 0
  | item :: rest => item.scalars + scalarsOfItems rest

/-- The leaf values of all entries. -/
def scalarsOfEntries : List (String × Document) → Multiset Scalar
  | [] => 0
  | (_, value) :: rest => value.scalars + scalarsOfEntries rest

end

theorem scalarsOfItems_eq (items : List Document) :
    scalarsOfItems items = (items.map scalars).sum := by
  induction items with
  | nil => rfl
  | cons item rest ih => rw [scalarsOfItems, ih, List.map_cons, List.sum_cons]

theorem scalarsOfEntries_eq (entries : List (String × Document)) :
    scalarsOfEntries entries = ((entries.map Prod.snd).map scalars).sum := by
  induction entries with
  | nil => rfl
  | cons entry rest ih =>
      obtain ⟨name, value⟩ := entry
      rw [scalarsOfEntries, ih, List.map_cons, List.map_cons, List.sum_cons]

/-- **The scalars of a container are those of its children.** -/
theorem scalars_of_kind {node : Document} (h : node.kind ≠ .scalar) :
    node.scalars = (node.parts.map scalars).sum := by
  cases node with
  | scalar value => exact absurd rfl h
  | mapping entries => rw [scalars, scalarsOfEntries_eq, parts_mapping]
  | sequence items => rw [scalars, scalarsOfItems_eq, parts_sequence]
  | set members => rw [scalars, scalarsOfItems_eq, parts_set]
  | record name fields => rw [scalars, scalarsOfEntries_eq, parts_record]

/-- Containers with one child more or less. -/
theorem scalars_of_perm {node other child : Document} (hn : node.kind ≠ .scalar)
    (ho : other.kind ≠ .scalar) (h : node.parts.Perm (child :: other.parts)) :
    node.scalars = child.scalars + other.scalars := by
  rw [scalars_of_kind hn, scalars_of_kind ho, (h.map scalars).sum_eq, List.map_cons, List.sum_cons]

variable {node old value : Document} {slot : Slot} {written : Written}

/-- Only a container has a child in a slot. -/
theorem kind_ne_scalar_of_at? (ho : node.at? slot = some old) : node.kind ≠ .scalar := by
  cases node with
  | scalar v => cases slot <;> cases ho
  | _ => exact Kind.noConfusion

theorem kind_put (node : Document) (slot : Slot) (value : Document) :
    (node.put slot value).kind = node.kind := by
  cases node <;> cases slot <;> rfl

/-- **Putting a value in place of a child exchanges their scalars.** -/
theorem scalars_put (ho : node.at? slot = some old) (value : Document) :
    (node.put slot value).scalars + old.scalars = node.scalars + value.scalars := by
  obtain ⟨hparts, hi⟩ := parts_put ho value
  have hkind := kind_ne_scalar_of_at? ho
  have hkind' : (node.put slot value).kind ≠ .scalar := by rwa [kind_put]
  -- the other children are the same
  have hold : node.parts.Perm (old :: node.parts.eraseIdx (node.positionAt slot)) := by
    have hself := (parts_put ho old).1
    rw [put_self ho] at hself
    conv_lhs => rw [hself]
    exact List.set_perm_cons_eraseIdx hi old
  have hnew : (node.put slot value).parts.Perm
      (value :: node.parts.eraseIdx (node.positionAt slot)) := by
    rw [hparts]
    exact List.set_perm_cons_eraseIdx hi value
  rw [scalars_of_kind hkind, scalars_of_kind hkind', (hold.map scalars).sum_eq,
    (hnew.map scalars).sum_eq, List.map_cons, List.map_cons, List.sum_cons, List.sum_cons]
  abel

/-! ## Taking out and storing -/

/-- What is left of a container is of the same kind and has one child less. -/
theorem take_parts (hd : node.hasDistinctNames = true) (h : node.take slot = .ok written) :
    ∃ old, written.previous = some old ∧ written.document.kind = node.kind ∧
      node.parts.Perm (old :: written.document.parts) := by
  obtain ⟨hrecord, old, ho⟩ := at?_of_take h
  -- a list is, up to order, the item at a position and the rest
  have hitems : ∀ items : List Document, ∀ i, items[i]? = some old →
      items.Perm (old :: items.eraseIdx i) := by
    intro items i hi
    obtain ⟨hlt, rfl⟩ := List.getElem?_eq_some_iff.1 hi
    exact (List.getElem_cons_eraseIdx_perm hlt).symm
  cases node with
  | scalar v => cases slot <;> cases ho
  | record name fields => exact absurd rfl hrecord
  | mapping entries =>
      cases slot with
      | entry name =>
          simp only [take, ho] at h
          cases h
          refine ⟨old, rfl, rfl, ?_⟩
          rw [parts_mapping, parts_mapping]
          exact (Entries.perm_erase (of_decide_eq_true hd) ho).map Prod.snd
      | child i =>
          simp only [take, ho] at h
          cases h
          refine ⟨old, rfl, rfl, ?_⟩
          rw [parts_mapping, parts_mapping, ← List.eraseIdx_map]
          exact hitems _ i (List.getElem?_map.trans ho)
  | sequence items =>
      cases slot with
      | entry name => cases ho
      | child i =>
          simp only [take, ho] at h
          cases h
          refine ⟨old, rfl, rfl, ?_⟩
          rw [parts_sequence, parts_sequence]
          exact hitems items i ho
  | set members =>
      cases slot with
      | entry name => cases ho
      | child i =>
          simp only [take, ho] at h
          cases h
          refine ⟨old, rfl, rfl, ?_⟩
          rw [parts_set, parts_set]
          exact hitems members i ho

/-- **Taking a child out of a container takes away its scalars.** -/
theorem take_scalars (hd : node.hasDistinctNames = true) (h : node.take slot = .ok written) :
    ∃ old, written.previous = some old ∧ written.document.scalars + old.scalars = node.scalars := by
  obtain ⟨old, hprevious, hkind, hparts⟩ := take_parts hd h
  obtain ⟨-, child, ho⟩ := at?_of_take h
  have hcontainer := kind_ne_scalar_of_at? ho
  refine ⟨old, hprevious, ?_⟩
  rw [scalars_of_perm hcontainer (hkind ▸ hcontainer) hparts, add_comm]

end Document

/-! ## Whole writes -/

namespace Navigator

variable {navigator : Navigator} {node value : Document} {token : Token} {written : Written}

/-- What a removal does: it replaces the container of the last token by what is left of it. -/
theorem take_concat_eq_ok_iff {document left : Document} {parents : Path} {last : Token} :
    navigator.take document (parents ++ [last]) = .ok (value, left) ↔
      ∃ container slot inner, navigator.get document parents = .ok container ∧
        navigator.locate container last = .ok slot ∧ container.take slot = .ok inner ∧
        inner.previous.getD .null = value ∧
        navigator.replaceAt document parents inner.document = left := by
  -- only the last token operates on the container, so it is located there
  have happly : ∀ container inner,
      navigator.applyLast (parents ++ [last]) last container .remove = .ok inner ↔
        ∃ slot, navigator.locate container last = .ok slot ∧ container.take slot = .ok inner := by
    intro container inner
    rw [applyLast]
    cases navigator.locate container last with
    | error miss => simp
    | ok slot => simp [mapError_eq_ok_iff]
  simp only [Navigator.take, map_eq_ok_iff, write_concat_eq_ok_iff, happly]
  constructor
  · rintro ⟨_, ⟨container, inner, hcontainer, ⟨slot, hl, htake⟩, rfl⟩, he⟩
    cases he
    exact ⟨container, slot, inner, hcontainer, hl, htake, rfl, rfl⟩
  · rintro ⟨container, slot, inner, hcontainer, hl, htake, rfl, rfl⟩
    exact ⟨_, ⟨container, inner, hcontainer, ⟨slot, hl, htake⟩, rfl⟩, rfl⟩

/-- What a write of a value does: it replaces the container of the last token by one that the value
was stored in. -/
theorem set_concat_eq_ok_iff {document after : Document} {parents : Path} {last : Token} :
    navigator.set document (parents ++ [last]) (.value value) = .ok after ↔
      ∃ container target inner, navigator.get document parents = .ok container ∧
        navigator.target container last = .ok target ∧ container.store target value = .ok inner ∧
        navigator.replaceAt document parents inner.document = after := by
  have happly : ∀ container inner,
      navigator.applyLast (parents ++ [last]) last container (.set (.value value)) = .ok inner ↔
        ∃ target, navigator.target container last = .ok target ∧
          container.store target value = .ok inner := by
    intro container inner
    rw [applyLast]
    cases navigator.target container last with
    | error miss => simp
    | ok target =>
        -- a plain value is stored as it is, whether or not the target exists
        have hvalue : valueFor (parents ++ [last]) last container target (.value value) =
            .ok value := by
          cases target <;> rfl
        simp [hvalue, mapError_eq_ok_iff]
  simp only [Navigator.set, map_eq_ok_iff, write_concat_eq_ok_iff, happly]
  constructor
  · rintro ⟨_, ⟨container, inner, hcontainer, ⟨target, ht, hstore⟩, rfl⟩, rfl⟩
    exact ⟨container, target, inner, hcontainer, ht, hstore, rfl⟩
  · rintro ⟨container, target, inner, hcontainer, ht, hstore, rfl⟩
    exact ⟨_, ⟨container, inner, hcontainer, ⟨target, ht, hstore⟩, rfl⟩, rfl⟩

/-- **What is stored in a container other than a set** replaces the child that its token leads to,
or comes last if there is none. -/
theorem store_cases {target : Target} (hk : node.kind ≠ .set)
    (ht : navigator.target node token = .ok target) (hs : node.store target value = .ok written) :
    (∃ slot old, navigator.child node token = .ok (slot, old) ∧
        written.document = node.put slot value) ∨
      ((∃ miss, navigator.child node token = .error miss) ∧ node.kind ≠ .scalar ∧
        written.document.kind = node.kind ∧ written.document.parts = node.parts ++ [value]) := by
  cases hl : navigator.locate node token with
  | ok slot =>
      rw [Navigator.target, hl] at ht
      cases ht
      cases ho : node.at? slot with
      | none =>
          rw [Document.store_of_none hk ho] at hs
          cases hs
      | some old =>
          rw [Document.store_of_some hk ho] at hs
          cases hs
          exact Or.inl ⟨slot, old, child_eq_ok_iff.2 ⟨hl, ho⟩, rfl⟩
  | error miss =>
      have hmiss : navigator.child node token = .error miss := by rw [Navigator.child, hl]
      refine Or.inr ⟨⟨miss, hmiss⟩, ?_⟩
      -- nothing is there: a new entry or an item behind the last one
      rcases target_cases ht with ⟨slot, -, hok⟩ | ⟨entries, rfl, rfl, hc⟩ | ⟨items, rfl, rfl, -⟩ |
        ⟨members, rfl, -, -⟩
      · cases hl.symm.trans hok
      · cases hs
        have hname : token.text ∉ Entries.names entries := by
          rw [← Entries.contains_iff, hc]
          exact Bool.false_ne_true
        refine ⟨Kind.noConfusion, rfl, ?_⟩
        rw [Document.parts_mapping, Document.parts_mapping, Entries.insert_of_notMem hname,
          List.map_append]
        rfl
      · cases hs
        refine ⟨Kind.noConfusion, rfl, ?_⟩
        rw [Document.parts_sequence, Document.parts_sequence]
      · exact absurd rfl hk

/-- An exchange inside a container is an exchange in what the container stands in. -/
theorem add_eq_of_exchange {before after outer inner old new : Multiset Scalar}
    (houter : after + inner = before + outer) (hinner : outer + old = inner + new) :
    after + old = before + new := by
  refine add_right_cancel (b := inner) ?_
  calc after + old + inner = after + inner + old := add_right_comm _ _ _
    _ = before + outer + old := by rw [houter]
    _ = before + (outer + old) := add_assoc _ _ _
    _ = before + (inner + new) := by rw [hinner]
    _ = before + new + inner := by rw [add_comm inner, add_assoc]

/-- The scalars of the value that a path leads to; none if it leads nowhere. -/
def scalarsAt (navigator : Navigator) (document : Document) (path : Path) : Multiset Scalar :=
  match navigator.get document path with
  | .ok value => value.scalars
  | .error _ => 0

theorem scalarsAt_of_get {document : Document} {path : Path}
    (hg : navigator.get document path = .ok value) :
    navigator.scalarsAt document path = value.scalars := by
  rw [scalarsAt, hg]

/-- What a path leads to below a child is what it leads to in the child. -/
theorem scalarsAt_cons {child : Document} {slot : Slot}
    (hc : navigator.child node token = .ok (slot, child)) (rest : Path) :
    navigator.scalarsAt node (token :: rest) = navigator.scalarsAt child rest := by
  cases hg : navigator.get child rest with
  | ok value => rw [scalarsAt_of_get hg, scalarsAt_of_get ((get_cons_eq_ok_iff hc).2 hg)]
  | error error =>
      rw [scalarsAt, scalarsAt, hg]
      cases hn : navigator.get node (token :: rest) with
      | error other => rfl
      | ok value => cases hg.symm.trans ((get_cons_eq_ok_iff hc).1 hn)

/-- The value at a path is that of the last token in the container above. -/
theorem scalarsAt_concat {document container : Document} {parents : Path}
    (hg : navigator.get document parents = .ok container) (last : Token) :
    navigator.scalarsAt document (parents ++ [last]) =
      match navigator.child container last with
      | .ok (_, value) => value.scalars
      | .error _ => 0 := by
  induction parents generalizing document with
  | nil =>
      cases hg
      rw [List.nil_append]
      cases hc : navigator.child container last with
      | ok found => exact scalarsAt_cons hc []
      | error miss => simp only [scalarsAt, get, follow, hc]
  | cons token rest ih =>
      obtain ⟨slot, child, hc, hrest⟩ := get_cons_cases hg
      rw [List.cons_append, scalarsAt_cons hc]
      exact ih hrest

/-- A replacement by a value without sets brings no set into a document. -/
theorem setFree_replaceAt {document old : Document} {path : Path} (hs : document.setFree = true)
    (hg : navigator.get document path = .ok old) (hv : value.setFree = true) :
    (navigator.replaceAt document path value).setFree = true := by
  induction path generalizing document with
  | nil => exact hv
  | cons token rest ih =>
      obtain ⟨slot, child, hc, hrest⟩ := get_cons_cases hg
      have ho := (child_eq_ok_iff.1 hc).2
      obtain ⟨hnode, hparts⟩ := Document.everywhere_iff.1 hs
      rw [replaceAt_cons hc]
      refine Document.everywhere_iff.2 ⟨?_, fun part hm => ?_⟩
      · rw [Document.kind_put]
        exact hnode
      · rw [(Document.parts_put ho _).1] at hm
        rcases List.mem_or_eq_of_mem_set hm with hm | rfl
        · exact hparts part hm
        · exact ih (hparts child (Document.mem_parts_of_at? ho)) hrest

/-- **A replacement exchanges the scalars of two values.** -/
theorem scalars_replaceAt {document old : Document} {path : Path}
    (hg : navigator.get document path = .ok old) (value : Document) :
    (navigator.replaceAt document path value).scalars + old.scalars =
      document.scalars + value.scalars := by
  induction path generalizing document with
  | nil =>
      cases hg
      exact add_comm _ _
  | cons token rest ih =>
      obtain ⟨slot, child, hc, hrest⟩ := get_cons_cases hg
      have hput := Document.scalars_put (child_eq_ok_iff.1 hc).2
        (navigator.replaceAt child rest value)
      rw [replaceAt_cons hc]
      exact add_eq_of_exchange hput (ih hrest)

/-- **Taking a value out of a document takes away its scalars.** -/
theorem take_scalars_eq {document left : Document} {path : Path}
    (hd : document.namesDistinct = true)
    (h : navigator.take document path = .ok (value, left)) :
    left.scalars + value.scalars = document.scalars := by
  rcases List.eq_nil_or_concat path with rfl | ⟨parents, last, rfl⟩
  · cases h
  · rw [List.concat_eq_append] at h
    obtain ⟨container, slot, inner, hcontainer, -, htake, rfl, rfl⟩ := take_concat_eq_ok_iff.1 h
    have hnames := (Document.everywhere_iff.1 (everywhere_of_get hd hcontainer)).1
    obtain ⟨old, hprevious, hscalars⟩ := Document.take_scalars hnames htake
    rw [hprevious]
    have hbalance : inner.document.scalars + old.scalars = container.scalars + 0 := by
      rw [hscalars, add_zero]
    have htotal := add_eq_of_exchange (scalars_replaceAt hcontainer inner.document) hbalance
    rwa [add_zero] at htotal

/-- **Storing a value in a document without sets** adds its scalars and takes away those of the
value that its path led to. -/
theorem set_scalars_eq {document after : Document} {path : Path}
    (hs : document.setFree = true)
    (h : navigator.set document path (.value value) = .ok after) :
    after.scalars + navigator.scalarsAt document path = document.scalars + value.scalars := by
  rcases List.eq_nil_or_concat path with rfl | ⟨parents, last, rfl⟩
  · cases h
    exact add_comm _ _
  · rw [List.concat_eq_append] at h ⊢
    obtain ⟨container, target, inner, hcontainer, ht, hstore, rfl⟩ := set_concat_eq_ok_iff.1 h
    have hkind : container.kind ≠ .set :=
      bne_iff_ne.1 (Document.everywhere_iff.1 (everywhere_of_get hs hcontainer)).1
    refine add_eq_of_exchange (scalars_replaceAt hcontainer inner.document) ?_
    rw [scalarsAt_concat hcontainer]
    rcases store_cases hkind ht hstore with ⟨slot, old, hchild, hput⟩ | ⟨⟨miss, hmiss⟩, hnew⟩
    · rw [hchild, hput]
      exact Document.scalars_put (child_eq_ok_iff.1 hchild).2 value
    · obtain ⟨hscalar, hsame, hparts⟩ := hnew
      rw [hmiss, Document.scalars_of_kind hscalar, Document.scalars_of_kind (hsame ▸ hscalar), hparts]
      simp

/-- Taking a value out of a document without sets leaves a document without sets. -/
theorem setFree_of_take {document left : Document} {path : Path}
    (hd : document.namesDistinct = true) (hs : document.setFree = true)
    (h : navigator.take document path = .ok (value, left)) : left.setFree = true := by
  rcases List.eq_nil_or_concat path with rfl | ⟨parents, last, rfl⟩
  · cases h
  · rw [List.concat_eq_append] at h
    obtain ⟨container, slot, inner, hcontainer, -, htake, -, rfl⟩ := take_concat_eq_ok_iff.1 h
    have hnames := (Document.everywhere_iff.1 (everywhere_of_get hd hcontainer)).1
    obtain ⟨old, -, hkind, hparts⟩ := Document.take_parts hnames htake
    obtain ⟨hnode, hall⟩ := Document.everywhere_iff.1 (everywhere_of_get hs hcontainer)
    have hinner : inner.document.setFree = true := by
      refine Document.everywhere_iff.2 ⟨?_, fun part hm => hall part ?_⟩
      · rw [hkind]
        exact hnode
      · exact hparts.mem_iff.2 (List.mem_cons_of_mem _ hm)
    exact setFree_replaceAt hs hcontainer hinner

end Navigator

end PathDoc

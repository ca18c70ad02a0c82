import PathDoc.Proofs.Write.InPlace

/-!
# Attributes behind items

A navigator with accessors looks at the items of a node first, so a token that items resolve is
resolved alike whatever accessors there are (`Navigator.locate_of_itemsOnly`), and so is a whole
path (`Navigator.get_of_itemsOnly`). Where items do not resolve a token, an accessor may give a
position that the node does not have. The slot then holds nothing (`Document.at?_child_eq_none`):
reading and storing fail for it, and so does removing, which a record refuses anyway
(`Navigator.applyLast_empty`). The way to the node is the same for all of them
(`Navigator.descend_append`), so the operation fails wherever the token stands on the path, and no
document changes (`Navigator.attributes_behind_items`).
-/

set_option autoImplicit false

namespace PathDoc

/-- A position beyond the children of a node has no child. A leaf has none at all. -/
theorem Document.at?_child_eq_none {node : Document} {position : Nat}
    (h : node.length?.getD 0 ≤ position) : node.at? (.child position) = none := by
  cases node with
  | scalar leaf => rfl
  | mapping entries =>
      rw [at?, List.getElem?_eq_none h]
      rfl
  | sequence items => exact List.getElem?_eq_none h
  | set members => exact List.getElem?_eq_none h
  | record name fields =>
      rw [at?, List.getElem?_eq_none h]
      rfl

namespace Document

variable {node : Document} {position : Nat}

/-- Nothing is stored in a slot that holds nothing. -/
theorem store_empty (h : node.at? (.child position) = none) (value : Document) :
    node.store (.existing (.child position)) value = .error .stale := by
  cases node with
  | set members =>
      have hmember : members[position]? = none := h
      rw [store, hmember]
      split <;> rfl
  | _ =>
      rw [store, h]
      intro members index hset
      cases hset

/-- Nothing is removed from a slot that holds nothing; a record does not look at it. -/
theorem take_empty (h : node.at? (.child position) = none) :
    node.take (.child position) =
      .error
        (if node.kind = .record then .mismatch "cannot remove a record field" else .stale) := by
  cases node with
  | record name fields => rfl
  | _ =>
      rw [take, h]
      · rfl
      · intro name fields hrecord
        cases hrecord

end Document

namespace Navigator

variable {navigator : Navigator} {registry : Registry} {node : Document} {token : Token}
  {name : String} {position : Nat} {path : Path}

/-! ## Items come first -/

/-- **What items resolve is resolved alike with any accessors.** -/
theorem locate_of_itemsOnly {slot : Slot} (h : itemsOnly.locate node token = .ok slot) :
    navigator.locate node token = .ok slot := by
  cases token with
  | index i => cases node <;> exact h
  | key name =>
      cases node with
      | mapping entries =>
          rw [locate] at h ⊢
          split at h
          · rename_i hc
            rw [if_pos hc]
            exact h
          · cases h
      | _ => cases h

theorem child_of_itemsOnly {found : Slot × Document}
    (h : itemsOnly.child node token = .ok found) : navigator.child node token = .ok found := by
  rw [child] at h ⊢
  cases hl : itemsOnly.locate node token with
  | error miss =>
      rw [hl] at h
      cases h
  | ok slot =>
      rw [hl] at h
      rw [locate_of_itemsOnly hl]
      exact h

theorem follow_of_itemsOnly {tokens : List Token} {value : Document}
    (h : itemsOnly.follow path node tokens = .ok value) :
    navigator.follow path node tokens = .ok value := by
  induction tokens generalizing node with
  | nil => exact h
  | cons token rest ih =>
      rw [follow] at h ⊢
      cases hc : itemsOnly.child node token with
      | error miss =>
          rw [hc] at h
          cases h
      | ok found =>
          rw [hc] at h
          rw [child_of_itemsOnly hc]
          exact ih h

/-- **Accessors never hide an item.** -/
theorem get_of_itemsOnly {document value : Document} (h : itemsOnly.get document path = .ok value) :
    navigator.get document path = .ok value :=
  follow_of_itemsOnly h

/-! ## Slots that hold nothing -/

/-- A name that items do not resolve is left to the accessors. -/
theorem locate_attribute (hitems : itemsOnly.reaches node [.key name] = false)
    (hattribute : registry.position? node name = some position) :
    (Navigator.mk (some registry)).locate node (.key name) = .ok (.child position) := by
  have hexposed : ∀ what,
      (Navigator.mk (some registry)).attributeOr node name what = .ok (.child position) := by
    intro what
    rw [attributeOr, attribute?, Option.bind_some, hattribute]
    rfl
  cases node with
  | mapping entries =>
      -- an entry of this name would have resolved the token
      have habsent : Entries.contains entries name ≠ true := by
        intro hc
        obtain ⟨value, hvalue⟩ := Option.isSome_iff_exists.1 hc
        have hget : itemsOnly.get (.mapping entries) [.key name] = .ok value := by
          simp only [get, follow, child, locate, hc, if_true, Document.at?, hvalue]
        rw [reaches, hget] at hitems
        cases hitems
      rw [locate, if_neg habsent]
      exact hexposed "key"
  | _ => exact hexposed "attribute"

theorem child_empty (hlocate : navigator.locate node token = .ok (.child position))
    (hempty : node.at? (.child position) = none) : navigator.child node token = .error .stale := by
  rw [child, hlocate]
  simp only [hempty]

/-- The error of an operation at a token whose slot holds nothing. A removal right there is refused
by a record for what it is. -/
def emptySlotError (path : Path) (token : Token) (isLast : Bool) (node : Document)
    (operation : Operation) : Error :=
  if isLast = true ∧ node.kind = .record ∧ operation.storesValue = false then
    .typeMismatch ("cannot remove a record field at '" ++ path.text ++ "'")
  else .navigation path.text token.text "stale slot"

/-- **An operation on a slot that holds nothing fails.** -/
theorem applyLast_empty (hlocate : navigator.locate node token = .ok (.child position))
    (hempty : node.at? (.child position) = none) (path : Path) (operation : Operation) :
    navigator.applyLast path token node operation =
      .error (emptySlotError path token true node operation) := by
  cases operation with
  -- storing locates its target first, which is found since the accessor gives a position
  | set replacement =>
      have htarget : navigator.target node token = .ok (.existing (.child position)) := by
        rw [target, hlocate]
      rw [applyLast, htarget]
      cases replacement with
      | value value =>
          simp only [valueFor, Document.store_empty hempty]
          simp [emptySlotError, Operation.storesValue, Except.mapError, Miss.stale, Miss.toError]
      | compute f =>
          simp only [valueFor, hempty]
          simp [emptySlotError, Operation.storesValue, Miss.stale, Miss.toError]
  | remove =>
      rw [applyLast, hlocate]
      simp only [Document.take_empty hempty, emptySlotError, Operation.storesValue]
      split <;> simp_all [Except.mapError, Miss.stale, Miss.toError]

/-! ## The way to the slot -/

variable {document : Document} {above below : List Token}

theorem follow_append_of_ok (h : navigator.follow path document above = .ok node)
    (below : List Token) :
    navigator.follow path document (above ++ below) = navigator.follow path node below := by
  rw [follow_append, h]
  rfl

/-- **A write fails behind the tokens that lead to a node as it fails at the node.** -/
theorem descend_append {change : Document → Outcome Written} {error : Error}
    (h : navigator.follow path document above = .ok node)
    (hnode : navigator.descend path change node below = .error error) :
    navigator.descend path change document (above ++ below) = .error error := by
  rw [descend_eq_error_iff] at hnode ⊢
  rw [follow_append_of_ok h]
  exact hnode

/-- **A write over a slot that holds nothing fails**, at the slot or on the way through it. -/
theorem write_empty (hlocate : navigator.locate node token = .ok (.child position))
    (hempty : node.at? (.child position) = none) (habove : navigator.get document above = .ok node)
    (below : List Token) (operation : Operation) :
    let path := above ++ token :: below
    navigator.write document path operation =
      .error (emptySlotError path token below.isEmpty node operation) := by
  intro path
  have hfollow : navigator.follow path document above = .ok node := follow_path habove
  rcases List.eq_nil_or_concat below with rfl | ⟨between, last, rfl⟩
  · -- the token is the last one
    rw [write, List.getLast?_concat, List.dropLast_concat]
    let change := fun node => navigator.applyLast path token node operation
    have hnode : navigator.descend path change node [] =
        .error (emptySlotError path token true node operation) :=
      applyLast_empty hlocate hempty path operation
    have hlast := descend_append hfollow hnode
    rwa [List.append_nil] at hlast
  · -- the write would have to go through the slot
    have hpath : path = (above ++ token :: between) ++ [last] := by
      simp [path]
    rw [write, hpath, List.getLast?_concat, List.dropLast_concat, ← hpath]
    apply descend_append hfollow
    rw [descend, child_empty hlocate hempty]
    simp [emptySlotError, Miss.stale, Miss.toError]

/-- **Attributes stand behind items.** A path that items resolve has the same value with any
accessors. If an accessor gives a position that a node does not have for a name that no item of the
node answers to, every operation on a path over this name fails: reading and storing because nothing
is found there, removing too, unless the name is the last token and the node a record, which lets no
field be removed. A document that is changed in place, or through a batch, is left as it was. -/
theorem attributes_behind_items (registry : Registry) (document : Document) :
    let navigator : Navigator := ⟨some registry⟩
    (∀ path value, itemsOnly.get document path = .ok value →
      navigator.get document path = .ok value) ∧
    ∀ (above : Path) (name : String) (below : Path) (node : Document) (position : Nat),
      navigator.get document above = .ok node →
      itemsOnly.reaches node [.key name] = false →
      registry.position? node name = some position →
      node.length?.getD 0 ≤ position →
      let path := above ++ .key name :: below
      let missing := Error.navigation path.text name "stale slot"
      let removal := if below = [] ∧ node.kind = .record then
        Error.typeMismatch ("cannot remove a record field at '" ++ path.text ++ "'") else missing
      navigator.get document path = .error missing ∧
      (∀ replacement, navigator.set document path replacement = .error missing ∧
        navigator.editInPlace document (path, .set replacement) = (.error missing, document)) ∧
      navigator.remove document path = .error removal ∧
      navigator.editInPlace document (path, .remove) = (.error removal, document) ∧
      ∀ batch : Batch, batch.navigator = navigator → batch.document = document →
        (∀ replacement, batch.edit (path, .set replacement) = (.error missing, batch)) ∧
        batch.edit (path, .remove) = (.error removal, batch) := by
  intro navigator
  refine ⟨fun path value => get_of_itemsOnly, ?_⟩
  intro above name below node position habove hitems hattribute hbeyond path missing removal
  have hlocate := locate_attribute hitems hattribute
  have hempty := Document.at?_child_eq_none hbeyond
  -- every operation comes down to the write, which fails at the empty slot
  have hset : ∀ replacement,
      navigator.write document path (.set replacement) = .error missing := by
    intro replacement
    rw [write_empty hlocate hempty habove below]
    simp [emptySlotError, Operation.storesValue, missing, path, Token.text]
  have hremove : navigator.write document path .remove = .error removal := by
    rw [write_empty hlocate hempty habove below]
    simp [emptySlotError, Operation.storesValue, removal, missing, path, Token.text]
  refine ⟨?_, ?_, ?_, ?_, ?_⟩
  · -- reading fails where the walk enters the empty slot
    have hfollow : navigator.follow path document above = .ok node := follow_path habove
    rw [get, follow_append_of_ok hfollow, follow, child_empty hlocate hempty]
    rfl
  · intro replacement
    constructor
    · rw [Navigator.set, hset]
      rfl
    · rw [editInPlace_eq_perform, perform_eq, hset]
  · rw [remove, Navigator.take, hremove]
    rfl
  · rw [editInPlace_eq_perform, perform_eq, hremove]
  · rintro batch hnavigator rfl
    have hedit : ∀ operation error, navigator.write batch.document path operation = .error error →
        batch.edit (path, operation) = (.error error, batch) := by
      intro operation error hwrite
      rw [Batch.edit_eq_perform, Batch.perform_eq, hnavigator, hwrite]
    exact ⟨fun replacement => hedit _ _ (hset replacement), hedit _ _ hremove⟩

/-- An accessor that takes every name of a point for its eighth field. The field that is there is
read, the attribute that is not cannot be read, stored or removed, and nothing is stored below it.
-/
theorem attributes_behind_items_point :
    let registry := Registry.standard.registerRecord "Point" fun _ _ => some 7
    let navigator : Navigator := ⟨some registry⟩
    let document := Document.mapping [("p", .record "Point" [("x", .int 1)])]
    navigator.get document [.key "p", .index (-1)] = .ok (.int 1) ∧
      navigator.get document [.key "p", .key "x"] =
        .error (.navigation "p.x" "x" "stale slot") ∧
      navigator.editInPlace document ([.key "p", .key "x", .key "y"], .set (.value .null)) =
        (.error (.navigation "p.x.y" "x" "stale slot"), document) ∧
      navigator.editInPlace document ([.key "p", .key "x"], .remove) =
        (.error (.typeMismatch "cannot remove a record field at 'p.x'"), document) := by
  intro registry navigator document
  have h := attributes_behind_items registry document
  have hname := h.2 [.key "p"] "x" [] (.record "Point" [("x", .int 1)]) 7 rfl rfl rfl (by decide)
  have hbelow := h.2 [.key "p"] "x" [.key "y"] (.record "Point" [("x", .int 1)]) 7 rfl rfl rfl
    (by decide)
  exact ⟨h.1 _ _ rfl, hname.1, (hbelow.2.1 _).2, hname.2.2.2.1⟩

end Navigator

end PathDoc

import PathDoc.Find
import PathDoc.Proofs.Traversal.Subtrees
import PathDoc.Proofs.Write.Frame

/-!
# Writes one after the other

`Navigator.writeAll` carries out a list of writes, each on the document that the one before it left.
A write at a canonical address is a write in the child on the way (`attempt_child`), unless it lets
a set merge two members. As long as no write does, what a list of writes does to a container is what
the writes below each child do to that child (`writeAll_children`), in whatever order they come.
-/

set_option autoImplicit false

namespace PathDoc

/-- The slot of the child with a token. -/
def Token.slot : Token → Slot
  | .key name => .entry name
  | .index position => .child position.toNat

namespace Document

/-- Putting the child that is there into its slot changes nothing. -/
theorem put_self {node child : Document} {slot : Slot} (h : node.at? slot = some child) :
    node.put slot child = node := by
  cases node with
  | scalar value => cases slot <;> cases h
  | mapping entries =>
      cases slot with
      | entry name => rw [put, Entries.insert_get? h]
      | child i => rw [put, Entries.setAt_getElem? h]
  | sequence items =>
      cases slot with
      | entry name => cases h
      | child i =>
          obtain ⟨hi, rfl⟩ := List.getElem?_eq_some_iff.1 h
          rw [put, List.set_getElem_self]
  | set members =>
      cases slot with
      | entry name => cases h
      | child i =>
          obtain ⟨hi, rfl⟩ := List.getElem?_eq_some_iff.1 h
          rw [put, List.set_getElem_self]
  | record name fields =>
      cases slot with
      | entry name => cases h
      | child i => rw [put, Entries.setAt_getElem? h]

/-- The slot of a child has its token. -/
theorem slot_of_child? {node child : Document} {token : Token}
    (h : node.child? token = some child) :
    token.slot.token = token ∧ node.hasSlot token.slot = true ∧ node.at? token.slot = some child := by
  -- among items only a position from the start is the token of a child
  have hslot : token.slot.token = token ∧ node.hasSlot token.slot = true := by
    cases node with
    | scalar value => cases h
    | mapping entries =>
        cases token with
        | key name => exact ⟨rfl, rfl⟩
        | index position =>
            rw [child?_mapping_index] at h
            cases h
    | sequence items =>
        rw [child?_sequence] at h
        obtain ⟨i, hi, -⟩ := Option.bind_eq_some_iff.1 h
        rw [Token.position?_eq_some_iff.1 hi]
        exact ⟨rfl, rfl⟩
    | set members =>
        rw [child?_set] at h
        obtain ⟨i, hi, -⟩ := Option.bind_eq_some_iff.1 h
        rw [Token.position?_eq_some_iff.1 hi]
        exact ⟨rfl, rfl⟩
    | record name fields =>
        rw [child?_record] at h
        obtain ⟨i, hi, -⟩ := Option.bind_eq_some_iff.1 h
        rw [Token.position?_eq_some_iff.1 hi]
        exact ⟨rfl, rfl⟩
  refine ⟨hslot.1, hslot.2, ?_⟩
  rw [at?_eq_child? hslot.2, hslot.1, h]

/-- Whether a write goes to a member of a set and stores what another member equals. -/
def merges : Document → Path × Document → Bool
  | set members, ([.index position], value) => hasOther members position.toNat value
  | _, _ => false

theorem merges_of_kind {node : Document} (h : node.kind ≠ .set) (write : Path × Document) :
    node.merges write = false := by
  cases node with
  | set members => exact absurd rfl h
  | _ => rfl

/-- A value that is stored in an existing slot without a merge is put there. -/
theorem store_existing {node child value : Document} {token : Token}
    (hc : node.child? token = some child) (hm : node.merges ([token], value) = false) :
    node.store (.existing token.slot) value = .ok ⟨node.put token.slot value, some child, true⟩ := by
  obtain ⟨-, -, ha⟩ := slot_of_child? hc
  -- only a set looks at its other members before it stores
  by_cases hk : node.kind = .set
  · cases node with
    | set members =>
        cases token with
        | key name => cases ha
        | index position =>
            have hm' : hasOther members position.toNat value = false := hm
            have ha' : members[position.toNat]? = some child := ha
            simp only [Token.slot, store, hm', ha', put]
            rfl
    | _ => cases hk
  · exact store_of_some hk ha

end Document

namespace Miss

/-- Whether a path is missing does not depend on its text. -/
theorem isMissingPath_toError (miss : Miss) (p q : Path) (token : Token) :
    (miss.toError p token).isMissingPath = (miss.toError q token).isMissingPath := by
  cases miss <;> rfl

end Miss

namespace Navigator

variable {navigator : Navigator}

/-- The token of a child leads to that child. -/
theorem child_of_child? {node child : Document} {token : Token}
    (h : node.child? token = some child) :
    navigator.child node token = .ok (token.slot, child) := by
  obtain ⟨-, -, ha⟩ := Document.slot_of_child? h
  refine child_eq_ok_iff.2 ⟨?_, ha⟩
  -- a child stands in the slot that locating its token finds
  cases node with
  | scalar value => cases h
  | mapping entries =>
      cases token with
      | key name =>
          have hc : Entries.contains entries name = true := by
            rw [Document.child?_mapping_key] at h
            rw [Entries.contains, h]
            rfl
          exact if_pos hc
      | index position =>
          rw [Document.child?_mapping_index] at h
          cases h
  | sequence items =>
      rw [Document.child?_sequence] at h
      obtain ⟨i, hi, hv⟩ := Option.bind_eq_some_iff.1 h
      obtain ⟨hlt, -⟩ := List.getElem?_eq_some_iff.1 hv
      rw [Token.position?_eq_some_iff.1 hi, locate, positionOr, Position.within?_natCast hlt]
      rfl
  | set members =>
      rw [Document.child?_set] at h
      obtain ⟨i, hi, hv⟩ := Option.bind_eq_some_iff.1 h
      obtain ⟨hlt, -⟩ := List.getElem?_eq_some_iff.1 hv
      rw [Token.position?_eq_some_iff.1 hi, locate, positionOr, Position.within?_natCast hlt]
      rfl
  | record name fields =>
      rw [Document.child?_record] at h
      obtain ⟨i, hi, hv⟩ := Option.bind_eq_some_iff.1 h
      obtain ⟨hlt, -⟩ := List.getElem?_eq_some_iff.1 hv
      rw [List.length_map] at hlt
      rw [Token.position?_eq_some_iff.1 hi, locate, positionOr, Position.within?_natCast hlt]
      rfl

/-- **Every navigator finds the node at a canonical address.** -/
theorem follow_of_nodeAt? (full : Path) {node value : Document} {path : Path}
    (h : node.nodeAt? path = some value) : navigator.follow full node path = .ok value := by
  induction path generalizing node with
  | nil =>
      cases h
      rfl
  | cons token rest ih =>
      rw [Document.nodeAt?] at h
      obtain ⟨child, hc, h⟩ := Option.bind_eq_some_iff.1 h
      rw [follow, child_of_child? hc]
      exact ih h

/-! ## One write -/

/-- What a write comes to, up to the wording of its failure. -/
def setting (navigator : Navigator) (document : Document) (write : Path × Document) :
    Except Bool Document :=
  (navigator.set document write.1 (.value write.2)).mapError Error.isMissingPath

/-- Outcomes that are the same up to the wording of a failure. -/
theorem mapError_cases {α : Type} {a b : Outcome α}
    (h : a.mapError Error.isMissingPath = b.mapError Error.isMissingPath) :
    (∃ value, a = .ok value ∧ b = .ok value) ∨
      ∃ e e', a = .error e ∧ b = .error e' ∧ e.isMissingPath = e'.isMissingPath := by
  cases a with
  | ok value =>
      cases b with
      | ok other => exact Or.inl ⟨value, rfl, congrArg Except.ok (Except.ok.inj h).symm⟩
      | error e => cases h
  | error e =>
      cases b with
      | ok other => cases h
      | error e' => exact Or.inr ⟨e, e', rfl, rfl, Except.error.inj h⟩

/-- The value of a replacement fails to be there in the same way under every path. -/
theorem valueFor_path (p q : Path) (last : Token) (node : Document) (target : Target)
    (replacement : Replacement) :
    (valueFor p last node target replacement).mapError Error.isMissingPath =
      (valueFor q last node target replacement).mapError Error.isMissingPath := by
  cases replacement with
  | value value => cases target <;> rfl
  | compute f =>
      cases target with
      | existing slot =>
          rw [valueFor, valueFor]
          cases node.at? slot <;> rfl
      | insert name => rfl
      | append => rfl

/-- The last step of a write fails in the same way under every path. -/
theorem applyLast_path (p q : Path) (last : Token) (node : Document) (operation : Operation) :
    (navigator.applyLast p last node operation).mapError Error.isMissingPath =
      (navigator.applyLast q last node operation).mapError Error.isMissingPath := by
  -- the two errors name different paths and say the same about them
  have hmiss : ∀ result : Except Miss Written,
      (result.mapError (·.toError p last)).mapError Error.isMissingPath =
        (result.mapError (·.toError q last)).mapError Error.isMissingPath := by
    intro result
    cases result with
    | error miss => exact congrArg Except.error (miss.isMissingPath_toError p q last)
    | ok written => rfl
  cases operation with
  | set replacement =>
      rw [applyLast, applyLast]
      cases navigator.target node last with
      | error miss => exact congrArg Except.error (miss.isMissingPath_toError p q last)
      | ok target =>
          rcases mapError_cases (valueFor_path p q last node target replacement) with
            ⟨value, hp, hq⟩ | ⟨e, e', hp, hq, he⟩
          · simp only [hp, hq]
            exact hmiss _
          · simp only [hp, hq]
            exact congrArg Except.error he
  | remove =>
      rw [applyLast, applyLast]
      cases navigator.locate node last with
      | error miss => exact congrArg Except.error (miss.isMissingPath_toError p q last)
      | ok slot => exact hmiss _

/-- A walk with an operation at its end fails in the same way under every path. -/
theorem descend_path (p q : Path) (last : Token) (node : Document) (operation : Operation)
    (tokens : List Token) :
    (navigator.descend p (fun node => navigator.applyLast p last node operation)
        node tokens).mapError Error.isMissingPath =
      (navigator.descend q (fun node => navigator.applyLast q last node operation)
        node tokens).mapError Error.isMissingPath := by
  -- the path is carried along for the error only, and the error is reduced to its kind
  induction tokens generalizing node with
  | nil => exact applyLast_path p q last node operation
  | cons token rest ih =>
      rw [descend, descend]
      split
      · rename_i miss hm
        exact congrArg Except.error (miss.isMissingPath_toError p q token)
      · rename_i slot child hc
        rw [mapError_map, mapError_map, ih child]

/-- **An operation below a child is an operation in the child**, up to the wording of a failure. -/
theorem write_child {node child : Document} {token : Token} {slot : Slot} {path : Path}
    (hc : navigator.child node token = .ok (slot, child)) (hp : path ≠ []) (operation : Operation) :
    (navigator.write node (token :: path) operation).mapError Error.isMissingPath =
      ((navigator.write child path operation).map fun written =>
        { written with document := node.put slot written.document }).mapError
          Error.isMissingPath := by
  obtain ⟨parents, last, rfl⟩ := (List.eq_nil_or_concat path).resolve_left hp
  rw [List.concat_eq_append]
  have hlast : (token :: (parents ++ [last])).getLast? = some last := by
    rw [← List.cons_append, List.getLast?_concat]
  have hdrop : (token :: (parents ++ [last])).dropLast = token :: parents := by
    rw [← List.cons_append, List.dropLast_concat]
  rw [write, hlast, hdrop, write, List.getLast?_concat, List.dropLast_concat]
  simp only [descend, hc]
  rw [mapError_map, mapError_map, descend_path (token :: (parents ++ [last])) (parents ++ [last])]

/-- **A write below a child is a write in the child.** -/
theorem setting_child {node child value : Document} {token : Token} {path : Path}
    (hc : node.child? token = some child) (hm : node.merges (token :: path, value) = false) :
    navigator.setting node (token :: path, value) =
      (navigator.setting child (path, value)).map (node.put token.slot) := by
  have hchild : navigator.child node token = .ok (token.slot, child) := child_of_child? hc
  -- a write of one token is made here, a longer one in the child
  by_cases hp : path = []
  · subst hp
    have htarget : navigator.target node token = .ok (.existing token.slot) := by
      rw [target, (child_eq_ok_iff.1 hchild).1]
    have hwrite : navigator.write node [token] (.set (.value value)) =
        .ok ⟨node.put token.slot value, some child, true⟩ := by
      change navigator.applyLast [token] token node (.set (.value value)) = _
      unfold applyLast
      rw [htarget]
      unfold valueFor
      simp only [Document.store_existing hc hm]
      rfl
    rw [setting, setting, Navigator.set, hwrite]
    rfl
  · rw [setting, setting, Navigator.set, Navigator.set, mapError_map, mapError_map,
      write_child hchild hp, mapError_map]
    cases (navigator.write child path (.set (.value value))).mapError Error.isMissingPath with
    | error missing => rfl
    | ok written => rfl

/-- The document after a write that may be passed over, or nothing if the write fails. -/
def attempt (navigator : Navigator) (skipMissing : Bool) (document : Document)
    (write : Path × Document) : Option Document :=
  match navigator.setting document write with
  | .ok document => some document
  | .error missing => if skipMissing && missing then some document else none

variable {skipMissing : Bool}

/-- A write to the root replaces the document. -/
theorem attempt_root (document value : Document) :
    navigator.attempt skipMissing document ([], value) = some value := rfl

theorem attempt_child {node child value : Document} {token : Token} {path : Path}
    (hc : node.child? token = some child) (hm : node.merges (token :: path, value) = false) :
    navigator.attempt skipMissing node (token :: path, value) =
      (navigator.attempt skipMissing child (path, value)).map (node.put token.slot) := by
  obtain ⟨-, -, ha⟩ := Document.slot_of_child? hc
  rw [attempt, attempt, setting_child hc hm]
  cases navigator.setting child (path, value) with
  | ok written => rfl
  | error missing =>
      -- a write that is passed over in the child puts the same child back
      cases hskip : skipMissing && missing with
      | true => simp [Except.map, hskip, Document.put_self ha]
      | false => simp [Except.map, hskip]

/-! ## Many writes -/

/-- The document after some writes, or nothing if one of them fails. -/
def writeAll (navigator : Navigator) (skipMissing : Bool) (document : Document)
    (writes : List (Path × Document)) : Option Document :=
  writes.foldlM (navigator.attempt skipMissing) document

@[simp] theorem writeAll_nil (document : Document) :
    navigator.writeAll skipMissing document [] = some document := rfl

@[simp] theorem writeAll_cons (document : Document) (write : Path × Document)
    (rest : List (Path × Document)) :
    navigator.writeAll skipMissing document (write :: rest) =
      (navigator.attempt skipMissing document write).bind fun document =>
        navigator.writeAll skipMissing document rest := rfl

theorem writeAll_append (document : Document) (a b : List (Path × Document)) :
    navigator.writeAll skipMissing document (a ++ b) =
      (navigator.writeAll skipMissing document a).bind fun document =>
        navigator.writeAll skipMissing document b := by
  rw [writeAll, List.foldlM_append]
  rfl

/-- **The writes of a batch, without its record.** -/
theorem writeEach_document (value : Path × Document → Document) (batch : Batch)
    (items : List (Path × Document)) :
    (Batch.writeEach skipMissing
        (fun batch (item : Path × Document) => batch.set item.1 (.value (value item)))
        batch items).toOption.map Batch.document =
      batch.navigator.writeAll skipMissing batch.document
        (items.map fun item => (item.1, value item)) := by
  induction items generalizing batch with
  | nil => rfl
  | cons item rest ih =>
      rw [Batch.writeEach, List.map_cons, writeAll_cons, attempt, setting, Navigator.set, Batch.set]
      cases batch.navigator.write batch.document item.1 (.set (.value (value item))) with
      | ok effect => exact ih (batch.record item.1 effect true)
      | error error =>
          simp only [Except.map, Except.mapError]
          split
          · rw [ih batch]
            rfl
          · rfl

/-! ## Writes below the children of a container -/

/-- Whether no write of a list lets the root merge two members. -/
def Unmerged (navigator : Navigator) (skipMissing : Bool) (document : Document)
    (writes : List (Path × Document)) : Prop :=
  ∀ before write after, writes = before ++ write :: after → ∀ state,
    navigator.writeAll skipMissing document before = some state → state.merges write = false

theorem Unmerged.tail {document next : Document} {write : Path × Document}
    {rest : List (Path × Document)}
    (h : navigator.Unmerged skipMissing document (write :: rest))
    (hw : navigator.attempt skipMissing document write = some next) :
    navigator.Unmerged skipMissing next rest := by
  rintro before other after rfl state hs
  refine h (write :: before) other after rfl state ?_
  rw [writeAll_cons, hw]
  exact hs

theorem Unmerged.cons {document : Document} {write : Path × Document}
    {rest : List (Path × Document)} (hm : document.merges write = false)
    (h : ∀ next, navigator.attempt skipMissing document write = some next →
      navigator.Unmerged skipMissing next rest) :
    navigator.Unmerged skipMissing document (write :: rest) := by
  intro before other after he state hs
  -- the write is the first one or one of the rest, in the state that the first one left
  cases before with
  | nil =>
      cases he
      cases hs
      exact hm
  | cons first before =>
      cases he
      rw [writeAll_cons] at hs
      obtain ⟨next, hnext, hs⟩ := Option.bind_eq_some_iff.1 hs
      exact h next hnext before other after rfl state hs

theorem under_cons (token first : Token) (path : Path) (value : Document)
    (rest : List (Path × Document)) :
    Traversal.under token ((first :: path, value) :: rest) =
      if first = token then (path, value) :: Traversal.under token rest
      else Traversal.under token rest := by
  rw [Traversal.under, List.filter_cons]
  by_cases h : first = token
  · simp [Traversal.startsAt, h, Traversal.under]
  · simp [Traversal.startsAt, h, Traversal.under]

/-- Whether every write goes to a child of a container or below one. -/
def BelowChildren (node : Document) (writes : List (Path × Document)) : Prop :=
  ∀ write ∈ writes, ∃ token child path,
    node.child? token = some child ∧ write.1 = token :: path

/-- The children of a container before and after some writes below them. -/
structure ChildrenWritten (navigator : Navigator) (skipMissing : Bool) (a b : Document)
    (writes : List (Path × Document)) : Prop where
  outline : b.outline = a.outline
  children : ∀ token child, a.child? token = some child →
    navigator.writeAll skipMissing child (Traversal.under token writes) = b.child? token

/-- One write below a child changes that child only. -/
theorem attempt_below {node child child' value : Document} {token : Token} {path : Path}
    (hc : node.child? token = some child) (hm : node.merges (token :: path, value) = false)
    (hw : navigator.attempt skipMissing child (path, value) = some child') :
    ∃ next, navigator.attempt skipMissing node (token :: path, value) = some next ∧
      next.outline = node.outline ∧ Document.ChangedAt node next token child' := by
  obtain ⟨htoken, hslot, ha⟩ := Document.slot_of_child? hc
  obtain ⟨hchanged, houtline⟩ := Document.put_changedAt hslot ha child'
  rw [htoken] at hchanged
  exact ⟨_, by rw [attempt_child hc hm, hw]; rfl, houtline, hchanged⟩

/-- The other way round: a write below a child that succeeds is a write in the child. -/
theorem attempt_below_inv {node child next value : Document} {token : Token} {path : Path}
    (hc : node.child? token = some child) (hm : node.merges (token :: path, value) = false)
    (hw : navigator.attempt skipMissing node (token :: path, value) = some next) :
    ∃ child', navigator.attempt skipMissing child (path, value) = some child' ∧
      next.outline = node.outline ∧ Document.ChangedAt node next token child' := by
  have hchild := hw
  rw [attempt_child hc hm] at hchild
  obtain ⟨child', hc', -⟩ := Option.map_eq_some_iff.1 hchild
  obtain ⟨next', hnext, houtline, hchanged⟩ := attempt_below hc hm hc'
  cases hw.symm.trans hnext
  exact ⟨child', hc', houtline, hchanged⟩

theorem BelowChildren.tail {node next value : Document} {write : Path × Document} {token : Token}
    {rest : List (Path × Document)} (h : BelowChildren node (write :: rest))
    (hn : Document.ChangedAt node next token value) : BelowChildren next rest := by
  intro other hm
  obtain ⟨first, child, path, hchild, hpath⟩ := h other (List.mem_cons_of_mem _ hm)
  by_cases hf : first = token
  · exact ⟨first, value, path, hf ▸ hn.value, hpath⟩
  · exact ⟨first, child, path, (hn.others first hf).trans hchild, hpath⟩

/-- Outside sets no write merges anything. -/
theorem unmerged_of_kind {node : Document} {writes : List (Path × Document)}
    (hb : BelowChildren node writes) (hk : node.kind ≠ .set) :
    navigator.Unmerged skipMissing node writes := by
  induction writes generalizing node with
  | nil =>
      intro before write after he
      cases before <;> cases he
  | cons write rest ih =>
      obtain ⟨⟨token, child, path, hc, hpath⟩, -⟩ := List.forall_mem_cons.1 hb
      obtain ⟨_, value⟩ := write
      cases hpath
      have hmerge := Document.merges_of_kind hk (token :: path, value)
      apply Unmerged.cons hmerge
      intro next hnext
      obtain ⟨child', -, houtline, hchanged⟩ := attempt_below_inv hc hmerge hnext
      refine ih (hb.tail hchanged) ?_
      rwa [Document.kind_of_outline houtline]

/-- **Writes below the children change each child by the writes below it.** -/
theorem writeAll_children {node result : Document} {writes : List (Path × Document)}
    (hb : BelowChildren node writes) (hm : navigator.Unmerged skipMissing node writes)
    (hw : navigator.writeAll skipMissing node writes = some result) :
    navigator.ChildrenWritten skipMissing node result writes := by
  -- the first write changes the child it goes to; the others are as before, and so are the writes
  -- below them
  induction writes generalizing node with
  | nil =>
      cases hw
      exact ⟨rfl, fun token child hc => hc.symm⟩
  | cons write rest ih =>
      obtain ⟨⟨token, child, path, hc, hpath⟩, -⟩ := List.forall_mem_cons.1 hb
      obtain ⟨_, value⟩ := write
      cases hpath
      have hmerge := hm [] _ rest rfl node rfl
      rw [writeAll_cons] at hw
      obtain ⟨next, hnext, hw⟩ := Option.bind_eq_some_iff.1 hw
      obtain ⟨child', hc', houtline, hchanged⟩ := attempt_below_inv hc hmerge hnext
      have h := ih (hb.tail hchanged) (hm.tail hnext) hw
      refine ⟨h.outline.trans houtline, fun other first hf => ?_⟩
      rw [under_cons]
      by_cases he : token = other
      · subst he
        rw [hc] at hf
        cases hf
        rw [if_pos rfl, writeAll_cons, hc']
        exact h.children token child' hchanged.value
      · rw [if_neg he]
        exact h.children other first ((hchanged.others other (Ne.symm he)).trans hf)

/-- Writes below the children succeed if those below each child do. -/
theorem exists_writeAll {node : Document} {writes : List (Path × Document)}
    (hb : BelowChildren node writes) (hm : navigator.Unmerged skipMissing node writes)
    (hw : ∀ token child, node.child? token = some child → ∃ child',
      navigator.writeAll skipMissing child (Traversal.under token writes) = some child') :
    ∃ result, navigator.writeAll skipMissing node writes = some result := by
  induction writes generalizing node with
  | nil => exact ⟨node, rfl⟩
  | cons write rest ih =>
      obtain ⟨⟨token, child, path, hc, hpath⟩, -⟩ := List.forall_mem_cons.1 hb
      obtain ⟨_, value⟩ := write
      cases hpath
      -- the first write below this child succeeds, because all of them do in the child alone
      have hmerge := hm [] _ rest rfl node rfl
      obtain ⟨last, hlast⟩ := hw token child hc
      rw [under_cons, if_pos rfl, writeAll_cons] at hlast
      obtain ⟨child', hc', hlast⟩ := Option.bind_eq_some_iff.1 hlast
      obtain ⟨next, hnext, -, hchanged⟩ := attempt_below hc hmerge hc'
      have h : ∃ result, navigator.writeAll skipMissing next rest = some result := by
        apply ih (hb.tail hchanged) (hm.tail hnext)
        intro other first hf
        by_cases he : token = other
        · subst he
          rw [hchanged.value] at hf
          cases hf
          exact ⟨last, hlast⟩
        · rw [hchanged.others other (Ne.symm he)] at hf
          obtain ⟨first', hf'⟩ := hw other first hf
          rw [under_cons, if_neg he] at hf'
          exact ⟨first', hf'⟩
      obtain ⟨result, hr⟩ := h
      exact ⟨result, by rw [writeAll_cons, hnext]; exact hr⟩

end Navigator

end PathDoc

import PathDoc.Proofs.Document.Entries
import PathDoc.Proofs.Write.TakenOut
import PathDoc.Proofs.Write.Uniqueness

/-!
# Replacing the value at a path

`Navigator.replaceAt` puts a value in place of the one that a path leads to, whatever stands around
it. Writing to a path that leads to a value is this replacement, unless the value stands in a set
and another member equals the new one (`set_eq_replaceAt`). It changes one node, at the canonical
address of the path (`replacedAt_replaceAt`), which is its location unless accessors lead to entries
of mappings by their positions (`IsStandard.address_eq_location`). A navigator that finds attributes
by the outline of a node comes back to the new value (`get_replaceAt`), so that a second replacement
undoes the first one (`set_replaceAt`).
-/

set_option autoImplicit false

namespace PathDoc

/-! ## Slots and tokens -/

namespace Document

/-- The token of the child in a slot of a node: its name in a mapping, its position elsewhere. -/
def tokenAt : Document → Slot → Token
  | mapping entries, .child i =>
    match entries[i]? with
    | some entry => .key entry.1
    | none => .index i
  | _, slot => slot.token

variable {node old : Document} {slot : Slot}

/-- A slot of the node itself has the token of its child. -/
theorem tokenAt_of_hasSlot (hs : node.hasSlot slot = true) : node.tokenAt slot = slot.token := by
  cases node with
  | mapping entries =>
      cases slot with
      | entry name => rfl
      | child i => cases hs
  | _ => rfl

/-- Every slot with a child in it is one of the node itself, under another name perhaps. -/
theorem exists_hasSlot (hd : node.hasDistinctNames = true) (ho : node.at? slot = some old) :
    ∃ other, node.hasSlot other = true ∧ node.tokenAt slot = other.token ∧
      node.at? other = some old ∧ ∀ value, node.put slot value = node.put other value := by
  cases hs : node.hasSlot slot with
  | true =>
      exact ⟨slot, hs, tokenAt_of_hasSlot hs, ho, fun _ => rfl⟩
  | false =>
      -- only a position in a mapping is not a slot of the node itself
      cases node with
      | mapping entries =>
          cases slot with
          | entry name => cases hs
          | child i =>
              obtain ⟨⟨name, value⟩, he, rfl⟩ := Option.map_eq_some_iff.1 ho
              have hn : (Entries.names entries).Nodup := of_decide_eq_true hd
              refine ⟨.entry name, rfl, ?_, ?_, fun value => ?_⟩
              · rw [tokenAt, he]
                rfl
              · exact Entries.get?_of_mem hn (List.mem_of_getElem? he)
              · rw [put, put, Entries.setAt_eq_insert hn he]
      | scalar value => cases slot <;> cases hs
      | sequence items => cases slot <;> cases hs
      | set members => cases slot <;> cases hs
      | record name fields => cases slot <;> cases hs

/-- **Putting a value into any slot that is taken changes the child in it.** -/
theorem put_changedAt_tokenAt (hd : node.hasDistinctNames = true) (ho : node.at? slot = some old)
    (value : Document) :
    node.child? (node.tokenAt slot) = some old ∧
      ChangedAt node (node.put slot value) (node.tokenAt slot) value ∧
      (node.put slot value).tokens = node.tokens := by
  obtain ⟨other, hs, htoken, hat, hput⟩ := exists_hasSlot hd ho
  obtain ⟨hchanged, houtline⟩ := put_changedAt hs hat value
  rw [htoken, hput, ← at?_eq_child? hs]
  exact ⟨hat, hchanged, congrArg Prod.snd houtline⟩

/-- Putting a value into a slot that is taken keeps the outline. -/
theorem outline_put (ho : node.at? slot = some old) (value : Document) :
    (node.put slot value).outline = node.outline := by
  cases hs : node.hasSlot slot with
  | true => exact (put_changedAt hs ho value).2
  | false =>
      cases node with
      | mapping entries =>
          cases slot with
          | entry name => cases hs
          | child i => rw [put, outline_mapping_iff, Entries.names_setAt]
      | scalar value => cases slot <;> cases hs
      | sequence items => cases slot <;> cases hs
      | set members => cases slot <;> cases hs
      | record name fields => cases slot <;> cases hs

/-- The value that was put into a slot is there. -/
theorem at?_put (ho : node.at? slot = some old) (value : Document) :
    -- a slot that holds a value is one of the node's own kind, the others hold nothing
    (node.put slot value).at? slot = some value := by
  cases node with
  | scalar v => cases slot <;> cases ho
  | mapping entries =>
      cases slot with
      | entry name => rw [put, at?, Entries.get?_insert, if_pos rfl]
      | child i =>
          obtain ⟨entry, he, -⟩ := Option.map_eq_some_iff.1 ho
          simp [put, at?, Entries.setAt, he]
  | sequence items =>
      cases slot with
      | entry name => cases ho
      | child i =>
          obtain ⟨hi, -⟩ := List.getElem?_eq_some_iff.1 ho
          simp [put, at?, hi]
  | set members =>
      cases slot with
      | entry name => cases ho
      | child i =>
          obtain ⟨hi, -⟩ := List.getElem?_eq_some_iff.1 ho
          simp [put, at?, hi]
  | record name fields =>
      cases slot with
      | entry name => cases ho
      | child i =>
          obtain ⟨field, hf, -⟩ := Option.map_eq_some_iff.1 ho
          simp [put, at?, Entries.setAt, hf]

/-- Of two values that are put into one slot the second one stays. -/
theorem put_put (node : Document) (slot : Slot) (a b : Document) :
    (node.put slot a).put slot b = node.put slot b := by
  have hsetAt : ∀ (entries : List (String × Document)) (i : Nat),
      Entries.setAt (Entries.setAt entries i a) i b = Entries.setAt entries i b := by
    intro entries i
    rw [Entries.setAt, Entries.setAt, List.modify_modify_eq]
    rfl
  cases node with
  | scalar v => cases slot <;> rfl
  | mapping entries =>
      cases slot with
      | entry name => rw [put, put, put, Entries.insert_insert]
      | child i => rw [put, put, put, hsetAt]
  | sequence items =>
      cases slot with
      | entry name => rfl
      | child i => rw [put, put, put, List.set_set]
  | set members =>
      cases slot with
      | entry name => rfl
      | child i => rw [put, put, put, List.set_set]
  | record name fields =>
      cases slot with
      | entry name => rfl
      | child i => rw [put, put, put, hsetAt]

/-- Which values have a twin does not depend on the member itself. -/
theorem hasTwin_put (node : Document) (slot : Slot) (a value : Document) :
    (node.put slot a).hasTwin slot value = node.hasTwin slot value := by
  cases node with
  | set members =>
      cases slot with
      | entry name => rfl
      | child i => rw [put, hasTwin, hasTwin, hasOther, hasOther, List.eraseIdx_set_eq]
  | scalar v => cases slot <;> rfl
  | mapping entries => cases slot <;> rfl
  | sequence items => cases slot <;> rfl
  | record name fields => cases slot <;> rfl

/-- A value without a twin takes the place of the child in a slot. -/
theorem store_of_hasTwin_eq_false {value : Document} (ho : node.at? slot = some old)
    (ht : node.hasTwin slot value = false) :
    node.store (.existing slot) value = .ok ⟨node.put slot value, some old, true⟩ := by
  cases node with
  | set members =>
      cases slot with
      | entry name => cases ho
      | child i =>
          have hi : members[i]? = some old := ho
          have hother : hasOther members i value = false := ht
          simp [store, put, hi, hother]
  | _ => exact store_of_some Kind.noConfusion ho

/-- **A document and the same document with another node at one address.** -/
structure ReplacedAt (a b : Document) (address : Path) (old new : Document) : Prop where
  /-- The node that is replaced. -/
  before : a.nodeAt? address = some old
  /-- The node that takes its place. -/
  after : b.nodeAt? address = some new
  /-- The containers above keep their kinds, their names and the order of their children. -/
  outlines : ∀ q, q <+: address → q ≠ address →
    (b.nodeAt? q).map outline = (a.nodeAt? q).map outline
  /-- What lies neither above nor at nor below the address is as before. -/
  others : ∀ q, ¬ q <+: address → ¬ address <+: q → b.nodeAt? q = a.nodeAt? q

/-- Where there is a node already, a change at its address replaces it. -/
theorem Frame.replacedAt {a b old new : Document} {address : Path} (h : Frame a b address new)
    (ho : a.nodeAt? address = some old) : ReplacedAt a b address old new where
  before := ho
  after := h.value
  outlines := h.outlines ho
  others := h.others

end Document

namespace Navigator

open Document (ReplacedAt)

variable {navigator : Navigator}

/-! ## Addresses and twins -/

/-- The canonical address of the node that a path leads to, also where an accessor leads to an entry
of a mapping by its position. -/
def address (navigator : Navigator) : Document → Path → Option Path
  | _, [] => some []
  | node, token :: rest =>
    match navigator.child node token with
    | .error _ => none
    | .ok (slot, child) => (navigator.address child rest).map (node.tokenAt slot :: ·)

/-- Whether the value that a path leads to stands in a set and another member equals a value. -/
def hasTwinAt (navigator : Navigator) : Document → Path → Document → Bool
  | _, [], _ => false
  | node, token :: rest, value =>
    match navigator.child node token with
    | .error _ => false
    | .ok (slot, child) =>
      if rest = [] then node.hasTwin slot value else navigator.hasTwinAt child rest value

section

variable {node child old value : Document} {token : Token} {slot : Slot} {rest : Path}

theorem address_cons (hc : navigator.child node token = .ok (slot, child)) (rest : Path) :
    navigator.address node (token :: rest) =
      (navigator.address child rest).map (node.tokenAt slot :: ·) := by
  rw [address, hc]

/-- **With the standard accessors or none the address is the location**: each token leads to a slot
of the node itself. -/
theorem IsStandard.address_eq_location (hn : navigator.IsStandard) (document : Document)
    (path : Path) : navigator.address document path = navigator.location document path := by
  induction path generalizing document with
  | nil => rfl
  | cons token rest ih =>
      cases hc : navigator.child document token with
      | error miss => rw [address, location, hc]
      | ok found =>
          obtain ⟨slot, child⟩ := found
          have hs := hasSlot_of_locate hn (child_eq_ok_iff.1 hc).1
          rw [address_cons hc, location_cons_of_child hc, ih, Document.tokenAt_of_hasSlot hs]

theorem hasTwinAt_cons (hc : navigator.child node token = .ok (slot, child)) (rest : Path)
    (value : Document) :
    navigator.hasTwinAt node (token :: rest) value =
      if rest = [] then node.hasTwin slot value else navigator.hasTwinAt child rest value := by
  rw [hasTwinAt, hc]

/-- Replacing a value by itself changes nothing. -/
theorem replaceAt_self {document : Document} {path : Path}
    (hg : navigator.get document path = .ok old) : navigator.replaceAt document path old = document := by
  induction path generalizing document with
  | nil => exact (Except.ok.inj hg).symm
  | cons token rest ih =>
      obtain ⟨slot, child, hc, hrest⟩ := get_cons_cases hg
      rw [replaceAt_cons hc, ih hrest]
      exact Document.put_self (child_eq_ok_iff.1 hc).2

/-- **A replacement changes the node at one canonical address.** -/
theorem replacedAt_replaceAt {document : Document} {path : Path}
    (hd : document.namesDistinct = true) (hg : navigator.get document path = .ok old)
    (value : Document) :
    ∃ address, navigator.address document path = some address ∧
      ReplacedAt document (navigator.replaceAt document path value) address old value := by
  suffices h : ∃ address, navigator.address document path = some address ∧
      document.nodeAt? address = some old ∧
      Document.Frame document (navigator.replaceAt document path value) address value by
    obtain ⟨address, haddress, hnode, hframe⟩ := h
    exact ⟨address, haddress, hframe.replacedAt hnode⟩
  -- induction on the path; the frame of a child is put into the container
  induction path generalizing document with
  | nil =>
      cases hg
      exact ⟨[], rfl, rfl, Document.Frame.root _ value⟩
  | cons token rest ih =>
      obtain ⟨slot, child, hc, hrest⟩ := get_cons_cases hg
      have ho := (child_eq_ok_iff.1 hc).2
      obtain ⟨hnames, hparts⟩ := Document.everywhere_iff.1 hd
      obtain ⟨address, haddress, hnode, hframe⟩ :=
        ih (hparts child (Document.mem_parts_of_at? ho)) hrest
      obtain ⟨hbelow, hchanged, htokens⟩ := Document.put_changedAt_tokenAt hnames ho
        (navigator.replaceAt child rest value)
      rw [replaceAt_cons hc, address_cons hc, haddress]
      refine ⟨document.tokenAt slot :: address, rfl, ?_, .child hchanged htokens hbelow hframe⟩
      rw [Document.nodeAt?, hbelow]
      exact hnode

/-! ## Writing is replacing -/

/-- Outside sets no value has a twin. -/
theorem hasTwinAt_of_kind {document : Document} {path : Path}
    (hset : path ≠ [] → ∀ container, navigator.get document path.dropLast = .ok container →
      container.kind ≠ .set) (value : Document) :
    navigator.hasTwinAt document path value = false := by
  induction path generalizing document with
  | nil => rfl
  | cons token rest ih =>
      cases hc : navigator.child document token with
      | error miss => rw [hasTwinAt, hc]
      | ok found =>
          obtain ⟨slot, child⟩ := found
          rw [hasTwinAt_cons hc]
          split
          · rename_i hrest
            -- the last token: the condition says that the container itself is no set
            subst hrest
            have hkind := hset (List.cons_ne_nil _ _) document rfl
            cases document with
            | set members => exact absurd rfl hkind
            | _ => rfl
          · rename_i hrest
            -- any other token: the container of the last one is below the child
            refine ih fun _ container hcontainer => hset (List.cons_ne_nil _ _) container ?_
            rw [List.dropLast_cons_of_ne_nil hrest, get_cons_eq_ok_iff hc]
            exact hcontainer

/-- **Writing to a path that leads to a value replaces it**, unless the new value has a twin. -/
theorem set_eq_replaceAt {document : Document} {path : Path}
    (hg : navigator.get document path = .ok old)
    (ht : navigator.hasTwinAt document path value = false) :
    navigator.set document path (.value value) = .ok (navigator.replaceAt document path value) := by
  induction path generalizing document with
  | nil => rfl
  | cons token rest ih =>
      obtain ⟨slot, child, hc, hrest⟩ := get_cons_cases hg
      rw [hasTwinAt_cons hc] at ht
      rw [replaceAt_cons hc, Navigator.set]
      by_cases hnil : rest = []
      · subst hnil
        obtain ⟨hl, ho⟩ := child_eq_ok_iff.1 hc
        rw [if_pos rfl] at ht
        -- the slot exists, so a write to it stores and never appends
        have htarget : navigator.target document token = .ok (.existing slot) := by
          rw [target, hl]
        have hwrite : navigator.write document [token] (.set (.value value)) =
            .ok ⟨document.put slot value, some child, true⟩ := by
          change navigator.applyLast [token] token document (.set (.value value)) = _
          unfold applyLast
          rw [htarget]
          unfold valueFor
          simp only [Document.store_of_hasTwin_eq_false ho ht]
          rfl
        rw [hwrite]
        rfl
      · rw [if_neg hnil] at ht
        have hset := ih hrest ht
        rw [Navigator.set, map_eq_ok_iff] at hset
        obtain ⟨written, hw, he⟩ := hset
        rw [(write_cons_eq_ok_iff hc hnil).2 ⟨written, hw, rfl⟩, ← he]
        rfl

/-- **A write replaces the container of its last token.** -/
theorem write_concat_eq_ok_iff {document : Document} {parents : Path} {last : Token}
    {operation : Operation} {written : Written} :
    navigator.write document (parents ++ [last]) operation = .ok written ↔
      ∃ container inner, navigator.get document parents = .ok container ∧
        navigator.applyLast (parents ++ [last]) last container operation = .ok inner ∧
        { inner with document := navigator.replaceAt document parents inner.document } =
          written := by
  rw [write, List.getLast?_concat, List.dropLast_concat]
  exact descend_eq_ok_iff

/-! ## Coming back -/

/-- Whether attributes depend on the outline of a node only: on its kind, its names and the number
of its items. -/
def GoesByOutline (navigator : Navigator) : Prop :=
  ∀ a b : Document, a.outline = b.outline →
    ∀ name, navigator.attribute? a name = navigator.attribute? b name

/-- The standard accessors go by the outline, and so do none. -/
theorem IsStandard.goesByOutline (hn : navigator.IsStandard) : navigator.GoesByOutline :=
  fun _ _ h => attribute?_of_outline hn h

/-- A value in place of a child is found where the child was. -/
theorem GoesByOutline.child_put (hn : navigator.GoesByOutline)
    (hc : navigator.child node token = .ok (slot, child)) (value : Document) :
    navigator.child (node.put slot value) token = .ok (slot, value) := by
  obtain ⟨hl, ho⟩ := child_eq_ok_iff.1 hc
  have houtline := Document.outline_put ho value
  refine child_eq_ok_iff.2 ⟨?_, Document.at?_put ho value⟩
  rw [locate_of_attributes houtline (hn _ _ houtline), hl]

/-- **What replaced a value is found at its path.** -/
theorem get_replaceAt (hn : navigator.GoesByOutline) {document : Document} {path : Path}
    (hg : navigator.get document path = .ok old) (value : Document) :
    navigator.get (navigator.replaceAt document path value) path = .ok value := by
  induction path generalizing document with
  | nil => rfl
  | cons token rest ih =>
      obtain ⟨slot, child, hc, hrest⟩ := get_cons_cases hg
      rw [replaceAt_cons hc, get_cons_eq_ok_iff (hn.child_put hc _)]
      exact ih hrest

/-- Of two replacements at one path the second one counts. -/
theorem replaceAt_replaceAt (hn : navigator.GoesByOutline) (document : Document) (path : Path)
    (a b : Document) :
    navigator.replaceAt (navigator.replaceAt document path a) path b =
      navigator.replaceAt document path b := by
  induction path generalizing document with
  | nil => rfl
  | cons token rest ih =>
      cases hc : navigator.child document token with
      | error miss => simp only [replaceAt, hc]
      | ok found =>
          obtain ⟨slot, child⟩ := found
          rw [replaceAt_cons hc, replaceAt_cons (hn.child_put hc _), replaceAt_cons hc, ih,
            Document.put_put]

/-- Which values have a twin does not depend on the value they replace. -/
theorem hasTwinAt_replaceAt (hn : navigator.GoesByOutline) (document : Document) (path : Path)
    (a value : Document) :
    navigator.hasTwinAt (navigator.replaceAt document path a) path value =
      navigator.hasTwinAt document path value := by
  induction path generalizing document with
  | nil => rfl
  | cons token rest ih =>
      cases hc : navigator.child document token with
      | error miss => simp only [replaceAt, hc]
      | ok found =>
          obtain ⟨slot, child⟩ := found
          rw [replaceAt_cons hc, hasTwinAt_cons (hn.child_put hc _), hasTwinAt_cons hc, ih,
            Document.hasTwin_put]

/-- **After a replacement another value can be written to the same path**, as if it had been the
first one. -/
theorem set_replaceAt (hn : navigator.GoesByOutline) {document : Document} {path : Path}
    (hg : navigator.get document path = .ok old)
    (ht : navigator.hasTwinAt document path value = false) (other : Document) :
    navigator.set (navigator.replaceAt document path other) path (.value value) =
      .ok (navigator.replaceAt document path value) := by
  rw [set_eq_replaceAt (get_replaceAt hn hg other), replaceAt_replaceAt hn]
  rw [hasTwinAt_replaceAt hn, ht]

end

end Navigator

end PathDoc

import PathDoc.Proofs.Document.Addresses
import PathDoc.Proofs.Write.Descend

/-!
# What a write changes and what it leaves alone

A write changes one child of one container and rebuilds the containers above it. `ChangedAt` says
what one such change does to a container: it keeps its marker and its other children, and the child
is where it was or at the end. A navigator finds the changed child under the token that was written
(`child_put`, `child_store`), because the slot of a token depends on the outline of a node only
(`locate_of_outline`). By induction on the path the whole write changes nothing but what lies at or
below one address (`writtenAt_of_descend`), and reading at the same path gives the value back
(`get_set`).
-/

set_option autoImplicit false

namespace PathDoc

/-- The token of the child in a slot. -/
def Slot.token : Slot → Token
  | .entry name => .key name
  | .child i => .index i

theorem Token.position?_eq_some_iff {token : Token} {i : Nat} :
    token.position? = some i ↔ token = .index i := by
  rcases token with (j | j) | name
  · simp only [Token.position?, Option.some.injEq, Token.index.injEq, Int.ofNat_eq_natCast]
    omega
  · simp [Token.position?]
  · simp [Token.position?]

namespace Document

/-! ## Changing one child -/

/-- A container and the same container with a value at a token, in place of the child there or as a
new last child. -/
structure ChangedAt (a b : Document) (token : Token) (value : Document) : Prop where
  marker : Marker.ofDocument? b = Marker.ofDocument? a
  tokens : b.tokens = a.tokens ∨ (token ∉ a.tokens ∧ b.tokens = a.tokens ++ [token])
  value : b.child? token = some value
  others : ∀ other, other ≠ token → b.child? other = a.child? other

/-- Whether a slot is one of the node itself: a name in a mapping, a position elsewhere. -/
def hasSlot : Document → Slot → Bool
  | mapping _, .child _ => false
  | _, _ => true

theorem at?_eq_child? {node : Document} {slot : Slot} (h : node.hasSlot slot = true) :
    node.at? slot = node.child? slot.token := by
  cases node with
  | scalar value => cases slot <;> rfl
  | mapping entries =>
      cases slot with
      | entry name => exact (child?_mapping_key entries name).symm
      | child i => cases h
  | sequence items => cases slot <;> simp [at?, Slot.token, Token.position?]
  | set members => cases slot <;> simp [at?, Slot.token, Token.position?]
  | record name fields => cases slot <;> simp [at?, Slot.token, Token.position?]

/-- The items besides the one that is replaced. -/
theorem bind_position_set {token : Token} {i : Nat} (h : token ≠ .index i) (items : List Document)
    (value : Document) :
    token.position?.bind ((items.set i value)[·]?) = token.position?.bind (items[·]?) := by
  cases hp : token.position? with
  | none => rfl
  | some j =>
      have hne : i ≠ j := fun he => h (he ▸ Token.position?_eq_some_iff.1 hp)
      simp [List.getElem?_set_ne hne]

/-- The items besides the one that is added. -/
theorem bind_position_append {token : Token} {items : List Document}
    (h : token ≠ .index items.length) (value : Document) :
    token.position?.bind ((items ++ [value])[·]?) = token.position?.bind (items[·]?) := by
  cases hp : token.position? with
  | none => rfl
  | some j =>
      have hne : j ≠ items.length := fun he => h (he ▸ Token.position?_eq_some_iff.1 hp)
      -- beyond the end there is nothing, with the added item or without
      rcases Nat.lt_or_gt_of_ne hne with hlt | hgt
      · simp [List.getElem?_append_left hlt]
      · have hnone : items[j]? = none := List.getElem?_eq_none (Nat.le_of_lt hgt)
        have hnone' : (items ++ [value])[j]? = none := by
          refine List.getElem?_eq_none ?_
          rw [List.length_append]
          exact hgt
        simp [hnone, hnone']

/-- The item that replaces another one. -/
theorem bind_position_set_self {items : List Document} {i : Nat} (h : i < items.length)
    (value : Document) :
    (Slot.child i).token.position?.bind ((items.set i value)[·]?) = some value := by
  simp [Slot.token, Token.position?, h]

/-- **Putting a value into a slot that is taken changes the child in it.** -/
theorem put_changedAt {node : Document} {slot : Slot} {old : Document}
    (hs : node.hasSlot slot = true) (ho : node.at? slot = some old) (value : Document) :
    ChangedAt node (node.put slot value) slot.token value ∧
      (node.put slot value).outline = node.outline := by
  -- the outline holds the marker and the tokens, so three facts about each kind are enough
  suffices h : (node.put slot value).outline = node.outline ∧
      (node.put slot value).child? slot.token = some value ∧
      ∀ other, other ≠ slot.token → (node.put slot value).child? other = node.child? other by
    obtain ⟨houtline, hvalue, hothers⟩ := h
    have hmarker := congrArg Prod.fst houtline
    have htokens := congrArg Prod.snd houtline
    exact ⟨⟨hmarker, Or.inl htokens, hvalue, hothers⟩, houtline⟩
  cases node with
  | scalar value => cases slot <;> cases ho
  | mapping entries =>
      cases slot with
      | child i => cases hs
      | entry name =>
          have hname : name ∈ Entries.names entries :=
            List.mem_map_of_mem (f := Prod.fst) (Entries.mem_of_get? ho)
          refine ⟨?_, ?_, ?_⟩
          · rw [put, outline_mapping_iff, Entries.names_insert, if_pos hname]
          · simp [put, Slot.token, Entries.get?_insert]
          · intro other hne
            cases other with
            | index position => simp [put]
            | key k =>
                have hk : ¬ name = k := fun h => hne (h ▸ rfl)
                simp [put, Entries.get?_insert, hk]
  | sequence items =>
      cases slot with
      | entry name => cases ho
      | child i =>
          obtain ⟨hi, -⟩ := List.getElem?_eq_some_iff.1 ho
          refine ⟨?_, ?_, ?_⟩
          · rw [put, outline_sequence_iff, List.length_set]
          · rw [put, child?_sequence, bind_position_set_self hi]
          · intro other hne
            rw [put, child?_sequence, child?_sequence, bind_position_set hne]
  | set members =>
      cases slot with
      | entry name => cases ho
      | child i =>
          obtain ⟨hi, -⟩ := List.getElem?_eq_some_iff.1 ho
          refine ⟨?_, ?_, ?_⟩
          · rw [put, outline_set_iff, List.length_set]
          · rw [put, child?_set, bind_position_set_self hi]
          · intro other hne
            rw [put, child?_set, child?_set, bind_position_set hne]
  | record n fields =>
      cases slot with
      | entry name => cases ho
      | child i =>
          obtain ⟨field, hf, -⟩ := Option.map_eq_some_iff.1 ho
          obtain ⟨hi, -⟩ := List.getElem?_eq_some_iff.1 hf
          have hi' : i < (fields.map Prod.snd).length := by rwa [List.length_map]
          refine ⟨?_, ?_, ?_⟩
          · rw [put, outline_record_iff]
            exact ⟨rfl, Entries.names_setAt fields i value⟩
          · rw [put, child?_record, Entries.values_setAt, bind_position_set_self hi']
          · intro other hne
            rw [put, child?_record, child?_record, Entries.values_setAt, bind_position_set hne]

/-- Outside sets a value that goes to a slot with a child in it is put there. -/
theorem store_of_some {node old value : Document} {slot : Slot} (hk : node.kind ≠ .set)
    (h : node.at? slot = some old) :
    node.store (.existing slot) value = .ok ⟨node.put slot value, some old, true⟩ := by
  cases node with
  | set members => exact absurd rfl hk
  | _ => simp [store, h]

theorem store_of_none {node value : Document} {slot : Slot} (hk : node.kind ≠ .set)
    (h : node.at? slot = none) : node.store (.existing slot) value = .error .stale := by
  cases node with
  | set members => exact absurd rfl hk
  | _ => simp [store, h]

/-- A new entry comes last. -/
theorem insert_changedAt {entries : List (String × Document)} {name : String}
    (h : name ∉ Entries.names entries) (value : Document) :
    ChangedAt (mapping entries) (mapping (Entries.insert entries name value)) (.key name) value := by
  refine ⟨rfl, Or.inr ⟨?_, ?_⟩, ?_, ?_⟩
  · rw [tokens_mapping, List.mem_map]
    rintro ⟨k, hk, he⟩
    injection he with he
    exact h (he ▸ hk)
  · rw [tokens_mapping, tokens_mapping, Entries.names_insert, if_neg h, List.map_append]
    rfl
  · rw [child?_mapping_key, Entries.get?_insert, if_pos rfl]
  · intro other hne
    cases other with
    | index position => rw [child?_mapping_index, child?_mapping_index]
    | key k =>
        have hk : ¬ name = k := fun he => hne (he ▸ rfl)
        rw [child?_mapping_key, child?_mapping_key, Entries.get?_insert, if_neg hk]

/-- A new item comes last. -/
theorem append_changedAt (items : List Document) (value : Document) :
    ChangedAt (sequence items) (sequence (items ++ [value])) (.index items.length) value := by
  have htokens : (sequence (items ++ [value])).tokens =
      (sequence items).tokens ++ [.index items.length] := by
    rw [tokens, tokens, children, children, positions_tokens, positions_tokens, List.length_append,
      List.length_singleton, List.range'_1_concat, List.map_append, Nat.zero_add]
    rfl
  refine ⟨rfl, Or.inr ⟨?_, htokens⟩, ?_, ?_⟩
  -- all tokens of the longer sequence differ, so the new one is not among the old ones
  · have hn := positions_tokens_nodup 0 (items ++ [value])
    change (sequence (items ++ [value])).tokens.Nodup at hn
    rw [htokens, List.nodup_append] at hn
    intro hm
    exact hn.2.2 _ hm _ (List.mem_singleton_self _) rfl
  · simp [Token.position?]
  · intro other hne
    rw [child?_sequence, child?_sequence, bind_position_append hne]

end Document

namespace Navigator

open Document (ChangedAt)

variable {navigator : Navigator}

/-! ## Finding the changed child again -/

/-- The standard navigator, and the one that falls back on nothing. -/
def IsStandard (navigator : Navigator) : Prop :=
  navigator = .standard ∨ navigator = .itemsOnly

/-- Mappings have no attributes. -/
theorem attribute?_mapping (hn : navigator.IsStandard) (entries : List (String × Document))
    (name : String) : navigator.attribute? (.mapping entries) name = none := by
  rcases hn with rfl | rfl
  · rfl
  · rfl

/-- The ends of a sequence depend on its length only. -/
theorem sequenceEnds_of_length {as bs : List Document} (h : as.length = bs.length)
    (name : String) :
    Accessor.sequenceEnds (.sequence as) name = Accessor.sequenceEnds (.sequence bs) name := by
  -- only an empty sequence has no ends
  cases as with
  | nil =>
      rw [List.length_eq_zero_iff.1 h.symm]
  | cons a as =>
      cases bs with
      | nil => cases h
      | cons b bs =>
          have hl : as.length = bs.length := Nat.succ.inj h
          unfold Accessor.sequenceEnds
          split
          · rename_i he
            cases he
            rfl
          · rename_i he
            cases he
            exact congrArg some hl
          · rename_i hfirst hlast
            split
            · exact absurd rfl (hfirst _ _ rfl)
            · exact absurd rfl (hlast _ _ rfl)
            · rfl

/-- **The slot of an attribute depends on the outline of a node only.** -/
theorem attribute?_of_outline (hn : navigator.IsStandard) {a b : Document}
    (h : a.outline = b.outline) (name : String) :
    navigator.attribute? a name = navigator.attribute? b name := by
  rcases hn with rfl | rfl
  · rcases Document.outline_cases h with ⟨v, w, rfl, rfl⟩ | ⟨as, bs, rfl, rfl, hnames⟩ |
      ⟨as, bs, rfl, rfl, hlength⟩ | ⟨as, bs, rfl, rfl, hlength⟩ | ⟨n, as, bs, rfl, rfl, hnames⟩
    · rfl
    · rfl
    · exact congrArg (Option.map Slot.child) (sequenceEnds_of_length hlength name)
    · rfl
    -- a field is found by its name, and the names are part of the outline
    · have hposition : Document.fieldPosition? (.record n as) name =
          Document.fieldPosition? (.record n bs) name := by
        have hfind : ∀ fields : List (String × Document),
            Document.fieldPosition? (.record n fields) name =
              (fields.map Prod.fst).findIdx? (· == name) := by
          intro fields
          rw [List.findIdx?_map]
          rfl
        rw [hfind, hfind, hnames]
      exact congrArg (Option.map Slot.child) hposition
  · rfl

/-- Where a token leads depends on the outline of a node and its attributes only. -/
theorem locate_of_attributes {a b : Document} (h : a.outline = b.outline)
    (hattribute : ∀ name, navigator.attribute? a name = navigator.attribute? b name)
    (token : Token) : navigator.locate a token = navigator.locate b token := by
  -- a mapping is asked for its names, a container of items for its length
  rcases Document.outline_cases h with ⟨v, w, rfl, rfl⟩ | ⟨as, bs, rfl, rfl, hnames⟩ |
      ⟨as, bs, rfl, rfl, hlength⟩ | ⟨as, bs, rfl, rfl, hlength⟩ | ⟨n, as, bs, rfl, rfl, hnames⟩
  · cases token with
    | index position => rfl
    | key name => simp only [locate, attributeOr, hattribute]; rfl
  · have hcontains : ∀ name, Entries.contains as name = Entries.contains bs name := by
      intro name
      rw [Bool.eq_iff_iff, Entries.contains_iff, Entries.contains_iff, hnames]
    cases token with
    | index position => simp only [locate, hcontains]; rfl
    | key name => simp only [locate, attributeOr, hcontains, hattribute]; rfl
  · cases token with
    | index position => simp only [locate, positionOr, hlength]; rfl
    | key name => simp only [locate, attributeOr, hattribute]; rfl
  · cases token with
    | index position => simp only [locate, positionOr, hlength]; rfl
    | key name => simp only [locate, attributeOr, hattribute]; rfl
  · have hlength : as.length = bs.length := by simpa using congrArg List.length hnames
    cases token with
    | index position => simp only [locate, positionOr, hlength]; rfl
    | key name => simp only [locate, attributeOr, hattribute]; rfl

/-- **Where a token leads depends on the outline of a node only.** -/
theorem locate_of_outline (hn : navigator.IsStandard) {a b : Document}
    (h : a.outline = b.outline) (token : Token) :
    navigator.locate a token = navigator.locate b token :=
  locate_of_attributes h (attribute?_of_outline hn h) token

/-- A token leads to a slot of the node itself. -/
theorem hasSlot_of_locate (hn : navigator.IsStandard) {node : Document} {token : Token}
    {slot : Slot} (h : navigator.locate node token = .ok slot) : node.hasSlot slot = true := by
  -- attributes give positions, but not those of a mapping
  cases node with
  | mapping entries =>
      cases token with
      | key name =>
          rw [locate, attributeOr, attribute?_mapping hn] at h
          split at h
          · cases h
            rfl
          · cases h
      | index position =>
          rw [locate] at h
          split at h
          · cases h
            rfl
          · cases h
  | scalar value => cases slot <;> rfl
  | sequence items => cases slot <;> rfl
  | set members => cases slot <;> rfl
  | record name fields => cases slot <;> rfl

theorem child_eq_ok_iff {node child : Document} {token : Token} {slot : Slot} :
    navigator.child node token = .ok (slot, child) ↔
      navigator.locate node token = .ok slot ∧ node.at? slot = some child := by
  unfold Navigator.child
  split
  · rename_i hl
    simp [hl]
  · rename_i found hl
    rw [hl]
    split
    · -- a slot in which something is
      rename_i value hv
      constructor
      · intro h
        cases h
        exact ⟨rfl, hv⟩
      · rintro ⟨hs, ha⟩
        cases hs
        rw [hv] at ha
        cases ha
        rfl
    · rename_i hv
      constructor
      · intro h
        cases h
      · rintro ⟨hs, ha⟩
        cases hs
        rw [hv] at ha
        cases ha

/-- The child that a token addresses has a canonical address too. -/
theorem child?_of_child (hn : navigator.IsStandard) {node child : Document} {token : Token}
    {slot : Slot} (h : navigator.child node token = .ok (slot, child)) :
    node.child? slot.token = some child := by
  obtain ⟨hl, ha⟩ := child_eq_ok_iff.1 h
  rw [← Document.at?_eq_child? (hasSlot_of_locate hn hl), ha]

/-- **A value that is put in place of a child is found where the child was.** -/
theorem child_put (hn : navigator.IsStandard) {node child : Document} {token : Token}
    {slot : Slot} (h : navigator.child node token = .ok (slot, child)) (value : Document) :
    navigator.child (node.put slot value) token = .ok (slot, value) ∧
      ChangedAt node (node.put slot value) slot.token value ∧
      (node.put slot value).tokens = node.tokens := by
  obtain ⟨hl, ha⟩ := child_eq_ok_iff.1 h
  have hs := hasSlot_of_locate hn hl
  obtain ⟨hc, ho⟩ := Document.put_changedAt hs ha value
  have hl' : navigator.locate (node.put slot value) token = .ok slot := by
    rw [locate_of_outline hn ho, hl]
  refine ⟨child_eq_ok_iff.2 ⟨hl', ?_⟩, hc, congrArg Prod.snd ho⟩
  rw [Document.at?_eq_child? (hasSlot_of_locate hn hl'), hc.value]

/-- A token that leads nowhere in a mapping names no entry. -/
theorem contains_of_locate_mapping {entries : List (String × Document)} {token : Token}
    {miss : Miss} (h : navigator.locate (.mapping entries) token = .error miss) :
    Entries.contains entries token.text = false := by
  rw [← Bool.not_eq_true]
  intro hc
  cases token with
  | key name =>
      have hl : navigator.locate (.mapping entries) (.key name) = .ok (.entry name) := if_pos hc
      rw [hl] at h
      cases h
  | index position =>
      rw [locate, if_pos hc] at h
      cases h

/-- Where the last token of a path can lead. -/
theorem target_cases {node : Document} {token : Token} {target : Target}
    (h : navigator.target node token = .ok target) :
    (∃ slot, target = .existing slot ∧ navigator.locate node token = .ok slot) ∨
      (∃ entries, node = .mapping entries ∧ target = .insert token.text ∧
        Entries.contains entries token.text = false) ∨
      (∃ items, node = .sequence items ∧ target = .append ∧ token = .index items.length) ∨
      ∃ members, node = .set members ∧ target = .append ∧ token = .index members.length := by
  -- a slot that is there first, then by kind what a missing child stands for
  unfold Navigator.target at h
  split at h
  · rename_i slot hl
    cases h
    exact Or.inl ⟨slot, rfl, hl⟩
  · cases h
  · rename_i hl
    split at h
    · cases h
      exact Or.inr (Or.inl ⟨_, rfl, rfl, contains_of_locate_mapping hl⟩)
    · split at h
      · rename_i hp
        cases h
        exact Or.inr (Or.inr (Or.inl ⟨_, rfl, rfl, congrArg Token.index hp⟩))
      · cases h
    · split at h
      · rename_i hp
        cases h
        exact Or.inr (Or.inr (Or.inr ⟨_, rfl, rfl, congrArg Token.index hp⟩))
      · cases h
    · cases h

/-- An entry of a mapping is found under each token with its name. -/
theorem child_mapping {entries : List (String × Document)} {token : Token} {value : Document}
    (h : Entries.get? entries token.text = some value) :
    navigator.child (.mapping entries) token = .ok (.entry token.text, value) := by
  have hc : Entries.contains entries token.text = true := by
    rw [Entries.contains, h]
    rfl
  refine child_eq_ok_iff.2 ⟨?_, h⟩
  cases token with
  | key name => exact if_pos hc
  | index position => exact if_pos hc

/-- An entry that was inserted is found under its token. -/
theorem child_insert (entries : List (String × Document)) (token : Token) (value : Document) :
    navigator.child (.mapping (Entries.insert entries token.text value)) token =
      .ok (.entry token.text, value) := by
  apply child_mapping
  rw [Entries.get?_insert, if_pos rfl]

/-- An item that was appended is found at its position. -/
theorem child_append (items : List Document) (value : Document) :
    navigator.child (.sequence (items ++ [value])) (.index items.length) =
      .ok (.child items.length, value) := by
  have hlt : items.length < (items ++ [value]).length := by simp
  refine child_eq_ok_iff.2 ⟨?_, ?_⟩
  · rw [locate, positionOr, Position.within?_natCast hlt]
  · simp [Document.at?]

/-- **A value that is stored in a container other than a set is found under its token.** -/
theorem child_store (hn : navigator.IsStandard) {node value : Document} {token : Token}
    {target : Target} {written : Written} (hset : node.kind ≠ .set)
    (ht : navigator.target node token = .ok target) (hs : node.store target value = .ok written) :
    ∃ slot, navigator.child written.document token = .ok (slot, value) ∧
      ChangedAt node written.document slot.token value := by
  -- a taken slot, a new entry, a new item; a new member is excluded
  rcases target_cases ht with ⟨slot, rfl, hl⟩ | ⟨entries, rfl, rfl, hc⟩ | ⟨items, rfl, rfl, rfl⟩ |
    ⟨members, rfl, -, -⟩
  · cases ha : node.at? slot with
    | none =>
        rw [Document.store_of_none hset ha] at hs
        cases hs
    | some old =>
        rw [Document.store_of_some hset ha] at hs
        cases hs
        obtain ⟨hchild, hchanged, -⟩ := child_put hn (child_eq_ok_iff.2 ⟨hl, ha⟩) value
        exact ⟨slot, hchild, hchanged⟩
  · cases hs
    have hname : token.text ∉ Entries.names entries := by
      rw [← Entries.contains_iff, hc]
      exact Bool.false_ne_true
    exact ⟨.entry token.text, child_insert entries token value,
      Document.insert_changedAt hname value⟩
  · cases hs
    exact ⟨.child items.length, child_append items value, Document.append_changedAt items value⟩
  · exact absurd rfl hset

/-! ## Whole writes -/

/-- The canonical address that a path leads to. -/
def location (navigator : Navigator) : Document → List Token → Option Path
  | _, [] => some []
  | node, token :: rest =>
    match navigator.child node token with
    | .error _ => none
    | .ok (slot, child) => (navigator.location child rest).map (slot.token :: ·)

end Navigator

namespace Document

/-- Two documents that differ at one address only. The second one holds a value there; what lies
neither above nor below is the same in both; the containers above keep their markers and the tokens
of their children, save that the last of them may have got a new last child. -/
structure Frame (a b : Document) (location : Path) (value : Document) : Prop where
  value : b.nodeAt? location = some value
  others : ∀ q, ¬ q <+: location → ¬ location <+: q → b.nodeAt? q = a.nodeAt? q
  containers : ∀ q token, q ++ [token] <+: location → ∃ c d,
    a.nodeAt? q = some c ∧ b.nodeAt? q = some d ∧
      Marker.ofDocument? d = Marker.ofDocument? c ∧
      (d.tokens = c.tokens ∨
        q ++ [token] = location ∧ token ∉ c.tokens ∧ d.tokens = c.tokens ++ [token])

namespace Frame

/-- A document can be replaced by any other one. -/
theorem root (a b : Document) : Frame a b [] b where
  value := rfl
  others q _ h := absurd (List.nil_prefix) h
  containers q token h := absurd (List.prefix_nil.1 h) (by simp)

/-- A change of one child is a change at one address. -/
theorem last {a b value : Document} {token : Token} (h : ChangedAt a b token value) :
    Frame a b [token] value where
  value := by rw [nodeAt?, h.value]; rfl
  others q hq hp := by
    cases q with
    | nil => exact absurd List.nil_prefix hq
    | cons other rest =>
        have hne : other ≠ token := by
          rintro rfl
          exact hp (List.cons_prefix_cons.2 ⟨rfl, List.nil_prefix⟩)
        rw [nodeAt?, nodeAt?, h.others other hne]
  containers q other hq := by
    have hlength := hq.length_le
    -- only the root lies above an address of one token
    have hnil : q = [] := by
      rw [List.length_append, List.length_singleton, List.length_singleton] at hlength
      exact List.length_eq_zero_iff.1 (by omega)
    subst hnil
    obtain ⟨rfl, -⟩ := List.cons_prefix_cons.1 hq
    exact ⟨a, b, rfl, rfl, h.marker, h.tokens.imp_right fun ht => ⟨rfl, ht⟩⟩

/-- A change at one address of a child is a change at one address of the container. -/
theorem child {a b c d value : Document} {token : Token} {location : Path}
    (h : ChangedAt a b token d) (ht : b.tokens = a.tokens) (hc : a.child? token = some c)
    (hf : Frame c d location value) : Frame a b (token :: location) value where
  value := by rw [nodeAt?, h.value]; exact hf.value
  others q hq hp := by
    cases q with
    | nil => exact absurd List.nil_prefix hq
    | cons other rest =>
        -- below the same token the frame of the child decides, elsewhere nothing changed
        by_cases hne : other = token
        · subst hne
          rw [List.cons_prefix_cons] at hq hp
          rw [nodeAt?, nodeAt?, h.value, hc]
          exact hf.others rest (fun hr => hq ⟨rfl, hr⟩) (fun hr => hp ⟨rfl, hr⟩)
        · rw [nodeAt?, nodeAt?, h.others other hne]
  containers q other hq := by
    cases q with
    | nil =>
        obtain ⟨rfl, -⟩ := List.cons_prefix_cons.1 hq
        exact ⟨a, b, rfl, rfl, h.marker, Or.inl ht⟩
    | cons first rest =>
        rw [List.cons_append] at hq ⊢
        obtain ⟨rfl, hrest⟩ := List.cons_prefix_cons.1 hq
        obtain ⟨x, y, hx, hy, hmarker, htokens⟩ := hf.containers rest other hrest
        refine ⟨x, y, ?_, ?_, hmarker, htokens.imp_right fun ht => ⟨?_, ht.2⟩⟩
        · rw [nodeAt?, hc]
          exact hx
        · rw [nodeAt?, h.value]
          exact hy
        · rw [ht.1]

end Frame

end Document

namespace Navigator

variable {navigator : Navigator}

theorem location_cons_of_child {node child : Document} {token : Token} {slot : Slot}
    (h : navigator.child node token = .ok (slot, child)) (rest : List Token) :
    navigator.location node (token :: rest) =
      (navigator.location child rest).map (slot.token :: ·) := by
  rw [location, h]

/-- A document before and after a write to the last token behind some others: it changed at one
address, the tokens lead to that address, and they led to its container before. -/
structure WrittenAt (navigator : Navigator) (a b : Document) (parents : List Token) (last : Token)
    (value : Document) (address : Path) : Prop where
  frame : Document.Frame a b address value
  location : navigator.location b (parents ++ [last]) = some address
  container : navigator.location a parents = some address.dropLast
  read : ∀ path, navigator.follow path b (parents ++ [last]) = .ok value

/-- What a write does to the container of its last token. -/
theorem writtenAt_last (hn : navigator.IsStandard) {path : Path} {last : Token}
    {node value : Document} {written : Written} (hset : node.kind ≠ .set)
    (h : navigator.applyLast path last node (.set (.value value)) = .ok written) :
    ∃ address, WrittenAt navigator node written.document [] last value address := by
  rw [applyLast] at h
  split at h
  · cases h
  · rename_i target ht
    -- a fixed value is stored as it is
    have hstore : node.store target value = .ok written := by
      have hv : valueFor path last node target (.value value) = .ok value := by
        unfold valueFor
        rfl
      rw [hv] at h
      change (node.store target value).mapError _ = _ at h
      cases hs : node.store target value with
      | error miss => rw [hs] at h; cases h
      | ok result => rw [hs] at h; cases h; rfl
    obtain ⟨slot, hchild, hchanged⟩ := child_store hn hset ht hstore
    refine ⟨[slot.token], Document.Frame.last hchanged, ?_, rfl, fun path => ?_⟩
    · rw [List.nil_append, location_cons_of_child hchild]
      rfl
    · rw [List.nil_append, follow_cons_of_child hchild]
      rfl

/-- **A write below a child is a write below the container.** -/
theorem WrittenAt.child (hn : navigator.IsStandard) {node child changed value : Document}
    {token last : Token} {slot : Slot} {parents : List Token} {address : Path}
    (hc : navigator.child node token = .ok (slot, child))
    (h : WrittenAt navigator child changed parents last value address) :
    WrittenAt navigator node (node.put slot changed) (token :: parents) last value
      (slot.token :: address) := by
  obtain ⟨hput, hchanged, htokens⟩ := child_put hn hc changed
  -- an address of a token is not the root, so the container of the last token lies in the child
  have hne : address ≠ [] := by
    intro hnil
    have hl := h.location
    rw [hnil] at hl
    cases parents with
    | nil =>
        rw [List.nil_append, Navigator.location] at hl
        split at hl
        · cases hl
        · cases hl
    | cons first rest =>
        rw [List.cons_append, Navigator.location] at hl
        split at hl
        · cases hl
        · obtain ⟨tail, -, he⟩ := Option.map_eq_some_iff.1 hl
          cases he
  refine ⟨Document.Frame.child hchanged htokens (child?_of_child hn hc) h.frame, ?_, ?_, ?_⟩
  · rw [List.cons_append, location_cons_of_child hput, h.location]
    rfl
  · rw [location_cons_of_child hc, h.container, List.dropLast_cons_of_ne_nil hne]
    rfl
  · intro path
    rw [List.cons_append, follow_cons_of_child hput]
    exact h.read path

/-- **A walk with a write at its end changes one address.** -/
theorem writtenAt_of_descend (hn : navigator.IsStandard) {path : Path} {parents : List Token}
    {last : Token} {node value : Document} {written : Written}
    (hset : ∀ container, navigator.follow path node parents = .ok container →
      container.kind ≠ .set)
    (h : navigator.descend path
      (fun node => navigator.applyLast path last node (.set (.value value))) node parents =
        .ok written) :
    ∃ address, WrittenAt navigator node written.document parents last value address := by
  -- induction on the tokens above the last one; one level is put around the frame at each
  induction parents generalizing node written with
  | nil => exact writtenAt_last hn (hset node rfl) h
  | cons token rest ih =>
      obtain ⟨slot, child, inner, hc, hinner, rfl⟩ := descend_cons_eq_ok_iff.1 h
      have hset' : ∀ container, navigator.follow path child rest = .ok container →
          container.kind ≠ .set := by
        intro container hf
        exact hset container ((follow_cons_of_child hc rest).trans hf)
      obtain ⟨address, hw⟩ := ih hset' hinner
      exact ⟨slot.token :: address, hw.child hn hc⟩

/-- **A value that was written is read back, and nothing else changed.** With the standard navigator
or without attributes, after a write of a value at a path whose last token stands in no set, the
path leads to the value; it leads to one address, all that lies neither above nor below that address
is as before, and the containers above keep their kind, their names and the order of their
children. -/
theorem get_set (hn : navigator.IsStandard) {before after value : Document} {path : Path}
    (hset : path ≠ [] → ∀ container, navigator.get before path.dropLast = .ok container →
      container.kind ≠ .set)
    (h : navigator.set before path (.value value) = .ok after) :
    navigator.get after path = .ok value ∧
      ∃ address, navigator.location after path = some address ∧
        navigator.location before path.dropLast = some address.dropLast ∧
        Document.Frame before after address value := by
  -- a write to the root has no container, any other one has a last token
  rcases List.eq_nil_or_concat path with rfl | ⟨parents, last, rfl⟩
  · cases h
    exact ⟨rfl, [], rfl, rfl, Document.Frame.root before value⟩
  · rw [List.concat_eq_append] at hset h ⊢
    rw [List.dropLast_concat] at hset ⊢
    unfold Navigator.set at h
    cases hw : navigator.write before (parents ++ [last]) (.set (.value value)) with
    | error error => rw [hw] at h; cases h
    | ok written =>
        rw [hw] at h
        cases h
        rw [write, List.getLast?_concat, List.dropLast_concat] at hw
        have hset' : ∀ container,
            navigator.follow (parents ++ [last]) before parents = .ok container →
              container.kind ≠ .set :=
          fun container hf => hset (by simp) container (follow_path hf)
        obtain ⟨address, hwritten⟩ := writtenAt_of_descend hn hset' hw
        exact ⟨hwritten.read _, address, hwritten.location, hwritten.container, hwritten.frame⟩

/-- A write through a field and to the last item of a sequence, both addressed as attributes. -/
theorem get_set_last_item :
    let before : Document := .record "Box" [("tags", .set []), ("items", .sequence [.null, .null])]
    let after : Document := .record "Box" [("tags", .set []), ("items", .sequence [.null, .int 7])]
    standard.get after [.key "items", .key "last"] = .ok (.int 7) ∧
      ∃ address, standard.location after [.key "items", .key "last"] = some address ∧
        standard.location before [.key "items"] = some address.dropLast ∧
        Document.Frame before after address (.int 7) := by
  intro before after
  refine @get_set standard (Or.inl rfl) before after (.int 7) [.key "items", .key "last"]
    (fun _ container h => ?_) rfl
  have hc : (Except.ok (.sequence [.null, .null]) : Outcome Document) = .ok container := h
  cases hc
  exact Kind.noConfusion

end Navigator

end PathDoc

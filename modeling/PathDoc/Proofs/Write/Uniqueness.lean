import PathDoc.Batch
import PathDoc.Proofs.Document.Distinct
import PathDoc.Proofs.Write.Members

/-!
# Equal members after writes

A document is proper if the names of every mapping differ and no set holds two equal members. What a
write does to the container of its last token keeps this (`store_isProper`, `take_isProper`). On the
way back to the root a set puts its changed member in place without a look at the others, so a write
below a member can make it equal to another one: it clashes. A write of a proper value to a proper
document leaves a proper document exactly if it does not clash (`write_isProper_iff`), and a run of
writes keeps all documents on its way proper exactly if none of its writes clashes
(`membersDistinct_steps_iff`).
-/

set_option autoImplicit false

namespace PathDoc

namespace Document

/-- **Putting a value into a slot that is taken replaces one child.** -/
theorem parts_put {node old : Document} {slot : Slot} (h : node.at? slot = some old)
    (value : Document) :
    (node.put slot value).parts = node.parts.set (node.positionAt slot) value ∧
      node.positionAt slot < node.parts.length := by
  -- a mapping has slots by name and, from attributes, by position; the others by position only
  cases node with
  | scalar value => cases slot <;> cases h
  | mapping entries =>
      cases slot with
      | entry name =>
          rw [put, parts_mapping, parts_mapping, List.length_map]
          exact Entries.values_insert h value
      | child i =>
          obtain ⟨field, hf, -⟩ := Option.map_eq_some_iff.1 h
          obtain ⟨hi, -⟩ := List.getElem?_eq_some_iff.1 hf
          rw [put, parts_mapping, parts_mapping, List.length_map]
          exact ⟨Entries.values_setAt entries i value, hi⟩
  | sequence items =>
      cases slot with
      | entry name => cases h
      | child i =>
          obtain ⟨hi, -⟩ := List.getElem?_eq_some_iff.1 h
          rw [put, parts_sequence, parts_sequence]
          exact ⟨rfl, hi⟩
  | set members =>
      cases slot with
      | entry name => cases h
      | child i =>
          obtain ⟨hi, -⟩ := List.getElem?_eq_some_iff.1 h
          rw [put, parts_set, parts_set]
          exact ⟨rfl, hi⟩
  | record name fields =>
      cases slot with
      | entry name => cases h
      | child i =>
          obtain ⟨field, hf, -⟩ := Option.map_eq_some_iff.1 h
          obtain ⟨hi, -⟩ := List.getElem?_eq_some_iff.1 hf
          rw [put, parts_record, parts_record, List.length_map]
          exact ⟨Entries.values_setAt fields i value, hi⟩

/-- The child in a slot is a child. -/
theorem mem_parts_of_at? {node old : Document} {slot : Slot} (h : node.at? slot = some old) :
    old ∈ node.parts := by
  -- by the kind of the node and of the slot, as far as they go together
  cases node with
  | scalar value => cases slot <;> cases h
  | mapping entries =>
      rw [parts_mapping]
      cases slot with
      | entry name => exact List.mem_map_of_mem (Entries.mem_of_get? h)
      | child i =>
          obtain ⟨entry, he, rfl⟩ := Option.map_eq_some_iff.1 h
          exact List.mem_map_of_mem (List.mem_of_getElem? he)
  | sequence items =>
      rw [parts_sequence]
      cases slot with
      | entry name => cases h
      | child i => exact List.mem_of_getElem? h
  | set members =>
      rw [parts_set]
      cases slot with
      | entry name => cases h
      | child i => exact List.mem_of_getElem? h
  | record name fields =>
      rw [parts_record]
      cases slot with
      | entry name => cases h
      | child i =>
          obtain ⟨field, hf, rfl⟩ := Option.map_eq_some_iff.1 h
          exact List.mem_map_of_mem (List.mem_of_getElem? hf)

/-! ## Proper documents -/

/-- Whether the names of every mapping in a document differ and no set in it holds two equal
members. -/
structure IsProper (document : Document) : Prop where
  names : document.namesDistinct = true
  members : document.membersDistinct = true

theorem isProper_iff {document : Document} :
    document.IsProper ↔ document.hasDistinctNames = true ∧ document.hasDistinctMembers = true ∧
      ∀ part ∈ document.parts, part.IsProper := by
  constructor
  · rintro ⟨hn, hm⟩
    rw [namesDistinct, everywhere_iff] at hn
    rw [membersDistinct, everywhere_iff] at hm
    exact ⟨hn.1, hm.1, fun part hp => ⟨hn.2 part hp, hm.2 part hp⟩⟩
  · rintro ⟨hn, hm, hp⟩
    exact ⟨everywhere_iff.2 ⟨hn, fun part h => (hp part h).names⟩,
      everywhere_iff.2 ⟨hm, fun part h => (hp part h).members⟩⟩

/-- A child of a proper document is proper. -/
theorem IsProper.at? {node child : Document} {slot : Slot} (h : node.IsProper)
    (hc : node.at? slot = some child) : child.IsProper :=
  (isProper_iff.1 h).2.2 child (mem_parts_of_at? hc)

/-- Whether a value in a slot of a set equals another member. -/
def hasTwin : Document → Slot → Document → Bool
  | set members, .child i, value => hasOther members i value
  | _, _, _ => false

/-- Putting a value into a slot keeps the names of the node. -/
theorem hasDistinctNames_put {node : Document} (h : node.hasDistinctNames = true) (slot : Slot)
    (value : Document) : (node.put slot value).hasDistinctNames = true := by
  cases node with
  | scalar v => cases slot <;> rfl
  | mapping entries =>
      have hn : (Entries.names entries).Nodup := of_decide_eq_true h
      cases slot with
      | entry name => exact decide_eq_true (Entries.nodup_insert hn name value)
      | child i =>
          apply decide_eq_true
          rw [Entries.names_setAt]
          exact hn
  | sequence items => cases slot <;> rfl
  | set members => cases slot <;> rfl
  | record name fields => cases slot <;> rfl

/-- Children with different names keep the names different. -/
theorem namesDistinct_put {node old value : Document} {slot : Slot}
    (h : node.namesDistinct = true) (ho : node.at? slot = some old)
    (hv : value.namesDistinct = true) : (node.put slot value).namesDistinct = true := by
  obtain ⟨hn, hp⟩ := everywhere_iff.1 h
  refine everywhere_iff.2 ⟨hasDistinctNames_put hn slot value, fun part hpart => ?_⟩
  rw [(parts_put ho value).1] at hpart
  rcases List.mem_or_eq_of_mem_set hpart with hpart | rfl
  · exact hp part hpart
  · exact hv

/-- **A member that is exchanged leaves the members different if it has no twin.** -/
theorem pairwise_set_iff {members : List Document} {i : Nat} {value : Document}
    (hi : i < members.length) (hn : ∀ d ∈ members, d.namesDistinct = true)
    (hv : value.namesDistinct = true) (hp : members.Pairwise fun a b => (a == b) = false) :
    ((members.set i value).Pairwise fun a b => (a == b) = false) ↔
      hasOther members i value = false := by
  -- the list is cut at the member, so that both sides speak of the same parts
  have hsplit : members = members.take i ++ members[i] :: members.drop (i + 1) := by
    rw [List.getElem_cons_drop, List.take_append_drop]
  have hlength : (members.take i).length = i := List.length_take_of_le (Nat.le_of_lt hi)
  generalize members.take i = before at hsplit hlength
  generalize members.drop (i + 1) = after at hsplit
  generalize members[i] = member at hsplit
  subst hsplit hlength
  have hrest : (before ++ after).Pairwise fun a b => (a == b) = false :=
    hp.sublist (List.Sublist.append_left (List.sublist_cons_self member after) before)
  have hnames : ∀ d ∈ before ++ value :: after, d.namesDistinct = true := by
    intro d hd
    rcases List.mem_append.1 hd with hd | hd
    · exact hn d (List.mem_append_left _ hd)
    · rcases List.mem_cons.1 hd with rfl | hd
      · exact hv
      · exact hn d (List.mem_append_right _ (List.mem_cons_of_mem _ hd))
  rw [List.set_append_right _ _ (Nat.le_refl _), Nat.sub_self, List.set_cons_zero, hasOther_append,
    pairwise_differ_middle hnames, and_iff_right hrest, List.any_eq_false]
  simp only [Bool.not_eq_true]

/-- Putting a value into a slot keeps the members of the node different if the value has no twin. -/
theorem hasDistinctMembers_put_iff {node old value : Document} {slot : Slot} (h : node.IsProper)
    (ho : node.at? slot = some old) (hv : value.namesDistinct = true) :
    (node.put slot value).hasDistinctMembers = true ↔ node.hasTwin slot value = false := by
  cases node with
  | set members =>
      cases slot with
      | entry name => cases ho
      | child i =>
          obtain ⟨hi, -⟩ := List.getElem?_eq_some_iff.1 ho
          have hnames := ((everywhere_set members).1 h.names).2
          have hpairwise : members.Pairwise fun a b => (a == b) = false :=
            of_decide_eq_true (isProper_iff.1 h).2.1
          rw [put, hasDistinctMembers, decide_eq_true_iff, hasTwin]
          exact pairwise_set_iff hi hnames hv hpairwise
  | scalar v => cases slot <;> exact iff_of_true rfl rfl
  | mapping entries => cases slot <;> exact iff_of_true rfl rfl
  | sequence items => cases slot <;> exact iff_of_true rfl rfl
  | record name fields => cases slot <;> exact iff_of_true rfl rfl

/-- **A child of a proper document can be exchanged for a proper value without a twin, and for no
other one.** -/
theorem put_isProper_iff {node old value : Document} {slot : Slot} (h : node.IsProper)
    (ho : node.at? slot = some old) (hv : value.namesDistinct = true) :
    (node.put slot value).IsProper ↔ value.IsProper ∧ node.hasTwin slot value = false := by
  obtain ⟨hparts, hlt⟩ := parts_put ho value
  rw [isProper_iff, hasDistinctMembers_put_iff h ho hv, hparts]
  obtain ⟨hn, hm, hp⟩ := isProper_iff.1 h
  constructor
  · rintro ⟨-, htwin, hall⟩
    exact ⟨hall value (List.mem_set hlt value), htwin⟩
  · rintro ⟨hvalue, htwin⟩
    refine ⟨hasDistinctNames_put hn slot value, htwin, fun part hpart => ?_⟩
    rcases List.mem_or_eq_of_mem_set hpart with hpart | rfl
    · exact hp part hpart
    · exact hvalue

/-- A document with proper children is proper if its own names and members are different. -/
theorem IsProper.of_parts {node next : Document} (h : node.IsProper)
    (hn : next.hasDistinctNames = true) (hm : next.hasDistinctMembers = true)
    (hp : ∀ part ∈ next.parts, part ∈ node.parts ∨ part.IsProper) : next.IsProper := by
  refine isProper_iff.2 ⟨hn, hm, fun part hpart => ?_⟩
  rcases hp part hpart with hpart | hpart
  · exact (isProper_iff.1 h).2.2 part hpart
  · exact hpart

/-! ## The container of the last token -/

/-- A new member that no other one equals. -/
theorem append_isProper {members : List Document} {value : Document} (h : (set members).IsProper)
    (hv : value.IsProper) (ha : members.any (· == value) = false) :
    (set (members ++ [value])).IsProper := by
  apply h.of_parts rfl
  · apply decide_eq_true
    have hp : members.Pairwise fun a b => (a == b) = false := of_decide_eq_true (isProper_iff.1 h).2.1
    refine List.pairwise_append.2 ⟨hp, List.pairwise_singleton _ value, ?_⟩
    intro member hm v hvalue
    rw [List.mem_singleton.1 hvalue]
    exact beq_eq_false_of_any ha hm
  · intro part hpart
    rw [parts_set] at hpart ⊢
    rcases List.mem_append.1 hpart with hpart | hpart
    · exact Or.inl hpart
    · exact Or.inr (List.mem_singleton.1 hpart ▸ hv)

/-- Some of the members. -/
theorem IsProper.sublist {members kept : List Document} (h : (set members).IsProper)
    (hs : kept.Sublist members) : (set kept).IsProper := by
  have hp : members.Pairwise fun a b => (a == b) = false := of_decide_eq_true (isProper_iff.1 h).2.1
  refine h.of_parts rfl (decide_eq_true (hp.sublist hs)) fun part hpart => Or.inl ?_
  rw [parts_set] at hpart ⊢
  exact hs.mem hpart

/-- Some of the entries. -/
theorem IsProper.entries_sublist {entries kept : List (String × Document)}
    (h : (mapping entries).IsProper) (hs : kept.Sublist entries) : (mapping kept).IsProper := by
  have hn : (Entries.names entries).Nodup := of_decide_eq_true (isProper_iff.1 h).1
  refine h.of_parts (decide_eq_true (hn.sublist (hs.map Prod.fst))) rfl fun part hpart => Or.inl ?_
  rw [parts_mapping] at hpart ⊢
  exact (hs.map Prod.snd).mem hpart

/-- **What a container is like after a value was stored in it**: the value stands in a slot that was
taken, or comes last, or, in a set, merged with a member. -/
theorem store_forms {node value : Document} {target : Target} {written : Written}
    (hs : node.store target value = .ok written) :
    (∃ slot old, node.at? slot = some old ∧ node.hasTwin slot value = false ∧
        written.document = node.put slot value) ∨
      (∃ entries name, node = mapping entries ∧
        written.document = mapping (Entries.insert entries name value)) ∨
      (∃ items, node = sequence items ∧ written.document = sequence (items ++ [value])) ∨
      (∃ members, node = set members ∧ members.any (· == value) = false ∧
        written.document = set (members ++ [value])) ∨
      ∃ members kept, node = set members ∧ kept.Sublist members ∧ written.document = set kept := by
  fun_cases Document.store node target value with
  | case1 entries name value =>
      cases hs
      exact Or.inr (Or.inl ⟨entries, name, rfl, rfl⟩)
  | case2 items value =>
      cases hs
      exact Or.inr (Or.inr (Or.inl ⟨items, rfl, rfl⟩))
  | case3 members value hany =>
      rw [store, if_pos hany] at hs
      cases hs
      have hsublist : members.Sublist members := List.Sublist.refl members
      exact Or.inr (Or.inr (Or.inr (Or.inr ⟨members, _, rfl, hsublist, rfl⟩)))
  | case4 members value hany =>
      rw [store, if_neg hany] at hs
      cases hs
      exact Or.inr (Or.inr (Or.inr (Or.inl ⟨members, rfl, Bool.not_eq_true _ ▸ hany, rfl⟩)))
  | case5 members i value hother member hm =>
      simp only [store, hother, hm, if_true] at hs
      cases hs
      have hsublist : (members.eraseIdx i).Sublist members := List.eraseIdx_sublist members i
      exact Or.inr (Or.inr (Or.inr (Or.inr ⟨members, _, rfl, hsublist, rfl⟩)))
  | case6 members i value hother hm =>
      simp only [store, hother, hm, if_true] at hs
      cases hs
  | case7 members i value hother member hm =>
      simp only [store, hother, hm] at hs
      cases hs
      exact Or.inl ⟨.child i, member, hm, Bool.not_eq_true _ ▸ hother, rfl⟩
  | case8 members i value hother hm =>
      simp only [store, hother, hm] at hs
      cases hs
  | case9 node slot value hset old ho =>
      have htwin : node.hasTwin slot value = false := by
        cases node with
        | set members =>
            cases slot with
            | child i => exact (hset members i rfl rfl).elim
            | entry name => rfl
        | _ => rfl
      rw [store, ho] at hs
      · cases hs
        exact Or.inl ⟨slot, old, ho, htwin, rfl⟩
      · exact hset
  | case10 node slot value hset ho =>
      rw [store, ho] at hs
      · cases hs
      · exact hset
  | case11 node target value hother hmapping hsequence hset hchild =>
      rw [store] at hs
      · cases hs
      all_goals assumption

/-- **Storing a proper value in a proper container leaves it proper.** -/
theorem store_isProper {node value : Document} {target : Target} {written : Written}
    (h : node.IsProper) (hv : value.IsProper) (hs : node.store target value = .ok written) :
    written.document.IsProper := by
  rcases store_forms hs with ⟨slot, old, ho, htwin, he⟩ | ⟨entries, name, rfl, he⟩ |
    ⟨items, rfl, he⟩ | ⟨members, rfl, hany, he⟩ | ⟨members, kept, rfl, hkept, he⟩ <;> rw [he]
  · exact (put_isProper_iff h ho hv.names).2 ⟨hv, htwin⟩
  · have hn : (Entries.names entries).Nodup := of_decide_eq_true (isProper_iff.1 h).1
    refine h.of_parts (decide_eq_true (Entries.nodup_insert hn name value)) rfl fun part hpart => ?_
    rw [parts_mapping] at hpart ⊢
    obtain ⟨entry, hentry, rfl⟩ := List.mem_map.1 hpart
    rcases Entries.mem_insert hentry with rfl | hentry
    · exact Or.inr hv
    · exact Or.inl (List.mem_map_of_mem hentry)
  · refine h.of_parts rfl rfl fun part hpart => ?_
    rw [parts_sequence] at hpart ⊢
    rcases List.mem_append.1 hpart with hpart | hpart
    · exact Or.inl hpart
    · exact Or.inr (List.mem_singleton.1 hpart ▸ hv)
  · exact append_isProper h hv hany
  · exact h.sublist hkept

/-- **What a container is like after a child was taken out of it**: it keeps some of its entries,
items or members. -/
theorem take_forms {node : Document} {slot : Slot} {written : Written}
    (ht : node.take slot = .ok written) :
    ∃ old, node.at? slot = some old ∧ written.previous = some old ∧
      ((∃ entries kept, node = mapping entries ∧ kept.Sublist entries ∧
          written.document = mapping kept) ∨
        (∃ items kept, node = sequence items ∧ kept.Sublist items ∧
          written.document = sequence kept) ∨
        ∃ members kept, node = set members ∧ kept.Sublist members ∧
          written.document = set kept) := by
  cases ho : node.at? slot with
  | none =>
      -- nothing is taken from an empty slot, and from a record nothing at all
      have herror : ∃ miss, node.take slot = .error miss := by
        cases node with
        | record name fields => exact ⟨_, rfl⟩
        | _ => exact ⟨.stale, by rw [take, ho]; exact fun _ _ => Document.noConfusion⟩
      obtain ⟨miss, hm⟩ := herror
      rw [hm] at ht
      cases ht
  | some old =>
      refine ⟨old, rfl, ?_⟩
      cases node with
      | scalar v => cases slot <;> cases ho
      | mapping entries =>
          cases slot with
          | entry name =>
              simp only [take, ho] at ht
              cases ht
              exact ⟨rfl, Or.inl ⟨entries, _, rfl, List.filter_sublist, rfl⟩⟩
          | child i =>
              simp only [take, ho] at ht
              cases ht
              exact ⟨rfl, Or.inl ⟨entries, _, rfl, List.eraseIdx_sublist entries i, rfl⟩⟩
      | sequence items =>
          cases slot with
          | entry name => cases ho
          | child i =>
              simp only [take, ho] at ht
              cases ht
              exact ⟨rfl, Or.inr (Or.inl ⟨items, _, rfl, List.eraseIdx_sublist items i, rfl⟩)⟩
      | set members =>
          cases slot with
          | entry name => cases ho
          | child i =>
              simp only [take, ho] at ht
              cases ht
              exact ⟨rfl, Or.inr (Or.inr ⟨members, _, rfl, List.eraseIdx_sublist members i, rfl⟩)⟩
      | record name fields => cases ht

/-- **Taking a child out of a proper container leaves it proper.** -/
theorem take_isProper {node : Document} {slot : Slot} {written : Written} (h : node.IsProper)
    (ht : node.take slot = .ok written) : written.document.IsProper := by
  obtain ⟨-, -, -, ⟨entries, kept, rfl, hkept, he⟩ | ⟨items, kept, rfl, hkept, he⟩ |
    ⟨members, kept, rfl, hkept, he⟩⟩ := take_forms ht <;> rw [he]
  · exact h.entries_sublist hkept
  · refine h.of_parts rfl rfl fun part hpart => Or.inl ?_
    rw [parts_sequence] at hpart ⊢
    exact hkept.mem hpart
  · exact h.sublist hkept

end Document

namespace Navigator

variable {navigator : Navigator}

/-! ## Whole writes -/

/-- The value that an operation stores at a path, if it stores one. -/
def valueOf? (navigator : Navigator) (document : Document) (path : Path) :
    Operation → Option Document
  | .set (.value value) => some value
  | .set (.compute f) =>
    (navigator.get document path).toOption.bind fun current => (f current).toOption
  | .remove => none

/-- Whether an operation goes below a member of a set and makes another member's twin of it. -/
def Clashes (navigator : Navigator) (document : Document) (path : Path)
    (operation : Operation) : Prop :=
  ∃ (above : Path) (token : Token) (below : Path) (members : List Document) (i : Nat)
    (member : Document) (written : Written),
    path = above ++ token :: below ∧ below ≠ [] ∧
    navigator.get document above = .ok (.set members) ∧
    navigator.child (.set members) token = .ok (.child i, member) ∧
    navigator.write member below operation = .ok written ∧
    Document.hasOther members i written.document = true

theorem toOption_follow (p q : Path) (node : Document) (tokens : List Token) :
    (navigator.follow p node tokens).toOption = (navigator.follow q node tokens).toOption := by
  induction tokens generalizing node with
  | nil => rfl
  | cons token rest ih =>
      rw [follow, follow]
      split
      · rfl
      · exact ih _

/-- The value below a child is the value in the child. -/
theorem get_cons_eq_ok_iff {node child value : Document} {token : Token} {slot : Slot} {path : Path}
    (hc : navigator.child node token = .ok (slot, child)) :
    navigator.get node (token :: path) = .ok value ↔ navigator.get child path = .ok value := by
  rw [get, get, follow_cons_of_child hc]
  exact ⟨follow_path, follow_path⟩

/-- A path that leads to a value leads to a child first. -/
theorem get_cons_cases {node value : Document} {token : Token} {path : Path}
    (hg : navigator.get node (token :: path) = .ok value) :
    ∃ slot child, navigator.child node token = .ok (slot, child) ∧
      navigator.get child path = .ok value := by
  obtain ⟨slot, child, hc, hrest⟩ := follow_cons_eq_ok_iff.1 hg
  exact ⟨slot, child, hc, follow_path hrest⟩

/-- What holds everywhere in a document holds everywhere in the value at a path. -/
theorem everywhere_of_get {condition : Document → Bool} {document value : Document} {path : Path}
    (h : document.everywhere condition = true) (hg : navigator.get document path = .ok value) :
    value.everywhere condition = true := by
  induction path generalizing document with
  | nil =>
      cases hg
      exact h
  | cons token rest ih =>
      obtain ⟨slot, child, hc, hrest⟩ := get_cons_cases hg
      have hpart := Document.mem_parts_of_at? (child_eq_ok_iff.1 hc).2
      exact ih ((Document.everywhere_iff.1 h).2 _ hpart) hrest

/-- An operation below a child stores the same value as in the child. -/
theorem valueOf?_cons {node child : Document} {token : Token} {slot : Slot} {path : Path}
    (hc : navigator.child node token = .ok (slot, child)) (operation : Operation) :
    navigator.valueOf? node (token :: path) operation = navigator.valueOf? child path operation := by
  cases operation with
  | remove => rfl
  | set replacement =>
      cases replacement with
      | value value => rfl
      | compute f =>
          rw [valueOf?, valueOf?, get, get, follow_cons_of_child hc,
            toOption_follow (token :: path) path]

/-- A write below a child that succeeds is a write in the child. -/
theorem write_cons_eq_ok_iff {node child : Document} {token : Token} {slot : Slot} {path : Path}
    {operation : Operation} {written : Written}
    (hc : navigator.child node token = .ok (slot, child)) (hp : path ≠ []) :
    navigator.write node (token :: path) operation = .ok written ↔
      ∃ inner, navigator.write child path operation = .ok inner ∧
        { inner with document := node.put slot inner.document } = written := by
  -- the write below the child succeeds or fails alike on both sides
  cases hw : navigator.write child path operation with
  | error e =>
      have halike := write_child hc hp operation
      rw [hw] at halike
      rcases mapError_cases halike with ⟨value, -, he⟩ | ⟨e', -, he, -, -⟩
      · cases he
      · simp [he]
  | ok inner =>
      have halike := write_child hc hp operation
      rw [hw] at halike
      rcases mapError_cases halike with ⟨value, hv, he⟩ | ⟨-, e', -, he, -⟩
      · cases he
        simp [hv]
      · cases he

/-- A write below a child finds the child. -/
theorem exists_child_of_write {node : Document} {token : Token} {path : Path}
    {operation : Operation} {written : Written} (hp : path ≠ [])
    (hw : navigator.write node (token :: path) operation = .ok written) :
    ∃ slot child, navigator.child node token = .ok (slot, child) := by
  cases hc : navigator.child node token with
  | ok found => exact ⟨found.1, found.2, rfl⟩
  | error miss =>
      obtain ⟨parents, last, rfl⟩ := (List.eq_nil_or_concat path).resolve_left hp
      have hsplit : token :: parents.concat last = (token :: parents) ++ [last] := by
        rw [List.concat_eq_append, List.cons_append]
      rw [hsplit, write, List.getLast?_concat, List.dropLast_concat] at hw
      simp only [descend, hc] at hw
      cases hw

/-- What the last step of a write does if it succeeds. -/
theorem applyLast_cases {path : Path} {last : Token} {node : Document} {operation : Operation}
    {written : Written} (h : navigator.applyLast path last node operation = .ok written) :
    (∃ slot, operation = .remove ∧ node.take slot = .ok written) ∨
      ∃ target replacement value, operation = .set replacement ∧
        navigator.target node last = .ok target ∧
        valueFor path last node target replacement = .ok value ∧
        node.store target value = .ok written := by
  -- turning a miss into an error makes no success
  have hmiss : ∀ result : Except Miss Written,
      result.mapError (·.toError path last) = .ok written → result = .ok written := by
    intro result hr
    cases result with
    | error miss => cases hr
    | ok other =>
        cases hr
        rfl
  cases operation with
  | remove =>
      rw [applyLast] at h
      split at h
      · cases h
      · exact Or.inl ⟨_, rfl, hmiss _ h⟩
  | set replacement =>
      rw [applyLast] at h
      split at h
      · cases h
      · rename_i target ht
        split at h
        · cases h
        · rename_i value hv
          exact Or.inr ⟨target, replacement, value, rfl, ht, hv, hmiss _ h⟩

/-- The value that the last step of a write stores is that of the operation. -/
theorem valueOf?_of_valueFor {path : Path} {last : Token} {node value : Document} {target : Target}
    {replacement : Replacement} (ht : navigator.target node last = .ok target)
    (hv : valueFor path last node target replacement = .ok value) :
    navigator.valueOf? node [last] (.set replacement) = some value := by
  cases replacement with
  | value fixed =>
      have hfixed : fixed = value := by
        cases target <;> exact Except.ok.inj hv
      exact congrArg some hfixed
  | compute f =>
      rcases target_cases ht with ⟨slot, rfl, hl⟩ | ⟨_, -, rfl, -⟩ | ⟨_, -, rfl, -⟩ | ⟨_, -, rfl, -⟩
      · rw [valueFor] at hv
        cases ho : node.at? slot with
        | none =>
            rw [ho] at hv
            cases hv
        | some current =>
            simp only [ho] at hv
            have hget : navigator.get node [last] = .ok current :=
              follow_cons_of_child (child_eq_ok_iff.2 ⟨hl, ho⟩) []
            rw [valueOf?, hget]
            change (f current).toOption = some value
            rw [hv]
            rfl
      -- a function has nothing to work on where there is no value yet
      · cases hv
      · cases hv
      · cases hv

/-- **A write of one token leaves a proper container proper.** -/
theorem write_singleton_isProper {node : Document} {token : Token} {operation : Operation}
    {written : Written} (h : node.IsProper)
    (hv : ∀ value, navigator.valueOf? node [token] operation = some value → value.IsProper)
    (hw : navigator.write node [token] operation = .ok written) : written.document.IsProper := by
  rcases applyLast_cases hw with ⟨slot, rfl, ht⟩ | ⟨target, replacement, value, rfl, ht, hvalue, hs⟩
  · exact Document.take_isProper h ht
  · exact Document.store_isProper h (hv value (valueOf?_of_valueFor ht hvalue)) hs

theorem not_clashes_singleton (node : Document) (token : Token) (operation : Operation) :
    ¬ navigator.Clashes node [token] operation := by
  rintro ⟨above, first, below, -, -, -, -, hp, hbelow, -⟩
  -- there is no room for a path above and one below in a path of one token
  have hlength := congrArg List.length hp
  have hpos := List.length_pos_iff.2 hbelow
  rw [List.length_singleton, List.length_append, List.length_cons] at hlength
  omega

/-- **A write clashes in the container that it goes through first or in the child there.** -/
theorem clashes_cons_iff {node child : Document} {token : Token} {slot : Slot} {path : Path}
    {operation : Operation} {inner : Written}
    (hc : navigator.child node token = .ok (slot, child)) (hp : path ≠ [])
    (hw : navigator.write child path operation = .ok inner) :
    navigator.Clashes node (token :: path) operation ↔
      node.hasTwin slot inner.document = true ∨ navigator.Clashes child path operation := by
  constructor
  · rintro ⟨above, first, below, members, i, member, written, hpath, hbelow, hget, hchild, hwrite,
      hother⟩
    -- the clash lies at the first token, or below it
    cases above with
    | nil =>
        cases hpath
        cases hget
        cases hc.symm.trans hchild
        cases hw.symm.trans hwrite
        exact Or.inl hother
    | cons head above =>
        cases hpath
        exact Or.inr ⟨above, first, below, members, i, member, written, rfl, hbelow,
          (get_cons_eq_ok_iff hc).1 hget, hchild, hwrite, hother⟩
  · rintro (htwin | ⟨above, first, below, members, i, member, written, rfl, hbelow, hget, hrest⟩)
    · unfold Document.hasTwin at htwin
      split at htwin
      · rename_i members i
        exact ⟨[], token, path, members, i, child, inner, rfl, hp, rfl, hc, hw, htwin⟩
      · cases htwin
    · exact ⟨token :: above, first, below, members, i, member, written, rfl, hbelow,
        (get_cons_eq_ok_iff hc).2 hget, hrest⟩

/-- A write that clashes succeeds. -/
theorem Clashes.exists_write {document : Document} {path : Path} {operation : Operation}
    (h : navigator.Clashes document path operation) :
    ∃ written, navigator.write document path operation = .ok written := by
  obtain ⟨above, token, below, members, i, member, inner, rfl, hbelow, hget, hchild, hwrite, -⟩ := h
  induction above generalizing document with
  | nil =>
      cases hget
      exact ⟨_, (write_cons_eq_ok_iff hchild hbelow).2 ⟨inner, hwrite, rfl⟩⟩
  | cons head above ih =>
      cases hc : navigator.child document head with
      | error miss =>
          rw [get, follow, hc] at hget
          cases hget
      | ok found =>
          obtain ⟨written, hw⟩ := ih ((get_cons_eq_ok_iff hc).1 hget)
          exact ⟨_, (write_cons_eq_ok_iff hc (by simp)).2 ⟨written, hw, rfl⟩⟩

/-- **A write of a proper value leaves a proper document proper exactly if it does not clash.** The
names of the mappings stay different in any case. -/
theorem write_isProper_iff {document : Document} {path : Path} {operation : Operation}
    {written : Written} (h : document.IsProper)
    (hv : ∀ value, navigator.valueOf? document path operation = some value → value.IsProper)
    (hw : navigator.write document path operation = .ok written) :
    written.document.namesDistinct = true ∧
      (written.document.IsProper ↔ ¬ navigator.Clashes document path operation) := by
  -- induction on the path; on the way back each container puts the changed child into its slot
  induction path generalizing document written with
  | nil =>
      have hclash : ¬ navigator.Clashes document [] operation := by
        rintro ⟨above, token, below, -, -, -, -, hpath, -⟩
        cases above <;> cases hpath
      have hproper : written.document.IsProper := by
        cases operation with
        | remove => cases hw
        | set replacement =>
            cases replacement with
            | value value =>
                cases hw
                exact hv value rfl
            | compute f =>
                change (f document).map _ = .ok written at hw
                cases hf : f document with
                | error e =>
                    rw [hf] at hw
                    cases hw
                | ok value =>
                    rw [hf] at hw
                    cases hw
                    apply hv value
                    change (f document).toOption = some value
                    rw [hf]
                    rfl
      exact ⟨hproper.names, iff_of_true hproper hclash⟩
  | cons token path ih =>
      by_cases hp : path = []
      · subst hp
        have hproper := write_singleton_isProper h hv hw
        exact ⟨hproper.names, iff_of_true hproper (not_clashes_singleton document token operation)⟩
      · obtain ⟨slot, child, hc⟩ := exists_child_of_write hp hw
        obtain ⟨inner, hinner, rfl⟩ := (write_cons_eq_ok_iff hc hp).1 hw
        obtain ⟨-, ho⟩ := child_eq_ok_iff.1 hc
        have hvalue : ∀ value, navigator.valueOf? child path operation = some value →
            value.IsProper := by
          intro value hs
          apply hv
          rwa [valueOf?_cons hc]
        obtain ⟨hnames, hiff⟩ := ih (h.at? ho) hvalue hinner
        refine ⟨Document.namesDistinct_put h.names ho hnames, ?_⟩
        rw [clashes_cons_iff hc hp hinner, not_or, Document.put_isProper_iff h ho hnames, hiff,
          Bool.not_eq_true]
        exact and_comm

end Navigator

/-! ## Runs of writes -/

namespace Batch

/-- The batch after an operation at a path. One that fails leaves it as it was. -/
def carryOut (batch : Batch) (path : Path) : Operation → Batch
  | .set replacement =>
    match batch.set path replacement with
    | .ok next => next
    | .error _ => batch
  | .remove =>
    match batch.remove path with
    | .ok (_, next) => next
    | .error _ => batch

/-- The operations of a run, each with the batch that it finds. -/
def steps : Batch → List (Path × Operation) → List (Batch × Path × Operation)
  | _, [] => []
  | batch, (path, operation) :: rest =>
    (batch, path, operation) :: (batch.carryOut path operation).steps rest

/-- The document after an operation. -/
theorem carryOut_cases (batch : Batch) (path : Path) (operation : Operation) :
    (∃ written, batch.navigator.write batch.document path operation = .ok written ∧
        (batch.carryOut path operation).document = written.document) ∨
      (∃ e, batch.navigator.write batch.document path operation = .error e ∧
        batch.carryOut path operation = batch) := by
  cases operation with
  | set replacement =>
      rw [carryOut, set]
      cases batch.navigator.write batch.document path (.set replacement) with
      | ok written => exact Or.inl ⟨written, rfl, rfl⟩
      | error e => exact Or.inr ⟨e, rfl, rfl⟩
  | remove =>
      rw [carryOut, remove]
      cases batch.navigator.write batch.document path .remove with
      | ok written => exact Or.inl ⟨written, rfl, rfl⟩
      | error e => exact Or.inr ⟨e, rfl, rfl⟩

/-- Whether an operation on a batch makes a member of a set another member's twin. -/
def Clashes (batch : Batch) (path : Path) (operation : Operation) : Prop :=
  batch.navigator.Clashes batch.document path operation

/-- Whether what an operation stores in a batch, if anything, is proper. -/
def StoresProper (batch : Batch) (path : Path) (operation : Operation) : Prop :=
  ∀ value, batch.navigator.valueOf? batch.document path operation = some value → value.IsProper

/-- **An operation keeps the document of a batch proper exactly if it does not clash.** -/
theorem carryOut_isProper_iff {batch : Batch} {path : Path} {operation : Operation}
    (h : batch.document.IsProper) (hv : batch.StoresProper path operation) :
    (batch.carryOut path operation).document.namesDistinct = true ∧
      ((batch.carryOut path operation).document.IsProper ↔ ¬ batch.Clashes path operation) := by
  rcases carryOut_cases batch path operation with ⟨written, hw, hd⟩ | ⟨e, hw, hb⟩
  · rw [hd]
    exact Navigator.write_isProper_iff h hv hw
  · rw [hb]
    -- a write that fails changes nothing, and one that clashes does not fail
    refine ⟨h.names, iff_of_true h fun hclash => ?_⟩
    obtain ⟨written, hok⟩ := hclash.exists_write
    cases hw.symm.trans hok

/-- **A run keeps the members of every set different exactly if none of its operations clashes.** -/
theorem membersDistinct_steps_iff {batch : Batch} {operations : List (Path × Operation)}
    (h : batch.document.IsProper)
    (hv : ∀ step ∈ batch.steps operations, step.1.StoresProper step.2.1 step.2.2) :
    (∀ step ∈ batch.steps operations,
        (step.1.carryOut step.2.1 step.2.2).document.membersDistinct = true) ↔
      ∀ step ∈ batch.steps operations, ¬ step.1.Clashes step.2.1 step.2.2 := by
  -- induction on the operations; as long as none clashes the next one finds a proper document
  induction operations generalizing batch with
  | nil => exact iff_of_true (fun _ hs => nomatch hs) (fun _ hs => nomatch hs)
  | cons operation rest ih =>
      obtain ⟨path, operation⟩ := operation
      rw [steps, List.forall_mem_cons] at hv
      simp only [steps, List.forall_mem_cons]
      obtain ⟨hnames, hiff⟩ := carryOut_isProper_iff h hv.1
      constructor
      · rintro ⟨hm, hrest⟩
        have hproper : (batch.carryOut path operation).document.IsProper := ⟨hnames, hm⟩
        exact ⟨hiff.1 hproper, (ih hproper hv.2).1 hrest⟩
      · rintro ⟨hclash, hrest⟩
        have hproper := hiff.2 hclash
        exact ⟨hproper.members, (ih hproper hv.2).2 hrest⟩

/-- A member is changed from within and another one is taken out. -/
theorem membersDistinct_steps_two_members :
    let batch : Batch :=
      .start .standard (.set [.mapping [("a", .int 1)], .mapping [("a", .int 2)]])
    let operations : List (Path × Operation) :=
      [([.index 0, .key "a"], .set (.value (.int 3))), ([.index 1], .remove)]
    batch.document.IsProper ∧
      (∀ step ∈ batch.steps operations, step.1.StoresProper step.2.1 step.2.2) ∧
      ((∀ step ∈ batch.steps operations,
          (step.1.carryOut step.2.1 step.2.2).document.membersDistinct = true) ↔
        ∀ step ∈ batch.steps operations, ¬ step.1.Clashes step.2.1 step.2.2) := by
  intro batch operations
  have hproper : batch.document.IsProper := ⟨by decide, by decide⟩
  -- the only value that is stored is a number
  have hstores : ∀ step ∈ batch.steps operations, step.1.StoresProper step.2.1 step.2.2 := by
    intro step hs value hv
    rcases List.mem_cons.1 hs with rfl | hs
    · cases hv
      exact ⟨rfl, rfl⟩
    · rw [List.mem_singleton.1 hs] at hv
      cases hv
  exact ⟨hproper, hstores, membersDistinct_steps_iff hproper hstores⟩

/-- A write below one of two different members makes them equal. -/
theorem not_membersDistinct_set_below_member :
    let batch : Batch :=
      .start .standard (.set [.mapping [("a", .int 1)], .mapping [("a", .int 2)]])
    let after := (batch.carryOut [.index 0, .key "a"] (.set (.value (.int 2)))).document
    batch.document.IsProper ∧ (Document.int 2).IsProper ∧
      after = .set [.mapping [("a", .int 2)], .mapping [("a", .int 2)]] ∧
      after.membersDistinct = false :=
  ⟨⟨by decide, by decide⟩, ⟨rfl, rfl⟩, rfl, by decide⟩

end Batch

end PathDoc

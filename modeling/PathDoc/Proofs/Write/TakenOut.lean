import PathDoc.Proofs.Write.Frame

/-!
# What a removal takes out

A removal takes one child out of one container: the positions behind it move down by one, and all
else keeps its place (`Removed`). Only a record does not give up its children (`take_of_at?`). The
walk to the container fails exactly where reading does (`exists_descend_iff`), so a removal succeeds
exactly if the path leads to a child of a container other than a record, and by induction on the
path nothing but that container changes (`takenAt_of_descend`). `take_takenOut` says so of a removal
at a path.
-/

set_option autoImplicit false

namespace PathDoc

/-- What becomes of the token of a child when the child at another token, the gap, is gone:
positions behind it move down by one. -/
def Token.closing (gap token : Token) : Token :=
  match gap, token with
  | .index i, .index j => if i < j then .index (j - 1) else .index j
  | _, token => token

namespace Document

/-- Children without the one at a token, the gap. The others stay as they are and in their order;
those behind the gap move down. -/
def closeGap (gap : Token) (children : List (Token × Document)) : List (Token × Document) :=
  (children.filter (·.1 != gap)).map fun child => (gap.closing child.1, child.2)

/-- A container and what is left of it without the child at a token. -/
structure Removed (a b : Document) (gap : Token) (value : Document) : Prop where
  /-- The child that is gone. -/
  child : a.child? gap = some value
  /-- The container keeps its kind. -/
  marker : Marker.ofDocument? b = Marker.ofDocument? a
  /-- The other children. -/
  children : b.children = closeGap gap a.children

/-! ## Closing a gap -/

theorem closeGap_cons_self (gap : Token) (value : Document) (rest : List (Token × Document)) :
    closeGap gap ((gap, value) :: rest) = closeGap gap rest := by
  simp [closeGap]

theorem closeGap_cons {gap token : Token} (h : token ≠ gap) (value : Document)
    (rest : List (Token × Document)) :
    closeGap gap ((token, value) :: rest) = (gap.closing token, value) :: closeGap gap rest := by
  simp [closeGap, h]

theorem closing_before {i j : Nat} (h : j ≤ i) :
    (Token.index i).closing (.index j) = .index j := by
  rw [Token.closing, if_neg (by omega)]

theorem closing_behind {i j : Nat} (h : i ≤ j) :
    (Token.index i).closing (.index (j + 1 : Nat)) = .index j := by
  rw [Token.closing, if_pos (by omega), Int.natCast_succ, Int.add_sub_cancel]

theorem index_ne_index {i j : Nat} (h : i ≠ j) : Token.index i ≠ Token.index j := by
  rw [Ne, Token.index.injEq]
  omega

/-- Behind a gap every item moves down. -/
theorem closeGap_behind {i start : Nat} (h : i ≤ start) (items : List Document) :
    closeGap (.index i) (positions (start + 1) items) = positions start items := by
  induction items generalizing start with
  | nil => rfl
  | cons item rest ih =>
      rw [positions, closeGap_cons (index_ne_index (by omega)), closing_behind h,
        ih (Nat.le_succ_of_le h), positions]

/-- **The items that are left when one is gone.** -/
theorem positions_eraseIdx (start i : Nat) (items : List Document) :
    positions start (items.eraseIdx i) =
      closeGap (.index (start + i : Nat)) (positions start items) := by
  induction items generalizing start i with
  | nil => rfl
  | cons item rest ih =>
      cases i with
      | zero =>
          rw [List.eraseIdx_cons_zero, positions, Nat.add_zero, closeGap_cons_self,
            closeGap_behind (Nat.le_refl start)]
      | succ i =>
          have hnext : start + (i + 1) = start + 1 + i := by omega
          rw [List.eraseIdx_cons_succ, positions, positions,
            closeGap_cons (index_ne_index (by omega)), closing_before (by omega), hnext, ih]

/-- The entries that are left when one is gone. -/
theorem children_erase (entries : List (String × Document)) (name : String) :
    (mapping (Entries.erase entries name)).children =
      closeGap (.key name) (mapping entries).children := by
  rw [children, children]
  induction entries with
  | nil => rfl
  | cons entry rest ih =>
      obtain ⟨k, value⟩ := entry
      rw [Entries.erase] at ih ⊢
      by_cases hk : k = name
      · rw [hk, List.map_cons, closeGap_cons_self, ← ih, List.filter_cons_of_neg (by simp)]
      · have hne : Token.key k ≠ Token.key name := fun h => hk (Token.key.inj h)
        rw [List.map_cons, closeGap_cons hne, ← ih, List.filter_cons_of_pos (by simpa using hk)]
        rfl

/-! ## Taking a child out of a container -/

/-- **A container other than a record gives up every child of its own.** -/
theorem take_of_at? {node old : Document} {slot : Slot} (hs : node.hasSlot slot = true)
    (ha : node.at? slot = some old) (hk : node.kind ≠ .record) :
    ∃ reduced, node.take slot = .ok ⟨reduced, some old, true⟩ ∧
      Removed node reduced slot.token old := by
  have hc : node.child? slot.token = some old := by rw [← at?_eq_child? hs, ha]
  cases node with
  | scalar value => cases slot <;> cases ha
  | mapping entries =>
      cases slot with
      | child i => cases hs
      -- the later items move down, so the tokens of what is left are counted from the gap
      | entry name =>
          refine ⟨mapping (Entries.erase entries name), ?_, hc, rfl, children_erase entries name⟩
          simp [take, ha]
  | sequence items =>
      cases slot with
      | entry name => cases ha
      | child i =>
          have hchildren := positions_eraseIdx 0 i items
          rw [Nat.zero_add] at hchildren
          refine ⟨sequence (items.eraseIdx i), ?_, hc, rfl, hchildren⟩
          simp [take, ha]
  | set members =>
      cases slot with
      | entry name => cases ha
      | child i =>
          have hchildren := positions_eraseIdx 0 i members
          rw [Nat.zero_add] at hchildren
          refine ⟨set (members.eraseIdx i), ?_, hc, rfl, hchildren⟩
          simp [take, ha]
  | record name fields => exact absurd rfl hk

/-- What was taken out was there, and not in a record. -/
theorem at?_of_take {node : Document} {slot : Slot} {written : Written}
    (h : node.take slot = .ok written) :
    node.kind ≠ .record ∧ ∃ old, node.at? slot = some old := by
  rw [take.eq_def] at h
  split at h
  · cases h
  · rename_i hrecord
    split at h
    · cases h
    · rename_i old ha
      refine ⟨?_, old, ha⟩
      cases node with
      | record name fields => exact absurd rfl (hrecord name fields)
      | _ => exact Kind.noConfusion

end Document

namespace Navigator

open Document (Removed)

variable {navigator : Navigator} {path : Path} {last : Token} {node : Document}

/-- **A removal from a container** takes out the child that the last token leads to. -/
theorem removed_of_applyLast (hn : navigator.IsStandard) {written : Written}
    (h : navigator.applyLast path last node .remove = .ok written) :
    node.kind ≠ .record ∧ ∃ slot value, navigator.child node last = .ok (slot, value) ∧
      written.previous = some value ∧ Removed node written.document slot.token value := by
  rw [applyLast] at h
  split at h
  · cases h
  · rename_i slot hl
    cases ht : node.take slot with
    | error miss =>
        rw [ht] at h
        cases h
    | ok taken =>
        rw [ht] at h
        cases h
        obtain ⟨hk, old, ha⟩ := Document.at?_of_take ht
        obtain ⟨reduced, htake, hremoved⟩ := Document.take_of_at? (hasSlot_of_locate hn hl) ha hk
        cases ht.symm.trans htake
        exact ⟨hk, slot, old, child_eq_ok_iff.2 ⟨hl, ha⟩, rfl, hremoved⟩

/-- **A removal from a container succeeds** exactly if the last token leads to a child of it and it
is not a record. -/
theorem exists_applyLast_remove_iff (hn : navigator.IsStandard) :
    (∃ written, navigator.applyLast path last node .remove = .ok written) ↔
      node.kind ≠ .record ∧ ∃ slot value, navigator.child node last = .ok (slot, value) := by
  constructor
  · rintro ⟨written, h⟩
    obtain ⟨hk, slot, value, hc, -⟩ := removed_of_applyLast hn h
    exact ⟨hk, slot, value, hc⟩
  · rintro ⟨hk, slot, value, hc⟩
    obtain ⟨hl, ha⟩ := child_eq_ok_iff.1 hc
    obtain ⟨reduced, htake, -⟩ := Document.take_of_at? (hasSlot_of_locate hn hl) ha hk
    refine ⟨⟨reduced, some value, true⟩, ?_⟩
    rw [applyLast, hl]
    dsimp only
    rw [htake]
    rfl

/-- A document before and after a removal at the last token behind some others: the tokens lead to a
child of a container, and the container is the only one that changed. -/
structure TakenAt (navigator : Navigator) (a b : Document) (parents : List Token) (last : Token)
    (value : Document) (above : Path) (gap : Token) : Prop where
  location : navigator.location a (parents ++ [last]) = some (above ++ [gap])
  read : ∀ path, navigator.follow path a (parents ++ [last]) = .ok value
  container : ∃ c d, a.nodeAt? above = some c ∧ Removed c d gap value ∧ Document.Frame a b above d

theorem takenAt_last {reduced value : Document} {slot : Slot}
    (hc : navigator.child node last = .ok (slot, value))
    (h : Removed node reduced slot.token value) :
    TakenAt navigator node reduced [] last value [] slot.token where
  location := by
    rw [List.nil_append, location_cons_of_child hc]
    rfl
  read path := by
    rw [List.nil_append, follow_cons_of_child hc]
    rfl
  container := ⟨node, reduced, rfl, h, Document.Frame.root node reduced⟩

/-- **A removal below a child is a removal below the container.** -/
theorem TakenAt.child (hn : navigator.IsStandard) {child changed value : Document}
    {token gap : Token} {slot : Slot} {parents : List Token} {above : Path}
    (hc : navigator.child node token = .ok (slot, child))
    (h : TakenAt navigator child changed parents last value above gap) :
    TakenAt navigator node (node.put slot changed) (token :: parents) last value
      (slot.token :: above) gap := by
  obtain ⟨-, hchanged, htokens⟩ := child_put hn hc changed
  obtain ⟨c, d, hnode, hremoved, hframe⟩ := h.container
  have hbelow := child?_of_child hn hc
  refine ⟨?_, ?_, c, d, ?_, hremoved, Document.Frame.child hchanged htokens hbelow hframe⟩
  · rw [List.cons_append, location_cons_of_child hc, h.location]
    rfl
  · intro path
    rw [List.cons_append, follow_cons_of_child hc]
    exact h.read path
  · rw [Document.nodeAt?, hbelow]
    exact hnode

/-- **A walk with a removal at its end changes one container.** -/
theorem takenAt_of_descend (hn : navigator.IsStandard) {parents : List Token} {written : Written}
    (h : navigator.descend path (fun node => navigator.applyLast path last node .remove) node
      parents = .ok written) :
    ∃ value above gap, written.previous = some value ∧
      TakenAt navigator node written.document parents last value above gap := by
  -- induction on the tokens above the last one; one level is put around the frame at each
  induction parents generalizing node written with
  | nil =>
      obtain ⟨-, slot, value, hc, hprevious, hremoved⟩ := removed_of_applyLast hn h
      exact ⟨value, [], slot.token, hprevious, takenAt_last hc hremoved⟩
  | cons token rest ih =>
      obtain ⟨slot, child, inner, hc, hinner, rfl⟩ := descend_cons_eq_ok_iff.1 h
      obtain ⟨value, above, gap, hprevious, htaken⟩ := ih hinner
      exact ⟨value, slot.token :: above, gap, hprevious, htaken.child hn hc⟩

end Navigator

namespace Document

/-- **A document and what is left of it without one node.** The node is a child, with a token, of
the container at an address. -/
structure TakenOut (a b : Document) (above : Path) (gap : Token) (value : Document) : Prop where
  /-- The container is without the child, and has closed the gap. -/
  container : ∃ c d, a.nodeAt? above = some c ∧ b.nodeAt? above = some d ∧ Removed c d gap value
  /-- The containers above keep their kinds, their names and the order of their children. -/
  outlines : ∀ q, q <+: above → q ≠ above →
    (b.nodeAt? q).map outline = (a.nodeAt? q).map outline
  /-- What lies neither above nor in the container is as before. -/
  others : ∀ q, ¬ q <+: above → ¬ above <+: q → b.nodeAt? q = a.nodeAt? q

/-- Where a node stands already, a change of it adds nothing to the containers above. -/
theorem Frame.outlines {a b c d : Document} {above : Path} (h : Frame a b above d)
    (hc : a.nodeAt? above = some c) (q : Path) (hstart : q <+: above) (hne : q ≠ above) :
    (b.nodeAt? q).map outline = (a.nodeAt? q).map outline := by
  obtain ⟨rest, rfl⟩ := hstart
  cases rest with
  | nil => exact absurd (List.append_nil q).symm hne
  | cons token rest =>
      obtain ⟨x, y, hx, hy, hmarker, htokens⟩ := h.containers q token
        ⟨rest, by rw [List.append_assoc, List.singleton_append]⟩
      rw [hx, hy, Option.map_some, Option.map_some, outline, outline, hmarker]
      rcases htokens with htokens | ⟨-, hnew, -⟩
      · rw [htokens]
      · -- the token leads on to the node, so it is not a new one
        rw [nodeAt?_append, hx, Option.bind_some, nodeAt?] at hc
        obtain ⟨child, hchild, -⟩ := Option.bind_eq_some_iff.1 hc
        exact absurd (exists_child?_iff.1 ⟨child, hchild⟩) hnew

/-- A change of a container that takes out a child takes it out of the document. -/
theorem Frame.takenOut {a b c d value : Document} {above : Path} {gap : Token}
    (h : Frame a b above d) (hc : a.nodeAt? above = some c) (hr : Removed c d gap value) :
    TakenOut a b above gap value where
  container := ⟨c, d, hc, h.value, hr⟩
  outlines := h.outlines hc
  others := h.others

end Document

namespace Navigator

variable {navigator : Navigator} {path : Path} {document : Document}

theorem write_remove_concat (document : Document) (parents : List Token) (last : Token) :
    navigator.write document (parents ++ [last]) .remove =
      navigator.descend (parents ++ [last])
        (fun node => navigator.applyLast (parents ++ [last]) last node .remove) document
          parents := by
  rw [write, List.getLast?_concat, List.dropLast_concat]

/-- **A removal succeeds** exactly where there is something to read, save at the root and in
records. -/
theorem exists_write_remove_iff (hn : navigator.IsStandard) :
    (∃ written, navigator.write document path .remove = .ok written) ↔
      path ≠ [] ∧ (∃ value, navigator.get document path = .ok value) ∧
        ∀ container, navigator.get document path.dropLast = .ok container →
          container.kind ≠ .record := by
  rcases List.eq_nil_or_concat path with rfl | ⟨parents, last, rfl⟩
  · refine iff_of_false ?_ fun h => h.1 rfl
    rintro ⟨written, h⟩
    cases h
  · rw [List.concat_eq_append, write_remove_concat, exists_descend_iff, List.dropLast_concat]
    simp only [exists_applyLast_remove_iff hn]
    constructor
    · -- the container of the last token is what the walk over the parents reaches
      rintro ⟨container, hfollow, hk, slot, value, hc⟩
      refine ⟨by simp, ⟨value, follow_concat.2 ⟨container, hfollow, slot, hc⟩⟩, ?_⟩
      intro other hother
      cases hother.symm.trans (follow_path hfollow)
      exact hk
    · rintro ⟨-, ⟨value, hget⟩, hk⟩
      obtain ⟨container, hfollow, slot, hc⟩ := follow_concat.1 hget
      exact ⟨container, hfollow, hk container (follow_path hfollow), slot, value, hc⟩

/-- **What a removal gives back and what it leaves.** -/
theorem takenOut_of_write (hn : navigator.IsStandard) {written : Written}
    (h : navigator.write document path .remove = .ok written) :
    ∃ value, written.previous = some value ∧ navigator.get document path = .ok value ∧
      ∃ above gap, navigator.location document path = some (above ++ [gap]) ∧
        Document.TakenOut document written.document above gap value := by
  rcases List.eq_nil_or_concat path with rfl | ⟨parents, last, rfl⟩
  · cases h
  · rw [List.concat_eq_append] at h ⊢
    rw [write_remove_concat] at h
    obtain ⟨value, above, gap, hprevious, htaken⟩ := takenAt_of_descend hn h
    obtain ⟨c, d, hc, hremoved, hframe⟩ := htaken.container
    exact ⟨value, hprevious, htaken.read _, above, gap, htaken.location,
      hframe.takenOut hc hremoved⟩

/-- **A removal takes out one node.** With the standard navigator or without attributes it succeeds
exactly if the path is not the root, leads to a value, and the container of that value is not a
record. It gives the value back, and leaves the document without it: in the container the later
items move down by one and the entries keep their order, and all other nodes are as before. -/
theorem take_takenOut (hn : navigator.IsStandard) (document : Document) (path : Path) :
    ((∃ after, navigator.remove document path = .ok after) ↔
      path ≠ [] ∧ (∃ value, navigator.get document path = .ok value) ∧
        ∀ container, navigator.get document path.dropLast = .ok container →
          container.kind ≠ .record) ∧
    ∀ value after, navigator.take document path = .ok (value, after) →
      navigator.remove document path = .ok after ∧
      navigator.get document path = .ok value ∧
      ∃ above gap, navigator.location document path = some (above ++ [gap]) ∧
        Document.TakenOut document after above gap value := by
  constructor
  · -- removing is taking with the value dropped
    rw [← exists_write_remove_iff hn, remove, Navigator.take]
    cases navigator.write document path .remove with
    | error error => simp [Except.map]
    | ok written => simp [Except.map]
  · intro value after h
    rw [remove, h]
    rw [Navigator.take] at h
    cases hw : navigator.write document path .remove with
    | error error =>
        rw [hw] at h
        cases h
    | ok written =>
        rw [hw] at h
        obtain ⟨removed, hprevious, hget, hlocation⟩ := takenOut_of_write hn hw
        cases h
        rw [hprevious]
        exact ⟨rfl, hget, hlocation⟩

/-- The item before the last one of a sequence, counted from the end. -/
theorem take_takenOut_from_end :
    let document : Document :=
      .mapping [("a", .sequence [.int 1, .int 2, .int 3]), ("b", .null)]
    let after : Document := .mapping [("a", .sequence [.int 1, .int 3]), ("b", .null)]
    let path : Path := [.key "a", .index (-2)]
    standard.IsStandard ∧ standard.take document path = .ok (.int 2, after) ∧
      (∃ left, standard.remove document path = .ok left) ∧
      ∃ above gap, standard.location document path = some (above ++ [gap]) ∧
        Document.TakenOut document after above gap (.int 2) := by
  intro document after path
  have hn : standard.IsStandard := Or.inl rfl
  have htake : standard.take document path = .ok (.int 2, after) := by rfl
  obtain ⟨-, htaken⟩ := take_takenOut hn document path
  obtain ⟨hremove, -, haddress⟩ := htaken _ _ htake
  exact ⟨hn, htake, ⟨after, hremove⟩, haddress⟩

end Navigator

end PathDoc

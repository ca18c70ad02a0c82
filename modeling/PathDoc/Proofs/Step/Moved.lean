import PathDoc.Proofs.Step.ListedFirst
import PathDoc.Proofs.Write.Conserved

/-!
# Moving a value

A move takes a value out and then stores it at its target (`move_eq_ok_iff`). So the target is
looked up in what is left of the document, and what the move destroys is the value found there. If
the source is an entry of a mapping, a path leads to no more in what is left than it did before
(`Covers.replaceAt`), and nothing is lost but what stood at the target. Items of a sequence move
down when one before them is taken out: an item that is moved onto its own path takes the place of
a neighbour (`move_item`), of the next one or, if the path counts from the end, of the one before
(`locate_eraseIdx`). `move_scalars` puts this together, and `not_move_keeps_items` shows the loss.
-/

set_option autoImplicit false

namespace PathDoc

/-- Different slots have different tokens. -/
theorem Slot.token_injective {a b : Slot} (h : a.token = b.token) : a = b := by
  cases a <;> cases b <;> simp_all [Slot.token]

/-- A value that is put into a slot leaves the other slots as they are. -/
theorem Document.at?_put_of_ne {node old value : Document} {slot other : Slot}
    (hs : node.hasSlot slot = true) (ho : node.at? slot = some old)
    (hs' : node.hasSlot other = true) (hne : other ≠ slot) :
    (node.put slot value).at? other = node.at? other := by
  obtain ⟨hchanged, houtline⟩ := put_changedAt hs ho value
  have hput : (node.put slot value).hasSlot other = true := by
    rw [← hs']
    cases node <;> cases slot <;> cases other <;> rfl
  rw [at?_eq_child? hput, at?_eq_child? hs']
  exact hchanged.others _ fun h => hne (Slot.token_injective h)

/-! ## Items and their neighbours -/

/-- An item in the place of the one behind it. -/
theorem set_eraseIdx_of_next {α : Type} {items : List α} {i : Nat} {item : α}
    (hi : items[i]? = some item) (hlt : i + 1 < items.length) :
    (items.eraseIdx i).set i item = items.eraseIdx (i + 1) := by
  apply List.ext_getElem?
  intro k
  rw [List.getElem?_set, List.getElem?_eraseIdx, List.getElem?_eraseIdx, List.length_eraseIdx]
  grind

/-- An item in the place of the one before it. -/
theorem set_eraseIdx_of_previous {α : Type} {items : List α} {j : Nat} {item : α}
    (hi : items[j + 1]? = some item) :
    (items.eraseIdx (j + 1)).set j item = items.eraseIdx j := by
  apply List.ext_getElem?
  intro k
  rw [List.getElem?_set, List.getElem?_eraseIdx, List.getElem?_eraseIdx, List.length_eraseIdx]
  grind

/-- Whether a token counts the items of a sequence from the end: negative positions do, and the
attribute of the last item. -/
def Token.fromEnd : Token → Bool
  | .index position => decide (position < 0)
  | .key name => name == "last"

/-- The items that a sequence exposes as attributes. -/
theorem sequenceEnds_eq_some_iff {items : List Document} {name : String} {i : Nat} :
    Accessor.sequenceEnds (.sequence items) name = some i ↔
      (name = "first" ∧ i = 0 ∧ 0 < items.length) ∨ (name = "last" ∧ i + 1 = items.length) := by
  cases items with
  | nil => simp [Accessor.sequenceEnds]
  | cons item rest =>
      by_cases hfirst : name = "first"
      · subst hfirst
        simp [Accessor.sequenceEnds, eq_comm]
      · by_cases hlast : name = "last"
        · subst hlast
          simp [Accessor.sequenceEnds, eq_comm]
        · simp [Accessor.sequenceEnds, hfirst, hlast]

namespace Navigator

open Document (Reordered)

variable {navigator : Navigator} {document : Document}

/-- Where a key leads in a sequence. -/
theorem locate_sequence_key (hn : navigator.IsStandard) {items : List Document} {name : String}
    {slot : Slot} (h : navigator.locate (.sequence items) (.key name) = .ok slot) :
    ∃ i, slot = .child i ∧ Accessor.sequenceEnds (.sequence items) name = some i := by
  rcases hn with rfl | rfl
  · have hattribute : standard.attribute? (.sequence items) name =
        (Accessor.sequenceEnds (.sequence items) name).map .child := rfl
    have hlocate : standard.locate (.sequence items) (.key name) =
        standard.attributeOr (.sequence items) name "attribute" := rfl
    rw [hlocate, attributeOr, hattribute] at h
    cases he : Accessor.sequenceEnds (.sequence items) name with
    | none =>
        rw [he] at h
        cases h
    | some i =>
        rw [he] at h
        cases h
        exact ⟨i, rfl, rfl⟩
  · cases h

/-- Where a position leads in a sequence. -/
theorem locate_sequence_index {items : List Document} {position : Int} {slot : Slot}
    (h : navigator.locate (.sequence items) (.index position) = .ok slot) :
    ∃ i, slot = .child i ∧ Position.within? position items.length = some i := by
  rw [locate, positionOr] at h
  cases hw : Position.within? position items.length with
  | none =>
      rw [hw] at h
      cases h
  | some i =>
      rw [hw] at h
      cases h
      exact ⟨i, rfl, rfl⟩

/-- **Once an item is taken out its token leads to a neighbour**: to the item before it if the token
counts from the end, and else to the one that came behind it. -/
theorem locate_eraseIdx (hn : navigator.IsStandard) {items : List Document} {token : Token}
    {i : Nat} {slot : Slot} (hi : navigator.locate (.sequence items) token = .ok (.child i))
    (h : navigator.locate (.sequence (items.eraseIdx i)) token = .ok slot) :
    ∃ k, slot = .child k ∧ k + 1 < items.length ∧
      if token.fromEnd then k + 1 = i else k = i := by
  cases token with
  | index position =>
      obtain ⟨_, ⟨⟩, hi⟩ := locate_sequence_index hi
      obtain ⟨k, rfl, hk⟩ := locate_sequence_index h
      obtain ⟨hposition, hlt⟩ := Position.within?_eq_some_iff.1 hi
      obtain ⟨hposition', hlt'⟩ := Position.within?_eq_some_iff.1 hk
      rw [List.length_eraseIdx_of_lt hlt] at hposition' hlt'
      refine ⟨k, rfl, by omega, ?_⟩
      by_cases hneg : position < 0
      · rw [if_pos hneg] at hposition hposition'
        have hfrom : (Token.index position).fromEnd = true := decide_eq_true hneg
        rw [if_pos hfrom]
        omega
      · rw [if_neg hneg] at hposition hposition'
        have hfrom : ¬ (Token.index position).fromEnd = true := by
          rwa [Token.fromEnd, decide_eq_true_iff]
        rw [if_neg hfrom]
        omega
  | key name =>
      obtain ⟨_, ⟨⟩, hi⟩ := locate_sequence_key hn hi
      obtain ⟨k, rfl, hk⟩ := locate_sequence_key hn h
      rw [sequenceEnds_eq_some_iff] at hi hk
      -- the first item is followed by a new first one, the last one comes behind a new last one
      rcases hi with ⟨rfl, rfl, hpos⟩ | ⟨rfl, hlast⟩
      · rw [List.length_eraseIdx_of_lt hpos] at hk
        rcases hk with ⟨-, rfl, hlt⟩ | ⟨hname, -⟩
        · exact ⟨0, rfl, by omega, rfl⟩
        · exact absurd hname (by decide)
      · rw [List.length_eraseIdx_of_lt (by omega)] at hk
        rcases hk with ⟨hname, -⟩ | ⟨-, hlt⟩
        · exact absurd hname (by decide)
        · refine ⟨k, rfl, by omega, ?_⟩
          have hfrom : (Token.key "last").fromEnd = true := rfl
          rw [if_pos hfrom]
          omega

end Navigator

namespace Navigator

open Document (Reordered)

variable {navigator : Navigator} {document : Document}

/-- **A move takes a value out and then stores it.** -/
theorem move_eq_ok_iff {after : Document} {source target : Path} :
    navigator.move document source target = .ok after ↔
      ∃ value left, navigator.take document source = .ok (value, left) ∧
        navigator.set left target (.value value) = .ok after := by
  rw [move, bind_eq_ok_iff]
  simp only [Batch.remove, Batch.start, Navigator.take, map_eq_ok_iff]
  constructor
  · rintro ⟨_, ⟨effect, hremove, rfl⟩, h⟩
    obtain ⟨batch, hset, he⟩ := bind_eq_ok_iff.1 h
    obtain ⟨stored, hstored, rfl⟩ := map_eq_ok_iff.1 hset
    cases he
    exact ⟨_, _, ⟨effect, hremove, rfl⟩, map_eq_ok_iff.2 ⟨stored, hstored, rfl⟩⟩
  · rintro ⟨_, _, ⟨effect, hremove, he⟩, hset⟩
    cases he
    obtain ⟨stored, hstored, rfl⟩ := map_eq_ok_iff.1 hset
    refine ⟨_, ⟨effect, hremove, rfl⟩, bind_eq_ok_iff.2 ?_⟩
    exact ⟨_, map_eq_ok_iff.2 ⟨stored, hstored, rfl⟩, rfl⟩

/-! ## What paths lead to after a removal -/

/-- The entry of a mapping that a token leads to is the one with its name. -/
theorem child_mapping_eq_ok_iff (hn : navigator.IsStandard) {entries : Entries Document}
    {token : Token} {slot : Slot} {value : Document} :
    navigator.child (.mapping entries) token = .ok (slot, value) ↔
      slot = .entry token.text ∧ Entries.get? entries token.text = some value := by
  constructor
  · intro h
    obtain ⟨hl, ho⟩ := child_eq_ok_iff.1 h
    -- a position in a mapping stands for the name with its digits
    have hslot : slot = .entry token.text := by
      cases token with
      | key name =>
          rw [locate, attributeOr, attribute?_mapping hn] at hl
          split at hl
          · exact (Except.ok.inj hl).symm
          · cases hl
      | index position =>
          rw [locate] at hl
          split at hl
          · exact (Except.ok.inj hl).symm
          · cases hl
    subst hslot
    exact ⟨rfl, ho⟩
  · rintro ⟨rfl, h⟩
    exact child_mapping h

/-- Whether a path that leads to a value in the second document leads to one in the first document
too, with all the scalars of that value. -/
def Covers (navigator : Navigator) (a b : Document) : Prop :=
  ∀ path value, navigator.get b path = .ok value →
    ∃ wider, navigator.get a path = .ok wider ∧ value.scalars ≤ wider.scalars

/-- The documents themselves are what the empty path leads to. -/
theorem Covers.scalars_le {a b : Document} (h : navigator.Covers a b) : b.scalars ≤ a.scalars := by
  obtain ⟨wider, hwider, hle⟩ := h [] b rfl
  cases hwider
  exact hle

theorem Covers.scalarsAt_le {a b : Document} (h : navigator.Covers a b) (path : Path) :
    navigator.scalarsAt b path ≤ navigator.scalarsAt a path := by
  cases hg : navigator.get b path with
  | error error =>
      rw [scalarsAt, hg]
      exact Multiset.zero_le _
  | ok value =>
      obtain ⟨wider, hwider, hle⟩ := h path value hg
      rwa [scalarsAt_of_get hg, scalarsAt_of_get hwider]

/-- A mapping covers what is left of it without an entry. -/
theorem covers_erase (hn : navigator.IsStandard) {entries : Entries Document} {name : String}
    {old : Document} (hnames : (Entries.names entries).Nodup)
    (ho : Entries.get? entries name = some old) :
    navigator.Covers (.mapping entries) (.mapping (Entries.erase entries name)) := by
  intro path value hg
  cases path with
  | nil =>
      cases hg
      refine ⟨_, rfl, ?_⟩
      -- the mapping itself loses the scalars of the entry
      have hparts : (Document.mapping entries).parts.Perm
          (old :: (Document.mapping (Entries.erase entries name)).parts) := by
        rw [Document.parts_mapping, Document.parts_mapping]
        exact (Entries.perm_erase hnames ho).map Prod.snd
      rw [Document.scalars_of_perm Kind.noConfusion Kind.noConfusion hparts]
      exact Multiset.le_add_left _ _
  | cons token rest =>
      obtain ⟨slot, child, hc, hrest⟩ := get_cons_cases hg
      obtain ⟨rfl, hchild⟩ := (child_mapping_eq_ok_iff hn).1 hc
      -- another entry is where it was
      rw [Entries.get?_erase] at hchild
      split at hchild
      · cases hchild
      · exact ⟨value, (get_cons_eq_ok_iff (child_mapping hchild)).2 hrest, le_rfl⟩

/-- A container covers the same container with a child that is covered. -/
theorem Covers.put (hn : navigator.IsStandard) {node child inner : Document} {token : Token}
    {slot : Slot} (hc : navigator.child node token = .ok (slot, child))
    (h : navigator.Covers child inner) : navigator.Covers node (node.put slot inner) := by
  obtain ⟨hl, ho⟩ := child_eq_ok_iff.1 hc
  intro path value hg
  cases path with
  | nil =>
      cases hg
      refine ⟨node, rfl, ?_⟩
      -- the container itself: what the child has beyond the inner one is added on both sides
      refine le_of_add_le_add_right (a := child.scalars) ?_
      rw [Document.scalars_put ho inner]
      exact add_le_add_right h.scalars_le _
  | cons first rest =>
      obtain ⟨other, part, hpart, hrest⟩ := get_cons_cases hg
      obtain ⟨hl', ho'⟩ := child_eq_ok_iff.1 hpart
      have hlocate : navigator.locate node first = .ok other := by
        rw [← locate_of_outline hn (Document.outline_put ho inner), hl']
      -- through the child that is put, or past it
      by_cases hsame : other = slot
      · subst hsame
        rw [Document.at?_put ho] at ho'
        cases ho'
        obtain ⟨wider, hwider, hle⟩ := h rest value hrest
        exact ⟨wider, (get_cons_eq_ok_iff (child_eq_ok_iff.2 ⟨hlocate, ho⟩)).2 hwider, hle⟩
      · have hown := hasSlot_of_locate hn hl
        have hown' := hasSlot_of_locate hn hlocate
        rw [Document.at?_put_of_ne hown ho hown' hsame] at ho'
        exact ⟨value, (get_cons_eq_ok_iff (child_eq_ok_iff.2 ⟨hlocate, ho'⟩)).2 hrest, le_rfl⟩

/-- **A document covers what a covered value leaves of it.** -/
theorem Covers.replaceAt (hn : navigator.IsStandard) {path : Path} {old new : Document}
    (hg : navigator.get document path = .ok old) (h : navigator.Covers old new) :
    navigator.Covers document (navigator.replaceAt document path new) := by
  induction path generalizing document with
  | nil =>
      cases hg
      exact h
  | cons token rest ih =>
      obtain ⟨slot, child, hc, hrest⟩ := get_cons_cases hg
      rw [replaceAt_cons hc]
      exact (ih hrest).put hn hc

/-! ## Moving onto the same path -/

section

variable {parents : Path} {last : Token} {value left after : Document}

/-- What is left when an entry of a mapping is taken out. -/
theorem take_entry (hn : navigator.IsStandard) {entries : Entries Document}
    (hg : navigator.get document parents = .ok (.mapping entries))
    (h : navigator.take document (parents ++ [last]) = .ok (value, left)) :
    Entries.get? entries last.text = some value ∧
      left = navigator.replaceAt document parents (.mapping (Entries.erase entries last.text)) := by
  obtain ⟨container, slot, inner, hcontainer, hl, htake, rfl, rfl⟩ := take_concat_eq_ok_iff.1 h
  cases hg.symm.trans hcontainer
  obtain ⟨-, old, ho⟩ := Document.at?_of_take htake
  obtain ⟨rfl, hold⟩ := (child_mapping_eq_ok_iff hn).1 (child_eq_ok_iff.2 ⟨hl, ho⟩)
  simp only [Document.take, ho] at htake
  cases htake
  exact ⟨hold, rfl⟩

/-- What is left when an item of a sequence is taken out. -/
theorem take_item {items : List Document}
    (hg : navigator.get document parents = .ok (.sequence items))
    (h : navigator.take document (parents ++ [last]) = .ok (value, left)) :
    ∃ i, navigator.locate (.sequence items) last = .ok (.child i) ∧ items[i]? = some value ∧
      left = navigator.replaceAt document parents (.sequence (items.eraseIdx i)) := by
  obtain ⟨container, slot, inner, hcontainer, hl, htake, rfl, rfl⟩ := take_concat_eq_ok_iff.1 h
  cases hg.symm.trans hcontainer
  obtain ⟨-, old, ho⟩ := Document.at?_of_take htake
  cases slot with
  | entry name => cases ho
  | child i =>
      simp only [Document.take, ho] at htake
      cases htake
      exact ⟨i, hl, ho, rfl⟩

/-- **An entry of a mapping that is moved onto its own path comes last.** -/
theorem move_entry (hn : navigator.IsStandard) {entries : Entries Document}
    (hg : navigator.get document parents = .ok (.mapping entries))
    (h : navigator.move document (parents ++ [last]) (parents ++ [last]) = .ok after) :
    ∃ value, Entries.get? entries last.text = some value ∧
      after = navigator.replaceAt document parents
        (.mapping (Entries.erase entries last.text ++ [(last.text, value)])) := by
  obtain ⟨value, left, htake, hset⟩ := move_eq_ok_iff.1 h
  obtain ⟨hold, rfl⟩ := take_entry hn hg htake
  obtain ⟨container, target, inner, hcontainer, ht, hstore, rfl⟩ := set_concat_eq_ok_iff.1 hset
  cases (get_replaceAt hn.goesByOutline hg _).symm.trans hcontainer
  rw [replaceAt_replaceAt hn.goesByOutline]
  refine ⟨value, hold, ?_⟩
  have hgone := Entries.notMem_erase entries last.text
  -- the name is gone, so the value is stored under it at the end
  rcases target_cases ht with ⟨slot, rfl, hl⟩ | ⟨others, he, rfl, hc⟩ | ⟨items, he, -, -⟩ |
    ⟨members, he, -, -⟩
  · cases ho : (Document.mapping (Entries.erase entries last.text)).at? slot with
    | none =>
        rw [Document.store_of_none Kind.noConfusion ho] at hstore
        cases hstore
    | some other =>
        have hfound := ((child_mapping_eq_ok_iff hn).1 (child_eq_ok_iff.2 ⟨hl, ho⟩)).2
        rw [Entries.get?_erase, if_pos rfl] at hfound
        cases hfound
  · cases he
    cases hstore
    rw [Entries.insert_of_notMem hgone]
  · cases he
  · cases he

/-- Putting an entry last changes the order only. -/
theorem reordered_of_last {entries : Entries Document} {name : String}
    (hd : document.namesDistinct = true)
    (hg : navigator.get document parents = .ok (.mapping entries))
    (hold : Entries.get? entries name = some value) :
    Reordered document (navigator.replaceAt document parents
      (.mapping (Entries.erase entries name ++ [(name, value)]))) := by
  have hperm : entries.Perm (Entries.erase entries name ++ [(name, value)]) :=
    (Entries.perm_erase (nodup_names_of_get hd hg) hold).trans
      (List.perm_append_singleton _ _).symm
  exact reordered_replaceAt hg
    (.mapping rfl (List.forall₂_same.2 fun entry _ => .refl entry) hperm)

/-- **An item of a sequence that is moved onto its own path** stays where it is if the path names
the last position, and else takes the place of a neighbour. -/
theorem move_item (hn : navigator.IsStandard) {items : List Document}
    (hg : navigator.get document parents = .ok (.sequence items))
    (h : navigator.move document (parents ++ [last]) (parents ++ [last]) = .ok after) :
    ∃ i value, navigator.child (.sequence items) last = .ok (.child i, value) ∧
      if last = .index (items.length - 1) then after = document
      else ∃ j, j < items.length ∧ (if last.fromEnd then j + 1 = i else j = i + 1) ∧
        after = navigator.replaceAt document parents (.sequence (items.eraseIdx j)) := by
  obtain ⟨value, left, htake, hset⟩ := move_eq_ok_iff.1 h
  obtain ⟨i, hl, hi, rfl⟩ := take_item hg htake
  refine ⟨i, value, child_eq_ok_iff.2 ⟨hl, hi⟩, ?_⟩
  obtain ⟨container, target, inner, hcontainer, ht, hstore, rfl⟩ := set_concat_eq_ok_iff.1 hset
  cases (get_replaceAt hn.goesByOutline hg _).symm.trans hcontainer
  obtain ⟨hlt, -⟩ := List.getElem?_eq_some_iff.1 hi
  have hlength : (items.eraseIdx i).length + 1 = items.length := by
    rw [List.length_eraseIdx_of_lt hlt]
    omega
  have hend : (items.length : Int) - 1 = (items.eraseIdx i).length := by omega
  rw [replaceAt_replaceAt hn.goesByOutline, hend]
  -- the target is an item that is left, or the end of the sequence
  rcases target_cases ht with ⟨slot, rfl, hl'⟩ | ⟨others, he, -, -⟩ | ⟨others, he, rfl, hlast⟩ |
    ⟨members, he, -, -⟩
  · obtain ⟨k, rfl, hk, hneighbour⟩ := locate_eraseIdx hn hl hl'
    have hnext : ¬ last = .index (items.eraseIdx i).length := by
      rintro rfl
      obtain ⟨_, -, hw⟩ := locate_sequence_index hl'
      rw [Position.within?_eq_none (Nat.le_refl _)] at hw
      cases hw
    have hk' : k < (items.eraseIdx i).length := by omega
    obtain ⟨old, ho⟩ : ∃ old, (Document.sequence (items.eraseIdx i)).at? (.child k) = some old :=
      ⟨_, List.getElem?_eq_getElem hk'⟩
    rw [Document.store_of_some Kind.noConfusion ho] at hstore
    cases hstore
    rw [if_neg hnext]
    by_cases hfrom : last.fromEnd = true
    · rw [if_pos hfrom] at hneighbour
      subst hneighbour
      refine ⟨k, by omega, if_pos hfrom ▸ rfl, ?_⟩
      rw [Document.put, set_eraseIdx_of_previous hi]
    · rw [if_neg hfrom] at hneighbour
      subst hneighbour
      refine ⟨k + 1, hk, if_neg hfrom ▸ rfl, ?_⟩
      rw [Document.put, set_eraseIdx_of_next hi hk]
  · cases he
  · cases he
    cases hstore
    rw [if_pos hlast]
    subst hlast
    -- the position is the last one before and the one behind the end after
    obtain ⟨_, ⟨⟩, hw⟩ := locate_sequence_index hl
    obtain ⟨hi', -⟩ := Position.within?_eq_some_iff.1 hw
    rw [if_neg (by omega)] at hi'
    have hsame : items.eraseIdx i ++ [value] = items := by
      rw [List.eraseIdx_eq_dropLast (by omega)]
      refine List.dropLast_append_getLast? value ?_
      rw [Option.mem_def, List.getLast?_eq_getElem?, ← hi]
      congr 1
      omega
    dsimp only
    rw [hsame]
    exact replaceAt_self hg
  · cases he

end

/-! ## What a move keeps -/

/-- **A move destroys what stands at its target once the source is taken out, and nothing else.** In
a document without sets, the scalars of the document are those of the document after the move
together with those that the target leads to in what is left without the source.

With the standard accessors or none, more can be said. If the source is an entry of a mapping, the
target leads to no more in what is left than it did before; moved onto its own path the entry comes
last in its mapping, so that the document is another order of the old one and equals it if it holds
no `NaN`. An item of a sequence that is moved onto its own path stays where it is if the path names
the last position; else it takes the place of a neighbour: of the item before it if the path counts
from the end, and of the next one otherwise. -/
theorem move_scalars {after : Document} {source target : Path}
    (hd : document.namesDistinct = true) (hs : document.setFree = true)
    (h : navigator.move document source target = .ok after) :
    (∃ value left, navigator.take document source = .ok (value, left) ∧
      after.scalars + navigator.scalarsAt left target = document.scalars) ∧
    (navigator.IsStandard → ∀ parents last entries, source = parents ++ [last] →
      navigator.get document parents = .ok (.mapping entries) →
        document.scalars ≤ after.scalars + navigator.scalarsAt document target ∧
        (target = source → ∃ value, Entries.get? entries last.text = some value ∧
          after = navigator.replaceAt document parents
            (.mapping (Entries.erase entries last.text ++ [(last.text, value)])) ∧
          Reordered document after ∧
          (document.nanFree = true → (after == document) = true))) ∧
    (navigator.IsStandard → ∀ parents last items, source = parents ++ [last] → target = source →
      navigator.get document parents = .ok (.sequence items) →
        ∃ i value, navigator.child (.sequence items) last = .ok (.child i, value) ∧
          if last = .index (items.length - 1) then after = document
          else ∃ j, j < items.length ∧ (if last.fromEnd then j + 1 = i else j = i + 1) ∧
            after = navigator.replaceAt document parents (.sequence (items.eraseIdx j))) := by
  obtain ⟨value, left, htake, hset⟩ := move_eq_ok_iff.1 h
  have hleft := setFree_of_take hd hs htake
  have hbalance : after.scalars + navigator.scalarsAt left target = document.scalars := by
    rw [set_scalars_eq hleft hset, take_scalars_eq hd htake]
  refine ⟨⟨value, left, htake, hbalance⟩, ?_, ?_⟩
  · rintro hn parents last entries rfl hg
    constructor
    · obtain ⟨hold, rfl⟩ := take_entry hn hg htake
      have hcovers := (covers_erase hn (nodup_names_of_get hd hg) hold).replaceAt hn hg
      rw [← hbalance]
      exact add_le_add_right (hcovers.scalarsAt_le target) _
    · rintro rfl
      obtain ⟨value, hold, rfl⟩ := move_entry hn hg h
      have hreordered := reordered_of_last hd hg hold
      refine ⟨value, hold, rfl, hreordered, fun hnan => ?_⟩
      rw [← Document.beq_comm hd (hreordered.namesDistinct hd), hreordered.beq hd hnan]
  · rintro hn parents last items rfl rfl hg
    exact move_item hn hg h

/-- An entry of an inner mapping is moved over the first item of a sequence, and onto its own
path. -/
theorem move_scalars_over_item :
    let document : Document :=
      .mapping [("a", .mapping [("x", .int 1), ("y", .null)]), ("b", .sequence [.int 2, .int 3])]
    let after : Document :=
      .mapping [("a", .mapping [("y", .null)]), ("b", .sequence [.int 1, .int 3])]
    let reordered : Document :=
      .mapping [("a", .mapping [("y", .null), ("x", .int 1)]), ("b", .sequence [.int 2, .int 3])]
    let source : Path := [.key "a", .key "x"]
    let target : Path := [.key "b", .key "first"]
    document.namesDistinct = true ∧ document.setFree = true ∧
      standard.move document source target = .ok after ∧
      (∃ value left, standard.take document source = .ok (value, left) ∧
        after.scalars + standard.scalarsAt left target = document.scalars) ∧
      document.scalars ≤ after.scalars + standard.scalarsAt document target ∧
      standard.move document source source = .ok reordered ∧ (reordered == document) = true := by
  intro document after reordered source target
  have hd : document.namesDistinct = true := by decide
  have hs : document.setFree = true := by decide
  have hmove : standard.move document source target = .ok after := by rfl
  have hown : standard.move document source source = .ok reordered := by rfl
  obtain ⟨htaken, hentry, -⟩ := move_scalars hd hs hmove
  have hkept := (hentry (Or.inl rfl) [.key "a"] (.key "x") _ rfl rfl).1
  obtain ⟨-, hentry', -⟩ := move_scalars hd hs hown
  obtain ⟨-, -, -, -, hequal⟩ :=
    (hentry' (Or.inl rfl) [.key "a"] (.key "x") _ rfl rfl).2 rfl
  exact ⟨hd, hs, hmove, htaken, hkept, hown, hequal (by decide)⟩

-- an accessor of mappings that leads to their first entry: the entry is gone when the target is
-- looked up, so its value goes to the other entry
example :
    Navigator.move ⟨some (Registry.empty.registerKind .mapping (Accessor.table [("k", 0)]))⟩
      (.mapping [("k", .int 1), ("b", .int 2)]) [.key "k"] [.key "k"] =
        .ok (.mapping [("b", .int 1)]) := by
  rfl

/-- **An item of a sequence that is moved can destroy more than stood at the target.** The first of
three items is moved onto its own path, and the second one is lost. -/
theorem not_move_keeps_items :
    ¬ ∀ (document after : Document) (source target : Path), document.namesDistinct = true →
      document.setFree = true → standard.move document source target = .ok after →
        document.scalars ≤ after.scalars + standard.scalarsAt document target ∧
          (source = target → document.nanFree = true → (after == document) = true) := by
  intro h
  obtain ⟨hle, -⟩ := h (.sequence [.int 1, .int 2, .int 3]) (.sequence [.int 1, .int 3])
    [.index 0] [.index 0] (by decide) (by decide) rfl
  have hsecond : Scalar.int 2 ∈ (Document.sequence [.int 1, .int 2, .int 3]).scalars := by
    simp [Document.scalars, Document.scalarsOfItems, Document.int]
  have hlost := Multiset.mem_of_le hle hsecond
  have hfound : standard.get (.sequence [.int 1, .int 2, .int 3]) [.index 0] = .ok (.int 1) := rfl
  rw [scalarsAt_of_get hfound] at hlost
  simp [Document.scalars, Document.scalarsOfItems, Document.int] at hlost

end Navigator

end PathDoc

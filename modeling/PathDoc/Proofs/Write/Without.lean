import PathDoc.Proofs.Document.Entries
import PathDoc.Proofs.Write.Sequences

/-!
# Documents without some of their nodes

`Document.without gone` is a document without the nodes at the paths of `gone`. Children at smaller
tokens than a given one keep their tokens when larger ones are left out, so what is left of a
container is a context with one hole at the token (`exists_hole`): the hole holds what is left of
the child there, or nothing, and writes to the slot of the token change the content of the hole
only.
-/

set_option autoImplicit false

namespace PathDoc

namespace Document

/-- The paths below a token of a collection of paths. -/
def beneath (gone : Path → Bool) (token : Token) (path : Path) : Bool :=
  gone (token :: path)

mutual

/-- The document without the nodes at the paths of a collection. What is left keeps its order. -/
def without (gone : Path → Bool) : Document → Document
  | scalar value => scalar value
  | mapping entries => mapping (withoutEntries gone entries)
  | sequence items => sequence (withoutItems gone 0 items)
  | set members => set (withoutItems gone 0 members)
  | record name fields => record name (withoutFields gone 0 fields)

/-- The items from a position on without the nodes at the paths of a collection. -/
def withoutItems (gone : Path → Bool) (start : Nat) : List Document → List Document
  | [] => []
  | item :: rest =>
    if gone [.index start] then withoutItems gone (start + 1) rest
    else item.without (beneath gone (.index start)) :: withoutItems gone (start + 1) rest

/-- The entries without the nodes at the paths of a collection. -/
def withoutEntries (gone : Path → Bool) : List (String × Document) → List (String × Document)
  | [] => []
  | (name, value) :: rest =>
    if gone [.key name] then withoutEntries gone rest
    else (name, value.without (beneath gone (.key name))) :: withoutEntries gone rest

/-- The fields from a position on without the nodes at the paths of a collection. -/
def withoutFields (gone : Path → Bool) (start : Nat) :
    List (String × Document) → List (String × Document)
  | [] => []
  | (name, value) :: rest =>
    if gone [.index start] then withoutFields gone (start + 1) rest
    else (name, value.without (beneath gone (.index start))) :: withoutFields gone (start + 1) rest

end

mutual

/-- Without anything to leave out a document stays as it is. -/
theorem without_none (document : Document) : document.without (fun _ => false) = document := by
  cases document with
  | scalar value => rfl
  | mapping entries => rw [without, withoutEntries_none]
  | sequence items => rw [without, withoutItems_none]
  | set members => rw [without, withoutItems_none]
  | record name fields => rw [without, withoutFields_none]

theorem withoutItems_none (start : Nat) (items : List Document) :
    withoutItems (fun _ => false) start items = items := by
  cases items with
  | nil => rfl
  | cons item rest =>
      rw [withoutItems, if_neg Bool.false_ne_true, withoutItems_none]
      exact congrArg (· :: rest) (without_none item)

theorem withoutEntries_none (entries : List (String × Document)) :
    withoutEntries (fun _ => false) entries = entries := by
  cases entries with
  | nil => rfl
  | cons entry rest =>
      obtain ⟨name, value⟩ := entry
      rw [withoutEntries, if_neg Bool.false_ne_true, withoutEntries_none]
      exact congrArg (fun value => (name, value) :: rest) (without_none value)

theorem withoutFields_none (start : Nat) (fields : List (String × Document)) :
    withoutFields (fun _ => false) start fields = fields := by
  cases fields with
  | nil => rfl
  | cons field rest =>
      obtain ⟨name, value⟩ := field
      rw [withoutFields, if_neg Bool.false_ne_true, withoutFields_none]
      exact congrArg (fun value => (name, value) :: rest) (without_none value)

end

theorem kind_without (gone : Path → Bool) (document : Document) :
    (document.without gone).kind = document.kind := by
  cases document <;> rfl

/-! ## One child at a time -/

/-- What is left of the child at a token, if that is left. -/
def left? (gone : Path → Bool) (token : Token) (child : Document) : Option Document :=
  if gone [token] then none else some (child.without (beneath gone token))

theorem withoutItems_eq (gone : Path → Bool) (start : Nat) (items : List Document) :
    withoutItems gone start items =
      (items.zipIdx start).flatMap fun item => (left? gone (.index item.2) item.1).toList := by
  induction items generalizing start with
  | nil => rfl
  | cons item rest ih =>
      rw [withoutItems, List.zipIdx_cons, List.flatMap_cons, ih, left?]
      split <;> rfl

theorem withoutEntries_eq (gone : Path → Bool) (entries : List (String × Document)) :
    withoutEntries gone entries =
      entries.flatMap fun entry =>
        ((left? gone (.key entry.1) entry.2).map (Prod.mk entry.1)).toList := by
  induction entries with
  | nil => rfl
  | cons entry rest ih =>
      rw [withoutEntries, List.flatMap_cons, ih, left?]
      split <;> rfl

theorem withoutFields_eq (gone : Path → Bool) (start : Nat) (fields : List (String × Document)) :
    withoutFields gone start fields =
      (fields.zipIdx start).flatMap fun field =>
        ((left? gone (.index field.2) field.1.2).map (Prod.mk field.1.1)).toList := by
  induction fields generalizing start with
  | nil => rfl
  | cons field rest ih =>
      rw [withoutFields, List.zipIdx_cons, List.flatMap_cons, ih, left?]
      split <;> rfl

/-- Two collections of paths that differ at most at and below one token. -/
def AgreeElsewhere (token : Token) (gone gone' : Path → Bool) : Prop :=
  ∀ other, other ≠ token → beneath gone' other = beneath gone other

theorem AgreeElsewhere.refl (token : Token) (gone : Path → Bool) :
    AgreeElsewhere token gone gone :=
  fun _ _ => rfl

theorem AgreeElsewhere.left? {token other : Token} {gone gone' : Path → Bool}
    (h : AgreeElsewhere token gone gone') (hne : other ≠ token) (child : Document) :
    left? gone' other child = left? gone other child := by
  have hbeneath := h other hne
  have hself : gone' [other] = gone [other] := congrFun hbeneath []
  rw [Document.left?, Document.left?, hself, hbeneath]

/-! ## Contexts with a hole -/

/-- A container as a function of the child in the slot of a token. -/
structure Hole (token : Token) (plug : Option Document → Document) : Prop where
  /-- The child is in the hole. -/
  child : ∀ value, (plug (some value)).child? token = some value
  /-- Putting a child into the slot fills the hole. -/
  put : ∀ value other, (plug (some value)).put token.slot other = plug (some other)
  /-- Taking the child out of the slot empties the hole. -/
  take : ∀ value, (plug (some value)).kind ≠ .record →
    (plug (some value)).take token.slot = .ok ⟨plug none, some value, true⟩

theorem hole_sequence (before after : List Document) :
    Hole (.index before.length) fun value => sequence (before ++ value.toList ++ after) where
  child value := by simp [Token.position?]
  put value other := by simp [Token.slot, put]
  take value _ := by simp [Token.slot, take, at?, List.eraseIdx_append_of_length_le]

theorem hole_set (before after : List Document) :
    Hole (.index before.length) fun value => set (before ++ value.toList ++ after) where
  child value := by simp [Token.position?]
  put value other := by simp [Token.slot, put]
  take value _ := by simp [Token.slot, take, at?, List.eraseIdx_append_of_length_le]

theorem hole_record (name field : String) (before after : List (String × Document)) :
    Hole (.index before.length) fun value =>
      record name (before ++ (value.map (Prod.mk field)).toList ++ after) where
  child value := by simp [Token.position?]
  put value other := by simp [Token.slot, put, Entries.setAt_between]
  take value h := absurd rfl h

theorem hole_mapping {name : String} {before after : List (String × Document)}
    (hb : name ∉ Entries.names before) (ha : name ∉ Entries.names after) :
    Hole (.key name) fun value =>
      mapping (before ++ (value.map (Prod.mk name)).toList ++ after) where
  child value := by simp [Entries.get?_between hb]
  put value other := by simp [Token.slot, put, Entries.insert_between hb]
  take value _ := by
    have herase : Entries.erase (before ++ (name, value) :: after) name = before ++ after := by
      have hself : Entries.erase ((name, value) :: after) name = Entries.erase after name := by
        simp [Entries.erase]
      rw [Entries.erase, List.filter_append, ← Entries.erase, ← Entries.erase, hself,
        Entries.erase_of_notMem hb, Entries.erase_of_notMem ha]
    simp [Token.slot, take, at?, Entries.get?_between hb, herase]

/-- What becomes of one item of a list when the others are treated as before. -/
theorem flatMap_between {α β : Type} {f g : α → List β} {before after : List α} (x : α)
    (hb : ∀ y ∈ before, g y = f y) (ha : ∀ y ∈ after, g y = f y) :
    (before ++ x :: after).flatMap g = before.flatMap f ++ g x ++ after.flatMap f := by
  rw [List.flatMap_append, List.flatMap_cons, List.flatMap_congr hb, List.flatMap_congr ha,
    List.append_assoc]

/-- A list with one result for each item. -/
theorem length_flatMap_of_one {α β : Type} {f : α → List β} {list : List α}
    (h : ∀ x ∈ list, (f x).length = 1) : (list.flatMap f).length = list.length := by
  induction list with
  | nil => rfl
  | cons x rest ih =>
      obtain ⟨hx, hrest⟩ := List.forall_mem_cons.1 h
      rw [List.flatMap_cons, List.length_append, hx, ih hrest, Nat.add_comm, List.length_cons]

/-- An item between those before it and those after it. -/
theorem exists_between {α : Type} {list : List α} {i : Nat} {x : α} (h : list[i]? = some x) :
    ∃ before after, list = before ++ x :: after ∧ before.length = i := by
  obtain ⟨hi, rfl⟩ := List.getElem?_eq_some_iff.1 h
  refine ⟨list.take i, list.drop (i + 1), ?_, List.length_take_of_le (Nat.le_of_lt hi)⟩
  rw [List.getElem_cons_drop, List.take_append_drop]

/-- What becomes of one item of a numbered list when the others are treated as before. -/
theorem exists_numbered {α β : Type} {f : α × Nat → List β} {list : List α} {i : Nat} {x : α}
    (h : list[i]? = some x) (hk : ∀ y j, j < i → (f (y, j)).length = 1) :
    ∃ before after, before.length = i ∧ ∀ g : α × Nat → List β,
      (∀ y j, j ≠ i → g (y, j) = f (y, j)) →
        list.zipIdx.flatMap g = before ++ g (x, i) ++ after := by
  obtain ⟨before, after, rfl, rfl⟩ := exists_between h
  refine ⟨before.zipIdx.flatMap f, (after.zipIdx (before.length + 1)).flatMap f, ?_,
    fun g hg => ?_⟩
  · rw [length_flatMap_of_one, List.length_zipIdx]
    exact fun y hy => hk y.1 y.2 (List.snd_lt_of_mem_zipIdx hy)
  · have hnumbered : (before ++ x :: after).zipIdx =
        before.zipIdx ++ (x, before.length) :: after.zipIdx (before.length + 1) := by
      rw [List.zipIdx_append, List.zipIdx_cons, Nat.zero_add]
    rw [hnumbered]
    refine flatMap_between _ (fun y hy => ?_) fun y hy => ?_
    · exact hg y.1 y.2 (Nat.ne_of_lt (List.snd_lt_of_mem_zipIdx hy))
    · exact hg y.1 y.2 (Nat.ne_of_gt (List.le_snd_of_mem_zipIdx hy))

section

variable {gone : Path → Bool} {token : Token}

/-- Before a position nothing is left out, so the items there keep their positions. -/
theorem left?_before {i j : Nat} (ht : token = .index i)
    (hk : ∀ other, compare other token = .lt → gone [other] = false) (hj : j < i)
    (child : Document) :
    left? gone (.index j) child = some (child.without (beneath gone (.index j))) := by
  have hlt : compare (Token.index j) token = .lt := by
    rw [ht]
    exact Int.compare_eq_lt.2 (Int.ofNat_lt.2 hj)
  rw [left?, hk _ hlt]
  rfl

theorem AgreeElsewhere.left?_index {gone' : Path → Bool} {i j : Nat}
    (h : AgreeElsewhere token gone gone') (ht : token = .index i) (hj : j ≠ i) (child : Document) :
    Document.left? gone' (.index j) child = Document.left? gone (.index j) child := by
  refine h.left? ?_ child
  rw [ht]
  exact fun he => hj (Int.ofNat_inj.1 (Token.index.inj he))

theorem exists_withoutItems {items : List Document} {i : Nat} {item : Document}
    (hi : items[i]? = some item) (ht : token = .index i)
    (hk : ∀ other, compare other token = .lt → gone [other] = false) :
    ∃ before after, before.length = i ∧ ∀ gone', AgreeElsewhere token gone gone' →
      withoutItems gone' 0 items = before ++ (left? gone' token item).toList ++ after := by
  obtain ⟨before, after, hlength, heq⟩ := exists_numbered
    (f := fun item : Document × Nat => (left? gone (.index item.2) item.1).toList) hi
    fun y j hj => by simp [left?_before ht hk hj]
  refine ⟨before, after, hlength, fun gone' h => ?_⟩
  rw [withoutItems_eq, heq _ fun y j hj => by rw [h.left?_index ht hj], ht]

theorem exists_withoutFields {fields : List (String × Document)} {i : Nat} {name : String}
    {value : Document} (hi : fields[i]? = some (name, value)) (ht : token = .index i)
    (hk : ∀ other, compare other token = .lt → gone [other] = false) :
    ∃ before after, before.length = i ∧ ∀ gone', AgreeElsewhere token gone gone' →
      withoutFields gone' 0 fields =
        before ++ ((left? gone' token value).map (Prod.mk name)).toList ++ after := by
  obtain ⟨before, after, hlength, heq⟩ := exists_numbered
    (f := fun field : (String × Document) × Nat =>
      ((left? gone (.index field.2) field.1.2).map (Prod.mk field.1.1)).toList) hi
    fun y j hj => by simp [left?_before ht hk hj]
  refine ⟨before, after, hlength, fun gone' h => ?_⟩
  rw [withoutFields_eq, heq _ fun y j hj => by rw [h.left?_index ht hj], ht]

/-- What is left of the entries has names of the entries. -/
theorem notMem_names_withoutEntries {entries : List (String × Document)} {name : String}
    (h : name ∉ Entries.names entries) : name ∉ Entries.names (withoutEntries gone entries) := by
  induction entries with
  | nil => exact h
  | cons entry rest ih =>
      obtain ⟨k, value⟩ := entry
      rw [Entries.names, List.map_cons, List.mem_cons, not_or] at h
      rw [withoutEntries]
      split
      · exact ih h.2
      · rw [Entries.names, List.map_cons, List.mem_cons, not_or]
        exact ⟨h.1, ih h.2⟩

theorem exists_withoutEntries (gone : Path → Bool) {entries : List (String × Document)}
    {name : String} {value : Document} (hn : (Entries.names entries).Nodup)
    (hi : Entries.get? entries name = some value) :
    ∃ before after, name ∉ Entries.names before ∧ name ∉ Entries.names after ∧
      ∀ gone', AgreeElsewhere (.key name) gone gone' →
        withoutEntries gone' entries =
          before ++ ((left? gone' (.key name) value).map (Prod.mk name)).toList ++ after := by
  obtain ⟨before, after, rfl⟩ := List.append_of_mem (Entries.mem_of_get? hi)
  rw [Entries.names, List.map_append, List.map_cons, List.nodup_middle, List.nodup_cons,
    List.mem_append, not_or] at hn
  obtain ⟨⟨hb, ha⟩, -⟩ := hn
  refine ⟨withoutEntries gone before, withoutEntries gone after, notMem_names_withoutEntries hb,
    notMem_names_withoutEntries ha, fun gone' h => ?_⟩
  -- the entry is the only one with its name, so the others are treated as before
  have hothers : ∀ entries : List (String × Document), name ∉ Entries.names entries →
      ∀ entry ∈ entries, ((left? gone' (.key entry.1) entry.2).map (Prod.mk entry.1)).toList =
        ((left? gone (.key entry.1) entry.2).map (Prod.mk entry.1)).toList := by
    intro entries hnot entry hm
    rw [h.left? fun he => hnot (Token.key.inj he ▸ List.mem_map_of_mem hm)]
  rw [withoutEntries_eq, withoutEntries_eq, withoutEntries_eq,
    flatMap_between _ (hothers before hb) (hothers after ha)]

/-- **What is left of a container is a context with one hole at each token.** If nothing is left out
at smaller tokens, the hole is where the child was. -/
theorem exists_hole {node child : Document} (hd : node.namesDistinct = true)
    (hc : node.child? token = some child)
    (hk : ∀ other, compare other token = .lt → gone [other] = false) :
    ∃ plug, Hole token plug ∧ ∀ gone', AgreeElsewhere token gone gone' →
      node.without gone' = plug (left? gone' token child) := by
  -- the hole stands between the children before the token and those after it
  cases node with
  | scalar value => cases hc
  | mapping entries =>
      cases token with
      | index position =>
          rw [child?_mapping_index] at hc
          cases hc
      | key name =>
          rw [child?_mapping_key] at hc
          have hn : (Entries.names entries).Nodup := by simpa using (everywhere_iff.1 hd).1
          obtain ⟨before, after, hb, ha, heq⟩ := exists_withoutEntries gone hn hc
          refine ⟨_, hole_mapping hb ha, fun gone' h => ?_⟩
          rw [without, heq gone' h]
  | sequence items =>
      rw [child?_sequence] at hc
      obtain ⟨i, hi, hc⟩ := Option.bind_eq_some_iff.1 hc
      have ht := Token.position?_eq_some_iff.1 hi
      obtain ⟨before, after, hlength, heq⟩ := exists_withoutItems hc ht hk
      refine ⟨_, ht ▸ hlength ▸ hole_sequence before after, fun gone' h => ?_⟩
      rw [without, heq gone' h]
  | set members =>
      rw [child?_set] at hc
      obtain ⟨i, hi, hc⟩ := Option.bind_eq_some_iff.1 hc
      have ht := Token.position?_eq_some_iff.1 hi
      obtain ⟨before, after, hlength, heq⟩ := exists_withoutItems hc ht hk
      refine ⟨_, ht ▸ hlength ▸ hole_set before after, fun gone' h => ?_⟩
      rw [without, heq gone' h]
  | record name fields =>
      rw [child?_record] at hc
      obtain ⟨i, hi, hc⟩ := Option.bind_eq_some_iff.1 hc
      have ht := Token.position?_eq_some_iff.1 hi
      rw [List.getElem?_map] at hc
      obtain ⟨⟨field, value⟩, hfield, he⟩ := Option.map_eq_some_iff.1 hc
      cases he
      obtain ⟨before, after, hlength, heq⟩ := exists_withoutFields hfield ht hk
      refine ⟨_, ht ▸ hlength ▸ hole_record name field before after, fun gone' h => ?_⟩
      rw [without, heq gone' h]

end

end Document

end PathDoc

import PathDoc.Document.Equality
import PathDoc.Flat.Marker
import PathDoc.Pairs
import PathDoc.Path.Token

/-!
# Path dictionaries

A path dictionary holds at most one entry for each path, in the order of paths: positions before
names, a path before its extensions. The order is part of the type, so two dictionaries with the
same entries are equal. `get?_insert` says what an insertion does.
-/

set_option autoImplicit false

namespace PathDoc

/-- What a path dictionary holds at a path. -/
inductive Entry where
  /-- A value. -/
  | value (value : Document)
  /-- The kind of a container whose children have paths of their own. -/
  | marker (marker : Marker)
  deriving Inhabited

/-- Whether two entries are the same when the values of one were carried over from the other. -/
def Entry.same : Entry → Entry → Bool
  | .value a, .value b => a.isCarriedOver b
  | .marker a, .marker b => a == b
  | _, _ => false

/-- Entries by path. -/
structure PathDict where
  /-- The entries in the order of their paths. -/
  entries : List (Path × Entry)
  /-- Each path comes strictly before the next. -/
  sorted : entries.Pairwise fun a b => compare a.1 b.1 = .lt

namespace PathDict

/-- No entries. -/
def empty : PathDict := ⟨[], List.Pairwise.nil⟩

/-- Puts an entry into its place, or replaces the entry of the same path. -/
def insertEntry (path : Path) (entry : Entry) : List (Path × Entry) → List (Path × Entry)
  | [] => [(path, entry)]
  | (other, old) :: rest =>
    match compare path other with
    | .lt => (path, entry) :: (other, old) :: rest
    | .eq => (path, entry) :: rest
    | .gt => (other, old) :: insertEntry path entry rest

/-- An insertion changes the pair of its path, whatever the path had before. -/
theorem insertEntry_eq (path : Path) (entry : Entry) (entries : List (Path × Entry)) :
    insertEntry path entry entries = Pairs.update path (fun _ => entry) entries := by
  induction entries with
  | nil => rfl
  | cons head rest ih =>
    obtain ⟨other, old⟩ := head
    rw [insertEntry, Pairs.update]
    cases hc : compare path other with
    | lt => rfl
    | eq => rw [Std.LawfulEqCmp.eq_of_compare hc]
    | gt => exact congrArg _ ih

/-- **Insertion keeps the order.** -/
theorem sorted_insertEntry {entries : List (Path × Entry)}
    (h : entries.Pairwise fun a b => compare a.1 b.1 = .lt) (path : Path) (entry : Entry) :
    (insertEntry path entry entries).Pairwise fun a b => compare a.1 b.1 = .lt := by
  rw [insertEntry_eq]
  exact Pairs.sorted_update h path _

/-- The dictionary with an entry at a path. -/
def insert (dict : PathDict) (path : Path) (entry : Entry) : PathDict :=
  ⟨insertEntry path entry dict.entries, sorted_insertEntry dict.sorted path entry⟩

/-- The dictionary of a list of entries; a later entry of the same path wins. -/
def ofList (entries : List (Path × Entry)) : PathDict :=
  entries.foldl (fun dict entry => dict.insert entry.1 entry.2) empty

/-- The entry at a path. -/
def get? (dict : PathDict) (path : Path) : Option Entry :=
  dict.entries.lookup path

/-- The number of entries. -/
def size (dict : PathDict) : Nat :=
  dict.entries.length

/-- Whether two dictionaries are the same when one carries over the values of the other. -/
def same (a b : PathDict) : Bool :=
  a.entries.length == b.entries.length &&
    (a.entries.zip b.entries).all fun (x, y) => x.1 == y.1 && x.2.same y.2

/-- **Insertion changes the entry of one path only.** -/
theorem get?_insert (dict : PathDict) (path other : Path) (entry : Entry) :
    (dict.insert path entry).get? other =
      if other = path then some entry else dict.get? other := by
  have hlookup := Pairs.lookup_update dict.sorted path other fun _ => entry
  rw [← insertEntry_eq] at hlookup
  exact hlookup

/-- Inserting an entry of a new path adds it. -/
theorem insertEntry_perm {path : Path} {entries : List (Path × Entry)}
    (h : path ∉ entries.map Prod.fst) (entry : Entry) :
    (insertEntry path entry entries).Perm ((path, entry) :: entries) := by
  rw [insertEntry_eq]
  exact Pairs.update_perm _ h

/-- A dictionary of entries holds no others. -/
theorem mem_ofList {entries : List (Path × Entry)} {entry : Path × Entry}
    (h : entry ∈ (ofList entries).entries) : entry ∈ entries := by
  suffices ∀ dict : PathDict,
      entry ∈ (entries.foldl (fun dict entry => dict.insert entry.1 entry.2) dict).entries →
        entry ∈ dict.entries ∨ entry ∈ entries from (this empty h).resolve_left List.not_mem_nil
  clear h
  induction entries with
  | nil => exact fun dict h => Or.inl h
  | cons first rest ih =>
    intro dict h
    rcases ih (dict.insert first.1 first.2) h with hm | hm
    · have hinsert : entry ∈ insertEntry first.1 first.2 dict.entries := hm
      rw [insertEntry_eq] at hinsert
      rcases Pairs.mem_update hinsert with hm | rfl | ⟨-, -, rfl⟩
      · exact Or.inl hm
      · exact Or.inr List.mem_cons_self
      · exact Or.inr List.mem_cons_self
    · exact Or.inr (List.mem_cons_of_mem _ hm)

/-- **A dictionary of entries with different paths holds these entries and no others.** -/
theorem ofList_perm {entries : List (Path × Entry)} (h : (entries.map Prod.fst).Nodup) :
    (ofList entries).entries.Perm entries := by
  suffices ∀ dict : PathDict, ((dict.entries ++ entries).map Prod.fst).Nodup →
      (entries.foldl (fun dict entry => dict.insert entry.1 entry.2) dict).entries.Perm
        (dict.entries ++ entries) from this empty h
  clear h
  induction entries with
  | nil =>
    intro dict _
    rw [List.append_nil]
    exact List.Perm.refl _
  | cons entry rest ih =>
    intro dict hn
    have hnot : entry.1 ∉ dict.entries.map Prod.fst := by
      rw [List.map_append, List.nodup_append] at hn
      exact fun hm => hn.2.2 _ hm _ List.mem_cons_self rfl
    have hp : ((dict.insert entry.1 entry.2).entries ++ rest).Perm (dict.entries ++ entry :: rest) :=
      ((insertEntry_perm hnot entry.2).append_right rest).trans List.perm_middle.symm
    exact (ih _ ((hp.map Prod.fst).nodup_iff.2 hn)).trans hp

end PathDict

end PathDoc

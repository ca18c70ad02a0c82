/-!
# Named entries in insertion order

A list of named values that stands for a finite map: inserting under a new name appends, inserting
under a name already present keeps its place. The view is `get?`; `get?_insert` and `get?_erase` say
what each operation does to it, and `nodup_insert` that names stay distinct.
-/

set_option autoImplicit false

namespace PathDoc

universe u v

/-- Named values, in order. -/
abbrev Entries (α : Type u) := List (String × α)

namespace Entries

variable {α : Type u}

/-- The names, in order. -/
def names (entries : Entries α) : List String :=
  entries.map Prod.fst

/-- The value under a name, the first if the name is repeated. -/
def get? : Entries α → String → Option α
  | [], _ => none
  | (k, value) :: rest, name => if k = name then some value else get? rest name

/-- Whether a name is present. -/
def contains (entries : Entries α) (name : String) : Bool :=
  (entries.get? name).isSome

/-- Puts a value under a name: in place if the name is present, else at the end. -/
def insert : Entries α → String → α → Entries α
  | [], name, value => [(name, value)]
  | (k, old) :: rest, name, value =>
    if k = name then (k, value) :: rest else (k, old) :: insert rest name value

/-- Leaves out a name. -/
def erase (entries : Entries α) (name : String) : Entries α :=
  entries.filter fun entry => entry.1 != name

/-- Inserts pairs one after the other, so a repeated name keeps its first place and its last
value. -/
def ofList (pairs : List (String × α)) : Entries α :=
  pairs.foldl (fun entries pair => entries.insert pair.1 pair.2) []

/-- Replaces the value at a position. -/
def setAt (entries : Entries α) (position : Nat) (value : α) : Entries α :=
  entries.modify position fun entry => (entry.1, value)

attribute [local simp] names get? contains insert erase

/-- Replacing a value keeps the names. -/
theorem names_setAt (entries : Entries α) (position : Nat) (value : α) :
    (entries.setAt position value).names = entries.names := by
  unfold setAt names
  induction entries generalizing position with
  | nil => rw [List.modify_nil]
  | cons entry rest ih =>
    cases position with
    | zero => rfl
    | succ position => rw [List.modify_succ_cons, List.map_cons, ih, List.map_cons]

/-- Replacing the value at a position by itself changes nothing. -/
theorem setAt_getElem? {entries : Entries α} {position : Nat} {value : α}
    (h : entries[position]?.map Prod.snd = some value) :
    entries.setAt position value = entries := by
  unfold setAt
  induction entries generalizing position with
  | nil => rw [List.modify_nil]
  | cons entry rest ih =>
    cases position with
    | zero =>
      cases h
      rfl
    | succ position => rw [List.modify_succ_cons, ih h]

/-- Replacing a value among the values. -/
theorem values_setAt (entries : Entries α) (position : Nat) (value : α) :
    (entries.setAt position value).map Prod.snd = (entries.map Prod.snd).set position value := by
  unfold setAt
  induction entries generalizing position with
  | nil => rw [List.modify_nil, List.map_nil, List.set_nil]
  | cons entry rest ih =>
    cases position with
    | zero => rfl
    | succ position =>
      rw [List.modify_succ_cons, List.map_cons, ih, List.map_cons, List.set_cons_succ]

/-- A value that is found stands under its name. -/
theorem mem_of_get? {entries : Entries α} {name : String} {value : α}
    (h : entries.get? name = some value) : (name, value) ∈ entries := by
  induction entries with
  | nil => simp at h
  | cons entry rest ih =>
    obtain ⟨k, v⟩ := entry
    rw [get?] at h
    split at h
    · rename_i hk
      cases h
      exact hk ▸ List.mem_cons_self
    · exact List.mem_cons_of_mem _ (ih h)

/-- Among distinct names every value is found under its name. -/
theorem get?_of_mem {entries : Entries α} (hn : entries.names.Nodup) {name : String} {value : α}
    (h : (name, value) ∈ entries) : entries.get? name = some value := by
  induction entries with
  | nil => simp at h
  | cons entry rest ih =>
    obtain ⟨k, v⟩ := entry
    obtain ⟨hk, hrest⟩ := List.nodup_cons.1 hn
    rw [get?]
    rcases List.mem_cons.1 h with h | h
    · cases h
      exact if_pos rfl
    · have hmem : name ∈ names rest := List.mem_map_of_mem h
      have hne : k ≠ name := fun he => hk (he ▸ hmem)
      rw [if_neg hne, ih hrest h]

/-- A name is present exactly if it is among the names. -/
theorem contains_iff {entries : Entries α} {name : String} :
    entries.contains name = true ↔ name ∈ entries.names := by
  induction entries with
  | nil => simp
  | cons entry rest ih =>
    obtain ⟨k, v⟩ := entry
    simp only [contains, names] at ih
    by_cases hk : k = name
    · simp [hk]
    · have hne : ¬ name = k := fun h => hk h.symm
      simp [hk, hne, ih]

/-- **Inserting changes the value of one name only.** -/
theorem get?_insert (entries : Entries α) (name other : String) (value : α) :
    (entries.insert name value).get? other =
      if name = other then some value else entries.get? other := by
  induction entries with
  | nil => simp
  | cons entry rest ih =>
    obtain ⟨k, old⟩ := entry
    by_cases hk : k = name
    · subst hk
      by_cases ho : k = other <;> simp [ho]
    · by_cases ho : k = other
      · subst ho
        have hne : ¬ name = k := fun h => hk h.symm
        simp [hk, hne]
      · simp [hk, ho, ih]

/-- **Leaving out a name removes it and keeps the others.** -/
theorem get?_erase (entries : Entries α) (name other : String) :
    (entries.erase name).get? other = if name = other then none else entries.get? other := by
  induction entries with
  | nil => simp
  | cons entry rest ih =>
    obtain ⟨k, value⟩ := entry
    simp only [erase] at ih
    by_cases hk : k = name
    · subst hk
      by_cases ho : k = other
      · simpa [ho] using ih
      · simpa [ho] using ih
    · by_cases ho : k = other
      · subst ho
        have hne : ¬ name = k := fun h => hk h.symm
        simp [hk, hne]
      · simp [hk, ho, ih]

/-- Inserting the value that a name has changes nothing. -/
theorem insert_get? {entries : Entries α} {name : String} {value : α}
    (h : entries.get? name = some value) : entries.insert name value = entries := by
  induction entries with
  | nil => cases h
  | cons entry rest ih =>
    obtain ⟨k, old⟩ := entry
    rw [get?] at h
    rw [insert]
    split at h
    · rename_i hk
      cases h
      rw [if_pos hk]
    · rename_i hk
      rw [if_neg hk, ih h]

/-- The names after an insertion. -/
theorem names_insert (entries : Entries α) (name : String) (value : α) :
    (entries.insert name value).names =
      if name ∈ entries.names then entries.names else entries.names ++ [name] := by
  induction entries with
  | nil => simp
  | cons entry rest ih =>
    obtain ⟨k, old⟩ := entry
    by_cases hk : k = name
    · simp [hk]
    · have hne : ¬ name = k := fun h => hk h.symm
      simp only [names] at ih
      by_cases hm : name ∈ rest.map Prod.fst
      · simp [hk, hm, ih]
      · simp [hk, hne, hm, ih]

/-- Inserting under a name that is there replaces one value. -/
theorem values_insert {entries : Entries α} {name : String} {old : α}
    (h : entries.get? name = some old) (value : α) :
    (entries.insert name value).map Prod.snd =
        (entries.map Prod.snd).set (entries.findIdx fun entry => entry.1 == name) value ∧
      entries.findIdx (fun entry => entry.1 == name) < entries.length := by
  induction entries with
  | nil => cases h
  | cons entry rest ih =>
    obtain ⟨k, v⟩ := entry
    rw [get?] at h
    by_cases hk : k = name
    · simp [hk, List.findIdx_cons]
    · rw [if_neg hk] at h
      obtain ⟨hvalues, hlt⟩ := ih h
      have hb : (k == name) = false := beq_eq_false_iff_ne.2 hk
      simp [hk, List.findIdx_cons, hb, hvalues, hlt]

/-- An insertion adds one entry at most. -/
theorem mem_insert {entries : Entries α} {name : String} {value : α} {entry : String × α}
    (h : entry ∈ entries.insert name value) : entry = (name, value) ∨ entry ∈ entries := by
  induction entries with
  | nil => exact Or.inl (List.mem_singleton.1 h)
  | cons first rest ih =>
    obtain ⟨k, old⟩ := first
    rw [insert] at h
    split at h
    · rename_i hk
      rcases List.mem_cons.1 h with h | h
      · exact Or.inl (hk ▸ h)
      · exact Or.inr (List.mem_cons_of_mem _ h)
    · rcases List.mem_cons.1 h with h | h
      · exact Or.inr (h ▸ List.mem_cons_self)
      · exact (ih h).imp_right (List.mem_cons_of_mem _)

/-- A list of insertions holds no entry but those inserted. -/
theorem mem_ofList {pairs : List (String × α)} {entry : String × α} (h : entry ∈ ofList pairs) :
    entry ∈ pairs := by
  suffices ∀ entries : Entries α,
      entry ∈ pairs.foldl (fun entries pair => entries.insert pair.1 pair.2) entries →
        entry ∈ entries ∨ entry ∈ pairs from (this [] h).resolve_left List.not_mem_nil
  clear h
  induction pairs with
  | nil => exact fun _ h => Or.inl h
  | cons pair rest ih =>
    intro entries h
    rcases ih _ h with h | h
    · rcases mem_insert h with h | h
      · exact Or.inr (h ▸ List.mem_cons_self)
      · exact Or.inl h
    · exact Or.inr (List.mem_cons_of_mem _ h)

/-- **Insertion keeps the names distinct.** -/
theorem nodup_insert {entries : Entries α} (h : entries.names.Nodup) (name : String) (value : α) :
    (entries.insert name value).names.Nodup := by
  rw [names_insert]
  split
  · exact h
  · rename_i hm
    rw [List.nodup_append]
    refine ⟨h, by simp, ?_⟩
    intro a ha b hb hab
    rw [List.mem_singleton] at hb
    exact hm (hb ▸ hab ▸ ha)

/-- **The names of a list of insertions are distinct.** -/
theorem nodup_ofList (pairs : List (String × α)) : (ofList pairs).names.Nodup := by
  suffices ∀ entries : Entries α, entries.names.Nodup →
      (pairs.foldl (fun entries pair => entries.insert pair.1 pair.2) entries).names.Nodup from
    this [] List.nodup_nil
  induction pairs with
  | nil => exact fun _ h => h
  | cons pair rest ih => exact fun entries h => ih _ (nodup_insert h pair.1 pair.2)

/-- A new name goes to the end. -/
theorem insert_of_notMem {entries : Entries α} {name : String} (h : name ∉ entries.names)
    (value : α) : entries.insert name value = entries ++ [(name, value)] := by
  induction entries with
  | nil => rfl
  | cons entry rest ih =>
    obtain ⟨k, old⟩ := entry
    simp only [names, List.map_cons, List.mem_cons, not_or] at h
    rw [insert, if_neg (Ne.symm h.1), ih h.2]
    rfl

/-- **Inserting pairs with distinct names keeps them as they are.** -/
theorem ofList_of_nodup {pairs : List (String × α)} (h : (names pairs).Nodup) :
    ofList pairs = pairs := by
  suffices ∀ entries : Entries α, (names (entries ++ pairs)).Nodup →
      pairs.foldl (fun entries pair => entries.insert pair.1 pair.2) entries = entries ++ pairs from
    this [] h
  clear h
  induction pairs with
  | nil => exact fun entries _ => (List.append_nil entries).symm
  | cons pair rest ih =>
    intro entries hn
    have hnot : pair.1 ∉ entries.names := by
      rw [names, List.map_append, List.nodup_append] at hn
      exact fun hm => hn.2.2 _ hm _ List.mem_cons_self rfl
    have hsplit : entries ++ pair :: rest = (entries ++ [pair]) ++ rest := by simp
    rw [List.foldl_cons, insert_of_notMem hnot, hsplit]
    exact ih _ (hsplit ▸ hn)

/-- Insertions under other names do not matter to a name. -/
theorem get?_foldl_insert {pairs : List (String × α)} {name : String} (h : name ∉ names pairs)
    (entries : Entries α) :
    get? (pairs.foldl (fun entries pair => entries.insert pair.1 pair.2) entries) name =
      entries.get? name := by
  induction pairs generalizing entries with
  | nil => rfl
  | cons pair rest ih =>
    rw [names, List.map_cons, List.mem_cons, not_or] at h
    rw [List.foldl_cons, ih h.2, get?_insert, if_neg (Ne.symm h.1)]

/-- **Of several pairs with one name the last one counts.** -/
theorem get?_ofList_last {before after : List (String × α)} {name : String}
    (h : name ∉ names after) (value : α) :
    (ofList (before ++ (name, value) :: after)).get? name = some value := by
  rw [ofList, List.foldl_append, List.foldl_cons, get?_foldl_insert h, get?_insert, if_pos rfl]

end Entries

end PathDoc

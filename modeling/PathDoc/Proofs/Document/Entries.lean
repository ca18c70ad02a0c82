import Mathlib.Data.List.Induction
import Mathlib.Data.List.Nodup
import PathDoc.Entries

/-!
# Entries with distinct names

A list of entries with distinct names is determined by its entries and the order of its names
(`eq_of_perm`). Here are the laws of the operations on such lists that changes of one entry rest on:
two insertions under one name are the second one (`insert_insert`), replacing a value by its
position is replacing it under its name (`setAt_eq_insert`), leaving out a name takes out one entry
(`perm_erase`), and a list of insertions has the names in the order of their first mention
(`names_ofList`).
-/

set_option autoImplicit false

namespace PathDoc.Entries

variable {α : Type} {as bs entries : Entries α}

/-! ## An entry between others -/

section

variable {before : Entries α} {name : String}

theorem get?_between (hb : name ∉ names before) (value : α) (after : Entries α) :
    get? (before ++ (name, value) :: after) name = some value := by
  induction before with
  | nil => exact if_pos rfl
  | cons entry rest ih =>
      obtain ⟨k, old⟩ := entry
      rw [names, List.map_cons, List.mem_cons, not_or] at hb
      exact (if_neg (Ne.symm hb.1)).trans (ih hb.2)

theorem insert_between (hb : name ∉ names before) (value other : α) (after : Entries α) :
    insert (before ++ (name, value) :: after) name other = before ++ (name, other) :: after := by
  induction before with
  | nil => exact if_pos rfl
  | cons entry rest ih =>
      obtain ⟨k, old⟩ := entry
      rw [names, List.map_cons, List.mem_cons, not_or] at hb
      exact (if_neg (Ne.symm hb.1)).trans (congrArg ((k, old) :: ·) (ih hb.2))

theorem setAt_between (value other : α) (after : Entries α) :
    setAt (before ++ (name, value) :: after) before.length other =
      before ++ (name, other) :: after := by
  rw [setAt]
  induction before with
  | nil => rfl
  | cons entry rest ih => exact congrArg (entry :: ·) ih

/-- The names around an entry. -/
theorem nodup_names_between {value : α} {after : Entries α} :
    (names (before ++ (name, value) :: after)).Nodup ↔
      (name ∉ before.names ∧ name ∉ after.names) ∧ (before.names ++ after.names).Nodup := by
  rw [names, List.map_append, List.map_cons, List.nodup_middle, List.nodup_cons, List.mem_append,
    not_or]
  rfl

end

/-! ## Replacing a value -/

/-- Among distinct names, replacing the value at a position is inserting it under its name. -/
theorem setAt_eq_insert (hn : entries.names.Nodup) {i : Nat} {name : String} {old : α}
    (h : entries[i]? = some (name, old)) (value : α) :
    entries.setAt i value = entries.insert name value := by
  obtain ⟨hi, he⟩ := List.getElem?_eq_some_iff.1 h
  have hsplit : entries = entries.take i ++ (name, old) :: entries.drop (i + 1) := by
    rw [← he, List.getElem_cons_drop, List.take_append_drop]
  have hlength : (entries.take i).length = i := List.length_take_of_le (Nat.le_of_lt hi)
  generalize entries.take i = before at hsplit hlength
  generalize entries.drop (i + 1) = after at hsplit
  subst hsplit hlength
  rw [setAt_between, insert_between (nodup_names_between.1 hn).1.1]

/-- Of two insertions under one name the second one counts. -/
theorem insert_insert (entries : Entries α) (name : String) (a b : α) :
    (entries.insert name a).insert name b = entries.insert name b := by
  induction entries with
  | nil => simp [insert]
  | cons entry rest ih =>
      obtain ⟨k, v⟩ := entry
      by_cases hk : k = name
      · simp [insert, hk]
      · simp [insert, hk, ih]

/-! ## Leaving out a name -/

/-- Leaving out a name that is not there changes nothing. -/
theorem erase_of_notMem {name : String} (h : name ∉ entries.names) :
    entries.erase name = entries := by
  rw [erase, List.filter_eq_self]
  intro entry hm
  rw [bne_iff_ne]
  rintro rfl
  exact h (List.mem_map_of_mem hm)

/-- What is left out is gone. -/
theorem notMem_erase (entries : Entries α) (name : String) :
    name ∉ (entries.erase name).names := by
  intro hm
  obtain ⟨entry, he, hname⟩ := List.mem_map.1 hm
  have hne := (List.mem_filter.1 he).2
  rw [hname, bne_self_eq_false] at hne
  cases hne

/-- **Leaving out a name takes out one entry.** -/
theorem perm_erase {name : String} {value : α} (hn : entries.names.Nodup)
    (h : entries.get? name = some value) : entries.Perm ((name, value) :: entries.erase name) := by
  obtain ⟨before, behind, rfl⟩ := List.append_of_mem (mem_of_get? h)
  obtain ⟨⟨hbefore, hbehind⟩, -⟩ := nodup_names_between.1 hn
  have herase : erase (before ++ (name, value) :: behind) name = before ++ behind := by
    rw [erase, List.filter_append, List.filter_cons_of_neg (by simp)]
    exact congrArg₂ _ (erase_of_notMem hbefore) (erase_of_notMem hbehind)
  rw [herase]
  exact List.perm_middle

/-! ## The order of names -/

/-- **The names of a list of insertions**, in the order in which they were first inserted. -/
theorem names_ofList (pairs : List (String × α)) :
    (ofList pairs).names = (names pairs).eraseDups := by
  induction pairs using List.reverseRecOn with
  | nil => rfl
  | append_singleton pairs pair ih =>
      have hinsert : ofList (pairs ++ [pair]) = (ofList pairs).insert pair.1 pair.2 := by
        rw [ofList, List.foldl_append]
        rfl
      have hnames : names (pairs ++ [pair]) = names pairs ++ [pair.1] := List.map_append
      rw [hinsert, names_insert, ih, hnames, List.eraseDups_append]
      by_cases hm : pair.1 ∈ names pairs
      · rw [if_pos (List.mem_eraseDups.2 hm)]
        simp [List.removeAll, hm]
      · rw [if_neg fun h => hm (List.mem_eraseDups.1 h)]
        simp [List.removeAll, hm, List.eraseDups_cons]

/-- The names of the entries that a condition on names keeps. -/
theorem names_filter (entries : Entries α) (keep : String → Bool) :
    names (entries.filter fun entry => keep entry.1) = entries.names.filter keep := by
  rw [names, names, List.filter_map]
  rfl

/-- A name that is present has an entry. -/
theorem exists_mem_of_contains {name : String} (h : entries.contains name = true) :
    ∃ value, (name, value) ∈ entries := by
  obtain ⟨value, hv⟩ := Option.isSome_iff_exists.1 h
  exact ⟨value, mem_of_get? hv⟩

/-- The same entries with their different names in the same order are the same list. -/
theorem eq_of_perm (hn : as.names.Nodup) (hp : as.Perm bs) (h : as.names = bs.names) : as = bs := by
  have hlength : as.length = bs.length := hp.length_eq
  refine List.ext_getElem hlength fun i hi hi' => ?_
  -- both entries at a position are entries of the second list, and have one name
  have hname : as[i].1 = bs[i].1 := by
    have hget := congrArg (·[i]?) h
    simpa [names, hi, hi'] using hget
  have hn' : bs.names.Nodup := h ▸ hn
  exact List.inj_on_of_nodup_map hn' (hp.subset (List.getElem_mem hi)) (List.getElem_mem hi') hname

end PathDoc.Entries

/-!
# Pairs in the order of their keys

The entries of a path dictionary and the children of a tree of tokens are lists of pairs in the
strict order of their keys. `Pairs.update` changes the value of one key, which gets its place if it
has none. The order stays (`sorted_update`), and so does what is found under other keys
(`lookup_update`).
-/

set_option autoImplicit false

namespace PathDoc

variable {κ α : Type} {pairs : List (κ × α)} {key : κ}

/-! ## Looking up a key -/

/-- What is found under a key stands in the list under that key. -/
theorem mem_of_lookup [BEq κ] [LawfulBEq κ] {value : α} (h : pairs.lookup key = some value) :
    (key, value) ∈ pairs := by
  obtain ⟨before, after, rfl, -⟩ := List.lookup_eq_some_iff.1 h
  exact List.mem_append_right _ List.mem_cons_self

theorem lookup_cons_ite [BEq κ] [LawfulBEq κ] [DecidableEq κ] (key : κ) (pair : κ × α)
    (rest : List (κ × α)) :
    (pair :: rest).lookup key = if key = pair.1 then some pair.2 else rest.lookup key := by
  rw [List.lookup_cons]
  by_cases h : key = pair.1
  · rw [if_pos h, beq_iff_eq.2 h]
  · rw [if_neg h, beq_eq_false_iff_ne.2 h]

/-! ## Keys in order -/

variable [Ord κ]

theorem ne_of_compare_lt [Std.ReflOrd κ] {a b : κ} (h : compare a b = .lt) : a ≠ b := by
  rintro rfl
  have hself : compare a a = .eq := Std.ReflOrd.compare_self
  rw [h] at hself
  cases hself

/-- Pairs in the order of their keys have different keys. -/
theorem keys_nodup [Std.ReflOrd κ] (h : pairs.Pairwise fun a b => compare a.1 b.1 = .lt) :
    (pairs.map Prod.fst).Nodup := by
  rw [List.nodup_iff_pairwise_ne, List.pairwise_map]
  exact h.imp ne_of_compare_lt

/-- Nothing is found under a key that stands before all others. -/
theorem lookup_eq_none_of_lt [BEq κ] [LawfulBEq κ] [Std.ReflOrd κ]
    (h : ∀ pair ∈ pairs, compare key pair.1 = .lt) : pairs.lookup key = none := by
  rw [List.lookup_eq_none_iff]
  intro pair hp
  rw [bne_iff_ne]
  exact ne_of_compare_lt (h pair hp)

namespace Pairs

/-- Changes the value of a key; a key that is not there comes in front of the first later one. -/
def update (key : κ) (change : Option α → α) : List (κ × α) → List (κ × α)
  | [] => [(key, change none)]
  | (other, old) :: rest =>
    match compare key other with
    | .lt => (key, change none) :: (other, old) :: rest
    | .eq => (other, change (some old)) :: rest
    | .gt => (other, old) :: update key change rest

variable [Std.LawfulEqOrd κ] {change : Option α → α}

/-- The key stands before the first pair, is the key of that pair, or belongs further behind. -/
theorem update_cases [Std.OrientedOrd κ] (key : κ) (change : Option α → α) (first : κ × α)
    (rest : List (κ × α)) :
    (compare key first.1 = .lt ∧
        update key change (first :: rest) = (key, change none) :: first :: rest) ∨
      (key = first.1 ∧
        update key change (first :: rest) = (key, change (some first.2)) :: rest) ∨
      (compare first.1 key = .lt ∧
        update key change (first :: rest) = first :: update key change rest) := by
  obtain ⟨other, old⟩ := first
  cases hc : compare key other with
  | lt => exact Or.inl ⟨rfl, by rw [update, hc]⟩
  | eq =>
      obtain rfl := Std.LawfulEqOrd.eq_of_compare hc
      exact Or.inr (Or.inl ⟨rfl, by rw [update, hc]⟩)
  | gt => exact Or.inr (Or.inr ⟨Std.OrientedCmp.lt_of_gt hc, by rw [update, hc]⟩)

/-- The pairs after an update. -/
theorem mem_update [Std.OrientedOrd κ] {pair : κ × α} (h : pair ∈ update key change pairs) :
    pair ∈ pairs ∨ pair = (key, change none) ∨
      ∃ old, (key, old) ∈ pairs ∧ pair = (key, change (some old)) := by
  induction pairs with
  | nil => exact Or.inr (Or.inl (List.mem_singleton.1 h))
  | cons first rest ih =>
      rcases update_cases key change first rest with ⟨-, he⟩ | ⟨rfl, he⟩ | ⟨-, he⟩
      · rw [he] at h
        rcases List.mem_cons.1 h with rfl | h
        · exact Or.inr (Or.inl rfl)
        · exact Or.inl h
      · rw [he] at h
        rcases List.mem_cons.1 h with rfl | h
        · exact Or.inr (Or.inr ⟨first.2, List.mem_cons_self, rfl⟩)
        · exact Or.inl (List.mem_cons_of_mem _ h)
      · rw [he] at h
        rcases List.mem_cons.1 h with rfl | h
        · exact Or.inl List.mem_cons_self
        · rcases ih h with h | h | ⟨old, ho, hp⟩
          · exact Or.inl (List.mem_cons_of_mem _ h)
          · exact Or.inr (Or.inl h)
          · exact Or.inr (Or.inr ⟨old, List.mem_cons_of_mem _ ho, hp⟩)

/-- **An update keeps the order.** -/
theorem sorted_update [Std.TransOrd κ] (h : pairs.Pairwise fun a b => compare a.1 b.1 = .lt)
    (key : κ) (change : Option α → α) :
    (update key change pairs).Pairwise fun a b => compare a.1 b.1 = .lt := by
  induction pairs with
  | nil => exact List.pairwise_singleton _ _
  | cons first rest ih =>
      obtain ⟨hfirst, hrest⟩ := List.pairwise_cons.1 h
      rcases update_cases key change first rest with ⟨hlt, he⟩ | ⟨rfl, he⟩ | ⟨hgt, he⟩
      · -- a new key stands before the first one and so before all others
        rw [he]
        refine List.pairwise_cons.2 ⟨fun pair hp => ?_, h⟩
        rcases List.mem_cons.1 hp with rfl | hp
        · exact hlt
        · exact Std.TransCmp.lt_trans hlt (hfirst pair hp)
      · rw [he]
        exact List.pairwise_cons.2 ⟨hfirst, hrest⟩
      · -- behind the first pair nothing comes in but old pairs and the key itself
        rw [he]
        refine List.pairwise_cons.2 ⟨fun pair hp => ?_, ih hrest⟩
        rcases mem_update hp with hp | rfl | ⟨old, -, rfl⟩
        · exact hfirst pair hp
        · exact hgt
        · exact hgt

/-- A new key is added to the others. -/
theorem update_perm [Std.OrientedOrd κ] (change : Option α → α) (h : key ∉ pairs.map Prod.fst) :
    (update key change pairs).Perm ((key, change none) :: pairs) := by
  induction pairs with
  | nil => exact List.Perm.refl _
  | cons first rest ih =>
      rw [List.map_cons, List.mem_cons, not_or] at h
      rcases update_cases key change first rest with ⟨-, he⟩ | ⟨hk, -⟩ | ⟨-, he⟩
      · rw [he]
      · exact absurd hk h.1
      · rw [he]
        exact ((ih h.2).cons _).trans (List.Perm.swap _ _ _)

/-- **An update changes what is found under its key only.** -/
theorem lookup_update [BEq κ] [LawfulBEq κ] [DecidableEq κ] [Std.TransOrd κ]
    (h : pairs.Pairwise fun a b => compare a.1 b.1 = .lt) (key other : κ)
    (change : Option α → α) :
    (update key change pairs).lookup other =
      if other = key then some (change (pairs.lookup key)) else pairs.lookup other := by
  induction pairs with
  | nil => exact lookup_cons_ite other (key, change none) []
  | cons first rest ih =>
      obtain ⟨hfirst, hrest⟩ := List.pairwise_cons.1 h
      rcases update_cases key change first rest with ⟨hlt, he⟩ | ⟨rfl, he⟩ | ⟨hgt, he⟩
      · -- the key stands before all others, so nothing was found under it
        have hnone : (first :: rest).lookup key = none := by
          refine lookup_eq_none_of_lt fun pair hp => ?_
          rcases List.mem_cons.1 hp with rfl | hp
          · exact hlt
          · exact Std.TransCmp.lt_trans hlt (hfirst pair hp)
        rw [he, lookup_cons_ite, hnone]
      · -- the value of the first pair is changed
        rw [he, lookup_cons_ite, lookup_cons_ite, lookup_cons_ite, if_pos rfl]
        by_cases ho : other = first.1
        · rw [if_pos ho, if_pos ho]
        · rw [if_neg ho, if_neg ho, if_neg ho]
      · -- the first pair has another key, so both keys are looked up in the rest
        have hne : key ≠ first.1 := (ne_of_compare_lt hgt).symm
        rw [he, lookup_cons_ite, lookup_cons_ite, lookup_cons_ite, if_neg hne, ih hrest]
        by_cases ho : other = first.1
        · rw [if_pos ho, if_pos ho, if_neg (ho ▸ hne.symm)]
        · rw [if_neg ho, if_neg ho]

end Pairs

end PathDoc

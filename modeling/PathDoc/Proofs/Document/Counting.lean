import PathDoc.Proofs.Document.Equivalence

/-!
# Counting the parts of equal documents

A document has no more parts than a document that it equals (`nodeCount_le_of_eqLeaves`): entries,
items, members and fields go with equal ones, and no two with the same. Inserting entries under
names and leaving out equal members can only lose parts (`countEntries_ofList_le`,
`countItems_distinct_le`).
-/

set_option autoImplicit false

namespace PathDoc.Document

theorem countItems_eq_sum (items : List Document) :
    countItems items = (items.map nodeCount).sum := by
  induction items with
  | nil => rfl
  | cons item rest ih => rw [countItems, ih, List.map_cons, List.sum_cons]

theorem countItems_perm {as bs : List Document} (h : as.Perm bs) :
    countItems as = countItems bs := by
  rw [countItems_eq_sum, countItems_eq_sum]
  exact (h.map nodeCount).sum_eq

theorem countItems_sublist {as bs : List Document} (h : as.Sublist bs) :
    countItems as ≤ countItems bs := by
  induction h with
  | slnil => exact Nat.le_refl _
  | cons item _ ih => exact Nat.le_trans ih (Nat.le_add_left _ _)
  | cons_cons item _ ih => exact Nat.add_le_add_left ih _

theorem countItems_append (as bs : List Document) :
    countItems (as ++ bs) = countItems as + countItems bs := by
  rw [countItems_eq_sum, List.map_append, List.sum_append, ← countItems_eq_sum,
    ← countItems_eq_sum]

/-- Items have no more parts than larger items in the same order. -/
theorem countItems_le_of_forall₂ {as bs : List Document}
    (h : List.Forall₂ (fun a b => a.nodeCount ≤ b.nodeCount) as bs) :
    countItems as ≤ countItems bs := by
  induction h with
  | nil => exact Nat.le_refl _
  | cons hab _ ih => exact Nat.add_le_add hab ih

section

variable {same : Scalar → Scalar → Bool}

/-- The values of a finite map find their places among the values of one that holds all its
names. -/
theorem countEntries_le_of_get? {as bs : List (String × Document)} (hn : (Entries.names as).Nodup)
    (h : ∀ e ∈ as, ∃ v, Entries.get? bs e.1 = some v ∧ e.2.nodeCount ≤ v.nodeCount) :
    countEntries as ≤ countEntries bs := by
  choose! found hfound using h
  let chosen := as.map fun e => (e.1, found e)
  have hnames : (Entries.names chosen).Nodup := by
    rw [Entries.names, List.map_map]
    exact hn
  have hsub : chosen ⊆ bs := by
    intro e he
    obtain ⟨a, ha, rfl⟩ := List.mem_map.1 he
    exact Entries.mem_of_get? (hfound a ha).1
  -- the chosen entries differ in their names, so they are as many entries of the other map
  obtain ⟨picked, hperm, hpicked⟩ := (List.Nodup.of_map Prod.fst hnames).subperm hsub
  rw [← countItems_values, ← countItems_values]
  calc countItems (as.map Prod.snd)
      ≤ countItems (chosen.map Prod.snd) := by
        apply countItems_le_of_forall₂
        rw [List.map_map, List.forall₂_map_left_iff, List.forall₂_map_right_iff, List.forall₂_same]
        exact fun a ha => (hfound a ha).2
    _ = countItems (picked.map Prod.snd) := (countItems_perm (hperm.map Prod.snd)).symm
    _ ≤ countItems (bs.map Prod.snd) := countItems_sublist (hpicked.map Prod.snd)

/-- **A document has no more parts than a document that it equals.** -/
theorem nodeCount_le_of_eqLeaves {a b : Document} (ha : a.namesDistinct = true)
    (h : a.eqLeaves same b = true) : a.nodeCount ≤ b.nodeCount := by
  induction a using induct generalizing b with
  | scalar value =>
      obtain ⟨other, rfl, -⟩ := (eqLeaves_scalar_iff _ _).1 h
      exact Nat.le_refl _
  | mapping as ih =>
      obtain ⟨bs, rfl, -, he⟩ := (eqLeaves_mapping_iff _ _).1 h
      simp only [everywhere_mapping, hasDistinctNames, decide_eq_true_eq] at ha
      apply Nat.add_le_add_left
      -- each entry has a counterpart of at least its size, and names are distinct
      apply countEntries_le_of_get? ha.1
      intro e hm
      obtain ⟨v, hv, hev⟩ := he e hm
      exact ⟨v, hv, ih e hm (ha.2 e hm) hev⟩
  | sequence as ih =>
      obtain ⟨bs, rfl, he⟩ := (eqLeaves_sequence_iff _ _).1 h
      simp only [everywhere_sequence] at ha
      apply Nat.add_le_add_left
      apply countItems_le_of_forall₂
      exact forall₂_imp_mem he fun x hx y _ hxy => ih x hx (ha.2 x hx) hxy
  | set as ih =>
      obtain ⟨bs, rfl, hp⟩ := paired_of_eqLeaves h
      simp only [everywhere_set] at ha
      apply Nat.add_le_add_left
      -- the members are paired in some order
      have hle : ((as : Multiset Document).map nodeCount).Rel (· ≤ ·)
          ((bs : Multiset Document).map nodeCount) := by
        rw [Multiset.rel_map_left, Multiset.rel_map_right]
        exact hp.mono fun x hx y _ hxy =>
          ih x (Multiset.mem_coe.1 hx) (ha.2 x (Multiset.mem_coe.1 hx)) hxy
      rw [countItems_eq_sum, countItems_eq_sum]
      exact Multiset.sum_le_sum_of_rel_le hle
  | record n as ih =>
      obtain ⟨bs, rfl, he⟩ := (eqLeaves_record_iff _ _ _).1 h
      simp only [everywhere_record] at ha
      apply Nat.add_le_add_left
      rw [← countItems_values, ← countItems_values]
      apply countItems_le_of_forall₂
      rw [List.forall₂_map_left_iff, List.forall₂_map_right_iff]
      exact forall₂_imp_mem he fun x hx y _ hxy => ih x hx (ha.2 x hx) hxy.2

end

/-! ## Building containers -/

/-- Inserting an entry adds the parts of its value at most. -/
theorem countEntries_insert_le (entries : List (String × Document)) (name : String)
    (value : Document) :
    countEntries (Entries.insert entries name value) ≤ countEntries entries + value.nodeCount := by
  induction entries with
  | nil => simp [Entries.insert, countEntries]
  | cons entry rest ih =>
      obtain ⟨k, old⟩ := entry
      rw [Entries.insert]
      split
      · simp only [countEntries]
        omega
      · simp only [countEntries]
        omega

/-- **Inserting pairs loses parts at most.** -/
theorem countEntries_ofList_le (pairs : List (String × Document)) :
    countEntries (Entries.ofList pairs) ≤ countEntries pairs := by
  suffices ∀ entries : List (String × Document),
      countEntries (pairs.foldl (fun entries pair => Entries.insert entries pair.1 pair.2) entries) ≤
        countEntries entries + countEntries pairs by
    simpa [Entries.ofList, countEntries] using this []
  induction pairs with
  | nil => exact fun entries => Nat.le_refl _
  | cons pair rest ih =>
      intro entries
      have hrest := ih (Entries.insert entries pair.1 pair.2)
      have hfirst := countEntries_insert_le entries pair.1 pair.2
      rw [List.foldl_cons, countEntries]
      omega

/-- **Leaving out equal members loses parts at most.** -/
theorem countItems_distinct_le (items : List Document) :
    countItems (distinct items) ≤ countItems items := by
  suffices ∀ kept : List Document,
      countItems (items.foldl
        (fun kept item => if kept.any (· == item) then kept else kept ++ [item]) kept) ≤
        countItems kept + countItems items by
    simpa [distinct, countItems] using this []
  induction items with
  | nil => exact fun kept => Nat.le_refl _
  | cons item rest ih =>
      intro kept
      rw [List.foldl_cons, countItems]
      split
      · have hrest := ih kept
        omega
      · have hrest := ih (kept ++ [item])
        rw [countItems_append, countItems, countItems] at hrest
        omega

end PathDoc.Document

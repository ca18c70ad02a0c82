import PathDoc.Proofs.Document.Equivalence

/-!
# Documents that differ in the order of mapping entries only

`Document.Reordered a b` says that `b` is `a` with the entries of some of its mappings in another
order: kinds, record names, field names and the order of items, members and fields are the same. A
document without `NaN` equals its reorderings (`Reordered.beq`); a reordering keeps the names of
mappings distinct (`Reordered.namesDistinct`) and unequal members of a set unequal
(`Reordered.distinct_members`).
-/

set_option autoImplicit false

namespace PathDoc.Document

/-- The second document is the first one with mapping entries in another order. -/
inductive Reordered : Document → Document → Prop
  | scalar (value : Scalar) : Reordered (.scalar value) (.scalar value)
  | mapping {as bs cs : List (String × Document)} (names : as.map Prod.fst = bs.map Prod.fst)
      (values : List.Forall₂ Reordered (as.map Prod.snd) (bs.map Prod.snd)) (order : bs.Perm cs) :
      Reordered (.mapping as) (.mapping cs)
  | sequence {as bs : List Document} (items : List.Forall₂ Reordered as bs) :
      Reordered (.sequence as) (.sequence bs)
  | set {as bs : List Document} (members : List.Forall₂ Reordered as bs) :
      Reordered (.set as) (.set bs)
  | record {name : String} {as bs : List (String × Document)}
      (names : as.map Prod.fst = bs.map Prod.fst)
      (values : List.Forall₂ Reordered (as.map Prod.snd) (bs.map Prod.snd)) :
      Reordered (.record name as) (.record name bs)

namespace Reordered

variable {same : Scalar → Scalar → Bool}

/-- Every item has a related one in the other list. -/
theorem exists_of_mem_left {α β : Type} {R : α → β → Prop} {as : List α} {bs : List β}
    (h : List.Forall₂ R as bs) {a : α} (ha : a ∈ as) : ∃ b ∈ bs, R a b := by
  induction h with
  | nil => cases ha
  | @cons a' b' _ _ hab _ ih =>
      rcases List.mem_cons.1 ha with he | ha
      · exact ⟨b', List.mem_cons_self, he ▸ hab⟩
      · obtain ⟨b, hb, h⟩ := ih ha
        exact ⟨b, List.mem_cons_of_mem _ hb, h⟩

theorem refl (a : Document) : Reordered a a := by
  induction a using induct with
  | scalar value => exact scalar value
  | mapping as ih =>
      refine mapping rfl (List.forall₂_same.2 fun d hd => ?_) (List.Perm.refl as)
      obtain ⟨e, he, rfl⟩ := List.mem_map.1 hd
      exact ih e he
  | sequence as ih => exact sequence (List.forall₂_same.2 ih)
  | set as ih => exact set (List.forall₂_same.2 ih)
  | record n as ih =>
      refine record rfl (List.forall₂_same.2 fun d hd => ?_)
      obtain ⟨e, he, rfl⟩ := List.mem_map.1 hd
      exact ih e he

/-- **A reordering keeps the names of mappings distinct.** -/
theorem namesDistinct {a b : Document} (h : Reordered a b) (ha : a.namesDistinct = true) :
    b.namesDistinct = true := by
  induction a using induct generalizing b with
  | scalar value => cases h; exact ha
  | mapping as ih =>
      obtain - | @⟨_, bs, cs, names, values, order⟩ := h
      simp only [everywhere_mapping, hasDistinctNames, decide_eq_true_eq] at ha ⊢
      -- the names are those of the entries before they were put in another order
      have hn : (cs.map Prod.fst).Perm (as.map Prod.fst) := names ▸ (order.map Prod.fst).symm
      refine ⟨hn.nodup_iff.2 ha.1, fun e he => ?_⟩
      have hv := forall₂_entries_iff.2 ⟨names, values⟩
      obtain ⟨e', he', -, hr⟩ := exists_of_mem_left hv.flip (order.mem_iff.2 he)
      exact ih e' he' hr (ha.2 e' he')
  | sequence as ih =>
      obtain - | - | @⟨_, bs, items⟩ := h
      simp only [everywhere_sequence] at ha ⊢
      refine ⟨rfl, fun b hb => ?_⟩
      obtain ⟨a, hm, hr⟩ := exists_of_mem_left items.flip hb
      exact ih a hm hr (ha.2 a hm)
  | set as ih =>
      obtain - | - | - | @⟨_, bs, members⟩ := h
      simp only [everywhere_set] at ha ⊢
      refine ⟨rfl, fun b hb => ?_⟩
      obtain ⟨a, hm, hr⟩ := exists_of_mem_left members.flip hb
      exact ih a hm hr (ha.2 a hm)
  | record n as ih =>
      obtain - | - | - | - | @⟨_, _, bs, names, values⟩ := h
      simp only [everywhere_record] at ha ⊢
      refine ⟨rfl, fun e he => ?_⟩
      have hv := forall₂_entries_iff.2 ⟨names, values⟩
      obtain ⟨e', he', -, hr⟩ := exists_of_mem_left hv.flip he
      exact ih e' he' hr (ha.2 e' he')

/-- **A document equals its reorderings, if its leaves equal themselves.** -/
theorem eqLeaves {condition : Document → Bool}
    (hl : ∀ value : Scalar, condition (.scalar value) = true →
      same value value = true ∨ value.eq value = true)
    {a b : Document} (h : Reordered a b) (ha : a.namesDistinct = true)
    (hc : a.everywhere condition = true) : a.eqLeaves same b = true := by
  induction a using induct generalizing b with
  | scalar value =>
      cases h
      exact (eqLeaves_scalar_iff _ _).2 ⟨value, rfl, hl value hc⟩
  | mapping as ih =>
      have hcs := h.namesDistinct ha
      obtain - | @⟨_, bs, cs, names, values, order⟩ := h
      simp only [everywhere_mapping, hasDistinctNames, decide_eq_true_eq] at ha hc hcs
      have hlen : as.length = cs.length := by
        have h := congrArg List.length names
        rw [List.length_map, List.length_map] at h
        exact h.trans order.length_eq
      -- the entry of the same name, wherever it stands now, is a reordering of this one
      refine (eqLeaves_mapping_iff _ _).2 ⟨cs, rfl, hlen, fun e he => ?_⟩
      have hv := forall₂_entries_iff.2 ⟨names, values⟩
      obtain ⟨e', he', hn, hr⟩ := exists_of_mem_left hv he
      have hget : Entries.get? cs e'.1 = some e'.2 :=
        Entries.get?_of_mem hcs.1 (order.mem_iff.1 he')
      exact ⟨e'.2, hn ▸ hget, ih e he hr (ha.2 e he) (hc.2 e he)⟩
  | sequence as ih =>
      obtain - | - | @⟨_, bs, items⟩ := h
      simp only [everywhere_sequence] at ha hc
      refine (eqLeaves_sequence_iff _ _).2 ⟨bs, rfl, forall₂_imp_mem items fun a hm b _ hr => ?_⟩
      exact ih a hm hr (ha.2 a hm) (hc.2 a hm)
  | set as ih =>
      obtain - | - | - | @⟨_, bs, members⟩ := h
      simp only [everywhere_set] at ha hc
      refine eqLeaves_set_of_forall₂ (forall₂_imp_mem members fun a hm b _ hr => ?_)
      exact ih a hm hr (ha.2 a hm) (hc.2 a hm)
  | record n as ih =>
      obtain - | - | - | - | @⟨_, _, bs, names, values⟩ := h
      simp only [everywhere_record] at ha hc
      have hv := forall₂_entries_iff.2 ⟨names, values⟩
      refine (eqLeaves_record_iff _ _ _).2 ⟨bs, rfl, forall₂_imp_mem hv fun e he e' _ hr => ?_⟩
      exact ⟨hr.1, ih e he hr.2 (ha.2 e he) (hc.2 e he)⟩

/-- **A document without `NaN` equals its reorderings.** -/
theorem beq {a b : Document} (h : Reordered a b) (ha : a.namesDistinct = true)
    (hn : a.nanFree = true) : (a == b) = true := by
  rw [beq_eq_eqLeaves]
  refine h.eqLeaves (fun value hv => Or.inr ?_) ha hn
  rw [Scalar.eq_self]
  exact hv

/-- Documents whose reorderings are equal are equal. -/
theorem beq_of_beq {a a' b b' : Document} (h : Reordered a b) (h' : Reordered a' b')
    (ha : a.namesDistinct = true) (hn : a.nanFree = true) (ha' : a'.namesDistinct = true)
    (hn' : a'.nanFree = true) (he : (b == b') = true) : (a == a') = true := by
  have hb := h.namesDistinct ha
  have hb' := h'.namesDistinct ha'
  have heq : (b' == a') = true := beq_comm ha' hb' ▸ h'.beq ha' hn'
  exact beq_trans ha hb ha' (h.beq ha hn) (beq_trans hb hb' ha' he heq)

/-- **Reordering the members of a set keeps unequal members unequal.** -/
theorem distinct_members {as bs : List Document} (h : List.Forall₂ Reordered as bs)
    (ha : ∀ a ∈ as, a.namesDistinct = true) (hn : ∀ a ∈ as, a.nanFree = true)
    (hp : as.Pairwise fun a b => (a == b) = false) : bs.Pairwise fun a b => (a == b) = false := by
  induction h with
  | nil => exact List.Pairwise.nil
  | @cons a b as bs hab hrest ih =>
      rw [List.pairwise_cons] at hp ⊢
      rw [List.forall_mem_cons] at ha hn
      refine ⟨fun b' hb' => ?_, ih ha.2 hn.2 hp.2⟩
      obtain ⟨a', ha', hab'⟩ := exists_of_mem_left hrest.flip hb'
      -- if two members were equal after reordering, they would have been equal before
      rw [← Bool.not_eq_true]
      intro he
      have heq := hab.beq_of_beq hab' ha.1 hn.1 (ha.2 a' ha') (hn.2 a' ha') he
      rw [hp.1 a' ha'] at heq
      exact Bool.noConfusion heq

end Reordered

/-- **A document without `NaN` equals itself.** -/
theorem beq_self {a : Document} (ha : a.namesDistinct = true) (hn : a.nanFree = true) :
    (a == a) = true :=
  (Reordered.refl a).beq ha hn

end PathDoc.Document

import PathDoc.Proofs.Document.Congruence

/-!
# Sets built from lists with equal members

`ofMembers` keeps all members if no two are equal (`distinct_of_pairwise`), and of the members that
it keeps no two are equal (`hasDistinctMembers_ofMembers`). If one member equals another one, it
makes no difference to the set which of the two is left out (`agrees_ofMembers_middle`). Equality
with `NaN` is weaker than equality (`agrees_of_beq`) and symmetric (`agrees_comm`).
-/

set_option autoImplicit false

namespace PathDoc.Document

/-! ## Equality with NaN is an equivalence -/

theorem passes_agrees {a : Document} (ha : a.namesDistinct = true) : Passes bothNaN a := by
  have hleft : ∀ {x y z : Scalar}, (scalar y).isNaN = true → x.eq y = true ∨ y.eq z = true →
      False := by
    intro x y z hy h
    have hself : y.eq y = true := by
      rcases h with h | h
      · exact Scalar.eq_trans (Scalar.eq_symm h) h
      · exact Scalar.eq_trans h (Scalar.eq_symm h)
    rw [Scalar.eq_self, hy] at hself
    exact Bool.noConfusion hself
  -- `NaN` equals no leaf as a value, so the two ways to be the same do not mix
  refine passes (fun x y h => ?_) (fun x y z hxy hyz => ?_) a ha
  · rw [bothNaN, Bool.and_eq_true] at h ⊢
    exact h.symm
  · simp only [bothNaN, Bool.and_eq_true] at hxy hyz ⊢
    rcases hxy with hxy | hxy <;> rcases hyz with hyz | hyz
    · exact Or.inl ⟨hxy.1, hyz.2⟩
    · exact (hleft hxy.2 (Or.inr hyz) (x := x)).elim
    · exact (hleft hyz.1 (Or.inl hxy) (z := z)).elim
    · exact Or.inr (Scalar.eq_trans hxy hyz)

/-- **Equality with `NaN` is symmetric.** -/
theorem agrees_comm {a b : Document} (ha : a.namesDistinct = true) (hb : b.namesDistinct = true) :
    a.agrees b = b.agrees a := by
  rw [agrees_eq_eqLeaves, agrees_eq_eqLeaves]
  exact (passes_agrees ha).comm b hb

/-- **Equal documents agree.** -/
theorem agrees_of_beq {a b : Document} (ha : a.namesDistinct = true) (hb : b.namesDistinct = true)
    (h : (a == b) = true) : a.agrees b = true := by
  rw [beq_eq_eqLeaves] at h
  rw [agrees_eq_eqLeaves]
  induction a using induct generalizing b with
  | scalar value =>
      obtain ⟨other, rfl, hv⟩ := (eqLeaves_scalar_iff _ _).1 h
      exact (eqLeaves_scalar_iff _ _).2 ⟨other, rfl, Or.inr (hv.resolve_left Bool.false_ne_true)⟩
  | mapping as ih =>
      obtain ⟨bs, rfl, hl, he⟩ := (eqLeaves_mapping_iff _ _).1 h
      simp only [everywhere_mapping] at ha hb
      refine (eqLeaves_mapping_iff _ _).2 ⟨bs, rfl, hl, fun e hm => ?_⟩
      obtain ⟨v, hv, hev⟩ := he e hm
      exact ⟨v, hv, ih e hm (ha.2 e hm) (hb.2 _ (Entries.mem_of_get? hv)) hev⟩
  | sequence as ih =>
      obtain ⟨bs, rfl, he⟩ := (eqLeaves_sequence_iff _ _).1 h
      simp only [everywhere_sequence] at ha hb
      refine (eqLeaves_sequence_iff _ _).2 ⟨bs, rfl, forall₂_imp_mem he fun x hx y hy hxy => ?_⟩
      exact ih x hx (ha.2 x hx) (hb.2 y hy) hxy
  | set as ih =>
      obtain ⟨bs, rfl, hp⟩ := paired_of_eqLeaves h
      simp only [everywhere_set] at ha hb
      -- the members are paired off, each with an equal one, and equal ones agree
      have hx : Exchanges bothNaN as bs :=
        Exchanges.of_passes (fun a hm => passes_agrees (ha.2 a hm)) ha.2 hb.2
      refine (eqLeaves_set_iff hx).2 (hp.mono fun x hx y hy hxy => ?_)
      exact ih x hx (ha.2 x hx) (hb.2 y hy) hxy
  | record n as ih =>
      obtain ⟨bs, rfl, he⟩ := (eqLeaves_record_iff _ _ _).1 h
      simp only [everywhere_record] at ha hb
      refine (eqLeaves_record_iff _ _ _).2 ⟨bs, rfl, forall₂_imp_mem he fun x hx y hy hxy => ?_⟩
      exact ⟨hxy.1, ih x hx (ha.2 x hx) (hb.2 y hy) hxy.2⟩

/-! ## Leaving out equal members -/

/-- Members differ from each other exactly if one of them differs from the others, and they from
each other. -/
theorem pairwise_differ_middle {before after : List Document} {value : Document}
    (hn : ∀ d ∈ before ++ value :: after, d.namesDistinct = true) :
    ((before ++ value :: after).Pairwise fun a b => (a == b) = false) ↔
      ((before ++ after).Pairwise fun a b => (a == b) = false) ∧
        ∀ d ∈ before ++ after, (d == value) = false := by
  have hv : value.namesDistinct = true := hn value (List.mem_append_right _ List.mem_cons_self)
  -- equality is symmetric between documents that are finite maps
  have hcomm : ∀ d ∈ after, (value == d) = (d == value) := fun d hd =>
    beq_comm hv (hn d (List.mem_append_right _ (List.mem_cons_of_mem _ hd)))
  simp only [List.pairwise_append, List.pairwise_cons, List.mem_append, List.mem_cons]
  constructor
  · rintro ⟨hb, ⟨hva, ha⟩, hba⟩
    refine ⟨⟨hb, ha, fun b hm d hd => hba b hm d (Or.inr hd)⟩, ?_⟩
    rintro d (hd | hd)
    · exact hba d hd value (Or.inl rfl)
    · rw [← hcomm d hd]
      exact hva d hd
  · rintro ⟨⟨hb, ha, hba⟩, hd⟩
    refine ⟨hb, ⟨fun d hm => ?_, ha⟩, ?_⟩
    · rw [hcomm d hm]
      exact hd d (Or.inr hm)
    · rintro b hm d (rfl | hda)
      · exact hd b (Or.inl hm)
      · exact hba b hm d hda

theorem beq_eq_false_of_any {items : List Document} {value d : Document}
    (h : items.any (· == value) = false) (hd : d ∈ items) : (d == value) = false :=
  Bool.eq_false_iff.2 (List.any_eq_false.1 h d hd)

/-- Members that differ from each other and from those kept are all added. -/
theorem foldl_distinct {kept items : List Document}
    (h : (kept ++ items).Pairwise fun a b => (a == b) = false) :
    items.foldl (fun kept item => if kept.any (· == item) then kept else kept ++ [item]) kept =
      kept ++ items := by
  induction items generalizing kept with
  | nil => exact (List.append_nil kept).symm
  | cons item rest ih =>
      have hnew : kept.any (· == item) = false := by
        rw [List.any_eq_false]
        intro a ha
        rw [(List.pairwise_append.1 h).2.2 a ha item List.mem_cons_self]
        exact Bool.false_ne_true
      have hsplit : kept ++ item :: rest = (kept ++ [item]) ++ rest := by simp
      rw [List.foldl_cons, hnew, if_neg Bool.false_ne_true, hsplit]
      exact ih (hsplit ▸ h)

/-- Unequal members are all kept. -/
theorem distinct_of_pairwise {items : List Document}
    (h : items.Pairwise fun a b => (a == b) = false) : distinct items = items :=
  foldl_distinct h

theorem distinct_append {a b : List Document} (h : a.Pairwise fun x y => (x == y) = false) :
    distinct (a ++ b) =
      b.foldl (fun kept item => if kept.any (· == item) then kept else kept ++ [item]) a := by
  rw [distinct, List.foldl_append]
  exact congrArg (fun kept => b.foldl _ kept) (distinct_of_pairwise h)

theorem mem_of_mem_foldl_distinct {kept items : List Document} {d : Document}
    (h : d ∈ items.foldl
      (fun kept item => if kept.any (· == item) then kept else kept ++ [item]) kept) :
    d ∈ kept ∨ d ∈ items := by
  induction items generalizing kept with
  | nil => exact Or.inl h
  | cons item rest ih =>
      rw [List.foldl_cons] at h
      rcases ih h with h | h
      · split at h
        · exact Or.inl h
        · rcases List.mem_append.1 h with h | h
          · exact Or.inl h
          · exact Or.inr (List.mem_cons.2 (Or.inl (List.mem_singleton.1 h)))
      · exact Or.inr (List.mem_cons_of_mem _ h)

/-- Nothing is added. -/
theorem mem_of_mem_distinct {items : List Document} {d : Document} (h : d ∈ distinct items) :
    d ∈ items :=
  (mem_of_mem_foldl_distinct h).resolve_left List.not_mem_nil

/-- No two members that are kept are equal. -/
theorem pairwise_foldl_distinct {kept items : List Document}
    (h : kept.Pairwise fun a b => (a == b) = false) :
    (items.foldl (fun kept item => if kept.any (· == item) then kept else kept ++ [item])
      kept).Pairwise fun a b => (a == b) = false := by
  induction items generalizing kept with
  | nil => exact h
  | cons item rest ih =>
      rw [List.foldl_cons]
      apply ih
      split
      · exact h
      · rename_i hnew
        rw [List.pairwise_append]
        refine ⟨h, List.pairwise_singleton _ item, ?_⟩
        intro a ha b hb
        rw [List.mem_singleton.1 hb]
        exact beq_eq_false_of_any (Bool.not_eq_true _ ▸ hnew) ha

/-- A set made of items holds no two equal members. -/
theorem hasDistinctMembers_ofMembers (items : List Document) :
    (ofMembers items).hasDistinctMembers = true :=
  decide_eq_true (pairwise_foldl_distinct List.Pairwise.nil)

/-- A member that equals an earlier one is left out. -/
theorem distinct_of_earlier {before after : List Document} {value : Document}
    (hp : (before ++ after).Pairwise fun a b => (a == b) = false)
    (hv : before.any (· == value) = true) :
    distinct (before ++ value :: after) = before ++ after := by
  rw [distinct_append (List.pairwise_append.1 hp).1, List.foldl_cons, hv, if_pos rfl,
    foldl_distinct hp]

/-- A member that an earlier one equals is left out in its favour. -/
theorem distinct_of_later {before middle after : List Document} {value other : Document}
    (hb : (before ++ value :: (middle ++ after)).Pairwise fun a b => (a == b) = false)
    (hv : (value == other) = true) :
    distinct (before ++ value :: (middle ++ other :: after)) =
      before ++ value :: (middle ++ after) := by
  have hsplit : ∀ rest : List Document, before ++ value :: (middle ++ rest) =
      (before ++ value :: middle) ++ rest := by
    intro rest
    simp
  rw [hsplit] at hb
  have hany : (before ++ value :: middle).any (· == other) = true := by
    rw [List.any_eq_true]
    exact ⟨value, by simp, hv⟩
  rw [hsplit, hsplit, distinct_of_earlier hb hany]

/-- A member of a set can be exchanged for an equal one, and the order does not matter. -/
theorem agrees_exchange {before middle after : List Document} {value other : Document}
    (hl : ∀ d ∈ before ++ (middle ++ after), d.namesDistinct = true)
    (hv : value.namesDistinct = true) (ho : other.namesDistinct = true)
    (he : (other == value) = true) :
    (set (before ++ (middle ++ other :: after))).agrees
      (set (before ++ value :: (middle ++ after))) = true := by
  -- both sides hold the same members beside the one that is exchanged
  have hleft : ((before ++ (middle ++ other :: after) : List Document) : Multiset Document) =
      other ::ₘ ((before ++ (middle ++ after) : List Document) : Multiset Document) := by
    rw [← List.append_assoc, ← List.append_assoc]
    exact Multiset.coe_eq_coe.2 List.perm_middle
  have hright : ((before ++ value :: (middle ++ after) : List Document) : Multiset Document) =
      value ::ₘ ((before ++ (middle ++ after) : List Document) : Multiset Document) :=
    Multiset.coe_eq_coe.2 List.perm_middle
  have has : ∀ d ∈ before ++ (middle ++ other :: after), d.namesDistinct = true := by
    intro d hd
    rw [← Multiset.mem_coe, hleft, Multiset.mem_cons] at hd
    rcases hd with rfl | hd
    · exact ho
    · exact hl d (Multiset.mem_coe.1 hd)
  have hbs : ∀ d ∈ before ++ value :: (middle ++ after), d.namesDistinct = true := by
    intro d hd
    rw [← Multiset.mem_coe, hright, Multiset.mem_cons] at hd
    rcases hd with rfl | hd
    · exact hv
    · exact hl d (Multiset.mem_coe.1 hd)
  have hx : Exchanges bothNaN (before ++ (middle ++ other :: after))
      (before ++ value :: (middle ++ after)) :=
    Exchanges.of_passes (fun d hd => passes_agrees (has d hd)) has hbs
  rw [agrees_eq_eqLeaves, eqLeaves_set_iff hx]
  unfold Paired
  rw [hleft, hright]
  refine Multiset.Rel.cons ?_ (Multiset.rel_refl_of_refl_on fun d hd => ?_)
  · rw [← agrees_eq_eqLeaves]
    exact agrees_of_beq ho hv he
  · rw [← agrees_eq_eqLeaves]
    exact agrees_self (hl d (Multiset.mem_coe.1 hd))

/-- What differs from a member differs from what the member equals. -/
theorem beq_false_of_beq {a b c : Document} (ha : a.namesDistinct = true)
    (hb : b.namesDistinct = true) (hc : c.namesDistinct = true) (hab : (a == b) = true)
    (hac : (a == c) = false) : (b == c) = false := by
  rw [← Bool.not_eq_true]
  intro hbc
  rw [beq_trans ha hb hc hab hbc] at hac
  exact Bool.noConfusion hac

/-- **Of two equal members of a set it does not matter which one is left out.** -/
theorem agrees_ofMembers_middle {before after : List Document} {value other : Document}
    (hn : ∀ d ∈ before ++ after, d.namesDistinct = true) (hvalue : value.namesDistinct = true)
    (hp : (before ++ after).Pairwise fun a b => (a == b) = false)
    (ho : other ∈ before ++ after) (hv : (other == value) = true) :
    (set (before ++ after)).agrees (ofMembers (before ++ value :: after)) = true := by
  have hother := hn other ho
  cases hb : before.any (· == value) with
  | true =>
      rw [ofMembers, distinct_of_earlier hp hb]
      exact agrees_self ((everywhere_set _).2 ⟨rfl, hn⟩)
  | false =>
      have hbefore : ∀ b ∈ before, (b == value) = false :=
        fun b hm => beq_eq_false_of_any hb hm
      have hafter : other ∈ after := by
        apply (List.mem_append.1 ho).resolve_left
        intro hm
        rw [hbefore other hm] at hv
        exact Bool.noConfusion hv
      obtain ⟨middle, last, rfl⟩ := List.append_of_mem hafter
      have hl : ∀ d ∈ before ++ (middle ++ last), d.namesDistinct = true :=
        fun d hd => hn d ((List.Sublist.mem hd (by simp)))
      have hsub : (before ++ (middle ++ last)).Pairwise fun a b => (a == b) = false :=
        hp.sublist (by simp)
      -- what differs from the other member differs from the value too
      have hrest : ∀ d ∈ before ++ (middle ++ last), (d == value) = false := by
        intro d hd
        have hdn : d.namesDistinct = true := hl d hd
        rcases List.mem_append.1 hd with hb | hm
        · exact hbefore d hb
        · rw [beq_comm hdn hvalue]
          refine beq_false_of_beq hother hvalue hdn hv ?_
          rw [beq_comm hother hdn]
          refine ((pairwise_differ_middle ?_).1 (List.pairwise_append.1 hp).2.1).2 d hm
          intro e he
          exact hn e (List.mem_append_right _ he)
      have hkept : (before ++ value :: (middle ++ last)).Pairwise fun a b => (a == b) = false := by
        refine (pairwise_differ_middle fun d hd => ?_).2 ⟨hsub, hrest⟩
        rcases List.mem_append.1 hd with hb | hd
        · exact hl d (List.mem_append_left _ hb)
        · rcases List.mem_cons.1 hd with rfl | hd
          · exact hvalue
          · exact hl d (List.mem_append_right _ hd)
      have hvo : (value == other) = true := by rw [beq_comm hvalue hother, hv]
      rw [ofMembers, distinct_of_later hkept hvo]
      exact agrees_exchange hl hvalue hother hv

end PathDoc.Document

import Mathlib
import PathDoc.Proofs.Document.Nodes

/-!
# Equality of documents is symmetric and transitive

Equality takes two leaves for the same if they are equal as values; `agrees` also takes `NaN` for
the same as itself. Both are `eqUpTo` for a relation of leaves, and everything here is proved once
for such a relation: documents inherit symmetry and transitivity from the leaves (`passes`). Pairing
off the members of two sets one after the other succeeds exactly if some one-to-one pairing exists
(`eqLeaves_set_iff`). `beq_comm` and `beq_trans` say it of equality as values.
-/

set_option autoImplicit false

namespace PathDoc

/-! ## Floating-point numbers -/

theorem float_beq_symm {a b : Float} (h : (a == b) = true) : (b == a) = true := by
  rw [Float.beq_iff_ne_nan_and_eq] at h ⊢
  obtain ⟨ha, hb, he | ⟨h₁, h₂⟩ | ⟨h₁, h₂⟩⟩ := h
  · exact ⟨hb, ha, Or.inl he.symm⟩
  · exact ⟨hb, ha, Or.inr (Or.inr ⟨h₂, h₁⟩)⟩
  · exact ⟨hb, ha, Or.inr (Or.inl ⟨h₂, h₁⟩)⟩

theorem float_beq_trans {a b c : Float} (hab : (a == b) = true) (hbc : (b == c) = true) :
    (a == c) = true := by
  rw [Float.beq_iff_ne_nan_and_eq] at hab hbc ⊢
  obtain ⟨ha, -, hab⟩ := hab
  obtain ⟨-, hc, hbc⟩ := hbc
  refine ⟨ha, hc, ?_⟩
  -- numbers that are equal are identical or zeros of different sign
  rcases hab with rfl | ⟨ha, hb⟩ | ⟨ha, hb⟩
  · exact hbc
  · rcases hbc with rfl | ⟨-, hc⟩ | ⟨-, hc⟩
    · exact Or.inr (Or.inl ⟨ha, hb⟩)
    · exact Or.inr (Or.inl ⟨ha, hc⟩)
    · exact Or.inl (ha.trans hc.symm)
  · rcases hbc with rfl | ⟨-, hc⟩ | ⟨-, hc⟩
    · exact Or.inr (Or.inr ⟨ha, hb⟩)
    · exact Or.inl (ha.trans hc.symm)
    · exact Or.inr (Or.inr ⟨ha, hc⟩)

/-- A floating-point number equals itself unless it is `NaN`. -/
theorem float_beq_self (a : Float) : (a == a) = !a.isNaN := by
  rw [Float.isNaN_eq_decide_eq_nan, Bool.eq_iff_iff, Float.beq_self_iff, Bool.not_eq_true',
    decide_eq_false_iff_not]

/-! ## Leaves -/

theorem Scalar.eq_symm {a b : Scalar} (h : a.eq b = true) : b.eq a = true := by
  cases a <;> cases b <;> simp only [Scalar.eq, Bool.false_eq_true] at h ⊢
  case float.float => exact float_beq_symm h
  all_goals exact beq_iff_eq.2 (beq_iff_eq.1 h).symm

theorem Scalar.eq_trans {a b c : Scalar} (hab : a.eq b = true) (hbc : b.eq c = true) :
    a.eq c = true := by
  cases a <;> cases b <;> simp only [Scalar.eq, Bool.false_eq_true] at hab <;>
    cases c <;> simp only [Scalar.eq, Bool.false_eq_true] at hbc ⊢
  case float.float.float => exact float_beq_trans hab hbc
  all_goals exact beq_iff_eq.2 ((beq_iff_eq.1 hab).trans (beq_iff_eq.1 hbc))

/-- A leaf equals itself unless it is `NaN`. -/
theorem Scalar.eq_self (a : Scalar) : a.eq a = !(Document.scalar a).isNaN := by
  cases a with
  | float value => exact float_beq_self value
  | null => rfl
  | bool value => exact beq_self_eq_true value
  | int value => exact beq_self_eq_true value
  | string value => exact beq_self_eq_true value

namespace Document

/-! ## Equality up to a relation of leaves -/

/-- Pairs of leaves that are taken for the same, at any depth. -/
def knownLeaves (same : Scalar → Scalar → Bool) : Known
  | _, scalar a, scalar b => same a b
  | _, _, _ => false

/-- Equality of documents whose leaves are equal or taken for the same. -/
def eqLeaves (same : Scalar → Scalar → Bool) (a b : Document) : Bool :=
  a.eqUpTo (knownLeaves same) 0 b

section

attribute [local simp] eqUpTo eqItems eqMembers eqEntries eqFields

variable {same : Scalar → Scalar → Bool}

theorem eqItems_iff {known : Known} {depth : Nat} (as bs : List Document) :
    eqItems known depth as bs = true ↔
      List.Forall₂ (fun a b => a.eqUpTo known depth b = true) as bs := by
  induction as generalizing bs with
  | nil => cases bs <;> simp
  | cons a as ih => cases bs <;> simp [ih]

theorem eqFields_iff {known : Known} {depth : Nat} (as bs : List (String × Document)) :
    eqFields known depth as bs = true ↔
      List.Forall₂ (fun a b => a.1 = b.1 ∧ a.2.eqUpTo known depth b.2 = true) as bs := by
  induction as generalizing bs with
  | nil => cases bs <;> simp
  | cons a as ih =>
      obtain ⟨n, a⟩ := a
      cases bs with
      | nil => simp
      | cons b bs => simp [ih]

theorem eqEntries_iff {known : Known} {depth : Nat} (as bs : List (String × Document)) :
    eqEntries known depth as bs = true ↔
      ∀ e ∈ as, ∃ b, Entries.get? bs e.1 = some b ∧ e.2.eqUpTo known depth b = true := by
  induction as with
  | nil => simp
  | cons a as ih =>
      obtain ⟨n, a⟩ := a
      rw [eqEntries, Bool.and_eq_true, ih, List.forall_mem_cons]
      apply and_congr_left
      intro _
      cases Entries.get? bs n <;> simp

/-- Whether the same pairs are equal does not depend on the depth. -/
theorem eqUpTo_knownLeaves (depth : Nat) (a b : Document) :
    a.eqUpTo (knownLeaves same) depth b = a.eqLeaves same b := by
  -- the induction needs any two depths, since both grow on the way down
  suffices h : ∀ d₁ d₂ b, a.eqUpTo (knownLeaves same) d₁ b = a.eqUpTo (knownLeaves same) d₂ b from
    h depth 0 b
  induction a using induct with
  | scalar value => intro d₁ d₂ b; cases b <;> rfl
  | mapping as ih =>
      intro d₁ d₂ b
      cases b with
      | mapping bs =>
          simp only [eqUpTo, knownLeaves, Bool.false_or]
          congr 1
          rw [Bool.eq_iff_iff, eqEntries_iff, eqEntries_iff]
          refine forall₂_congr fun e he => exists_congr fun b => ?_
          rw [ih e he (d₁ + 1) (d₂ + 1)]
      | _ => rfl
  | sequence as ih =>
      intro d₁ d₂ b
      cases b with
      | sequence bs =>
          simp only [eqUpTo, knownLeaves, Bool.false_or]
          clear b
          induction as generalizing bs with
          | nil => cases bs <;> rfl
          | cons a as ihs =>
              cases bs with
              | nil => rfl
              | cons b bs =>
                  rw [eqItems, eqItems, ih a List.mem_cons_self (d₁ + 1) (d₂ + 1),
                    ihs fun d hd => ih d (List.mem_cons_of_mem _ hd)]
      | _ => rfl
  | set as ih =>
      intro d₁ d₂ b
      cases b with
      | set bs =>
          simp only [eqUpTo, knownLeaves, Bool.false_or]
          congr 1
          induction as generalizing bs with
          | nil => rfl
          | cons a as ihs =>
              have ha : a.eqUpTo (knownLeaves same) (d₁ + 1) = a.eqUpTo (knownLeaves same) (d₂ + 1) :=
                funext fun b => ih a List.mem_cons_self _ _ b
              rw [eqMembers, eqMembers, ha, ihs fun d hd => ih d (List.mem_cons_of_mem _ hd)]
      | _ => rfl
  | record n as ih =>
      intro d₁ d₂ b
      cases b with
      | record m bs =>
          simp only [eqUpTo, knownLeaves, Bool.false_or]
          congr 1
          induction as generalizing bs with
          | nil => cases bs <;> rfl
          | cons a as ihs =>
              cases bs with
              | nil => rfl
              | cons b bs =>
                  rw [eqFields, eqFields, ih a List.mem_cons_self (d₁ + 1) (d₂ + 1),
                    ihs fun d hd => ih d (List.mem_cons_of_mem _ hd)]
      | _ => rfl

/-! ## One equation for each kind -/

theorem eqLeaves_scalar_iff (a : Scalar) (b : Document) :
    (scalar a).eqLeaves same b = true ↔
      ∃ b', b = scalar b' ∧ (same a b' = true ∨ a.eq b' = true) := by
  cases b <;> simp [eqLeaves, knownLeaves]

theorem eqLeaves_mapping_iff (as : List (String × Document)) (b : Document) :
    (mapping as).eqLeaves same b = true ↔
      ∃ bs, b = mapping bs ∧ as.length = bs.length ∧
        ∀ e ∈ as, ∃ v, Entries.get? bs e.1 = some v ∧ e.2.eqLeaves same v = true := by
  rw [eqLeaves]
  cases b <;> simp [knownLeaves, eqEntries_iff, eqUpTo_knownLeaves]

theorem eqLeaves_sequence_iff (as : List Document) (b : Document) :
    (sequence as).eqLeaves same b = true ↔
      ∃ bs, b = sequence bs ∧ List.Forall₂ (fun a b => a.eqLeaves same b = true) as bs := by
  rw [eqLeaves]
  cases b <;> simp [knownLeaves, eqItems_iff, eqUpTo_knownLeaves]

theorem eqLeaves_record_iff (n : String) (as : List (String × Document)) (b : Document) :
    (record n as).eqLeaves same b = true ↔
      ∃ bs, b = record n bs ∧
        List.Forall₂ (fun a b => a.1 = b.1 ∧ a.2.eqLeaves same b.2 = true) as bs := by
  rw [eqLeaves]
  cases b with
  | record m bs =>
      simp only [eqUpTo, knownLeaves, Bool.false_or, Bool.and_eq_true, beq_iff_eq,
        eqFields_iff, eqUpTo_knownLeaves, record.injEq]
      constructor
      · rintro ⟨rfl, h⟩
        exact ⟨bs, ⟨rfl, rfl⟩, h⟩
      · rintro ⟨cs, ⟨rfl, rfl⟩, h⟩
        exact ⟨rfl, h⟩
  | _ => simp [knownLeaves]

/-! ## Pairing off the members of sets -/

/-- Members equal to one document are equal to the same documents. -/
def Exchanges (same : Scalar → Scalar → Bool) (as bs : List Document) : Prop :=
  ∀ a ∈ as, ∀ a' ∈ as, ∀ b ∈ bs, ∀ b' ∈ bs, a'.eqLeaves same b = true →
    a.eqLeaves same b = true → a.eqLeaves same b' = true → a'.eqLeaves same b' = true

/-- A one-to-one pairing of members with equal ones. -/
abbrev Paired (same : Scalar → Scalar → Bool) (as bs : List Document) : Prop :=
  Multiset.Rel (fun a b => eqLeaves same a b = true) (as : Multiset Document)
    (bs : Multiset Document)

theorem eqMembers_cons (depth : Nat) (a : Document) (as bs : List Document) :
    eqMembers (knownLeaves same) depth (a :: as) bs =
      (bs.any (fun b => a.eqLeaves same b) &&
        eqMembers (knownLeaves same) depth as (bs.eraseP fun b => a.eqLeaves same b)) := by
  have h : a.eqUpTo (knownLeaves same) depth = a.eqLeaves same :=
    funext fun b => eqUpTo_knownLeaves depth a b
  rw [eqMembers, h]

/-- Members that can be paired off one after the other can be paired. -/
theorem paired_of_eqMembers {depth : Nat} {as bs : List Document} (hl : as.length = bs.length)
    (h : eqMembers (knownLeaves same) depth as bs = true) : Paired same as bs := by
  induction as generalizing bs with
  | nil =>
      have hbs : bs = [] := List.length_eq_zero_iff.1 hl.symm
      rw [hbs]
      exact Multiset.Rel.zero
  | cons a as ih =>
      rw [eqMembers_cons, Bool.and_eq_true, List.any_eq_true] at h
      obtain ⟨⟨b, hb, hab⟩, hrest⟩ := h
      -- the first member takes the first one that it equals, and the rest is paired by induction
      obtain ⟨b₀, l₁, l₂, -, hb₀, hbs, herase⟩ := List.exists_of_eraseP hb hab
      rw [herase] at hrest
      have hlen : as.length = (l₁ ++ l₂).length := by
        rw [hbs] at hl
        simp only [List.length_cons, List.length_append] at hl ⊢
        omega
      have hmid : (bs : Multiset Document) = b₀ ::ₘ ((l₁ ++ l₂ : List Document) : Multiset Document) := by
        rw [hbs]
        exact Multiset.coe_eq_coe.2 List.perm_middle
      unfold Paired
      rw [hmid]
      refine Multiset.Rel.cons ?_ (ih hlen hrest)
      exact hb₀

/-- Members that are equal in order are paired off in order. -/
theorem eqMembers_of_forall₂ {depth : Nat} {as bs : List Document}
    (h : List.Forall₂ (fun a b => a.eqLeaves same b = true) as bs) :
    eqMembers (knownLeaves same) depth as bs = true := by
  induction h with
  | nil => rfl
  | cons hab _ ih => rw [eqMembers_cons, List.any_cons, hab, List.eraseP_cons_of_pos hab, ih]; rfl

theorem eqLeaves_set_of_forall₂ {as bs : List Document}
    (h : List.Forall₂ (fun a b => a.eqLeaves same b = true) as bs) :
    (set as).eqLeaves same (set bs) = true := by
  simp [eqLeaves, knownLeaves, h.length_eq, eqMembers_of_forall₂ h]

/-- Members that can be paired can be paired off one after the other: if an earlier member takes the
partner of a later one, the two exchange partners. -/
theorem eqMembers_of_paired {depth : Nat} {as bs : List Document} (hx : Exchanges same as bs)
    (h : Paired same as bs) : eqMembers (knownLeaves same) depth as bs = true := by
  induction as generalizing bs with
  | nil => rfl
  | cons a as ih =>
      unfold Paired at h
      rw [← Multiset.cons_coe, Multiset.rel_cons_left] at h
      obtain ⟨b, bs', hab, hrest, hbs⟩ := h
      have hb : b ∈ bs := by
        rw [← Multiset.mem_coe, hbs]
        exact Multiset.mem_cons_self b bs'
      obtain ⟨b₀, l₁, l₂, -, hb₀, hl, herase⟩ := List.exists_of_eraseP hb hab
      have hmid : (bs : Multiset Document) = b₀ ::ₘ ((l₁ ++ l₂ : List Document) : Multiset Document) := by
        rw [hl]
        exact Multiset.coe_eq_coe.2 List.perm_middle
      have hb₀mem : b₀ ∈ bs := by
        rw [hl]
        simp
      rw [eqMembers_cons, Bool.and_eq_true, List.any_eq_true, herase]
      refine ⟨⟨b, hb, hab⟩, ih ?_ ?_⟩
      · intro c hc c' hc' d hd d' hd'
        have hsub : ∀ x ∈ l₁ ++ l₂, x ∈ bs := by
          intro x hx
          rw [hl]
          rcases List.mem_append.1 hx with hx | hx
          · exact List.mem_append_left _ hx
          · exact List.mem_append_right _ (List.mem_cons_of_mem _ hx)
        exact hx c (List.mem_cons_of_mem _ hc) c' (List.mem_cons_of_mem _ hc') d (hsub d hd) d'
          (hsub d' hd')
      · rw [hmid, Multiset.cons_eq_cons] at hbs
        unfold Paired
        -- the partner of the first member is the one it takes, or the one it takes has another
        -- partner, who gets the partner of the first member instead
        rcases hbs with ⟨-, hbs⟩ | ⟨-, cs, hcs, hcs'⟩
        · rw [hbs]
          exact hrest
        · rw [hcs', Multiset.rel_cons_right] at hrest
          obtain ⟨a', as', hab₀, hrest', has⟩ := hrest
          have ha' : a' ∈ as := by
            rw [← Multiset.mem_coe, has]
            exact Multiset.mem_cons_self a' as'
          have hab' : a'.eqLeaves same b = true :=
            hx a List.mem_cons_self a' (List.mem_cons_of_mem _ ha') b₀ hb₀mem b hb hab₀ hb₀ hab
          rw [has, hcs]
          exact Multiset.Rel.cons hab' hrest'

theorem paired_of_eqLeaves {as : List Document} {b : Document}
    (h : (set as).eqLeaves same b = true) : ∃ bs, b = set bs ∧ Paired same as bs := by
  cases b with
  | set bs =>
      simp only [eqLeaves, eqUpTo, knownLeaves, Bool.false_or, Bool.and_eq_true, beq_iff_eq] at h
      exact ⟨bs, rfl, paired_of_eqMembers h.1 h.2⟩
  | _ => simp [eqLeaves, knownLeaves] at h

/-- **Two sets are equal exactly if some one-to-one pairing of their members exists.** -/
theorem eqLeaves_set_iff {as bs : List Document} (hx : Exchanges same as bs) :
    (set as).eqLeaves same (set bs) = true ↔ Paired same as bs := by
  constructor
  · intro h
    obtain ⟨cs, hcs, h⟩ := paired_of_eqLeaves h
    cases hcs
    exact h
  · intro h
    have hl : as.length = bs.length := by simpa using Multiset.card_eq_card_of_rel h
    simp [eqLeaves, knownLeaves, hl, eqMembers_of_paired hx h]

/-! ## The equivalence -/

/-- Each entry of the longer of two finite maps of one size has its counterpart in the other. -/
theorem exists_get?_of_length_eq {as bs : List (String × Document)}
    (ha : (Entries.names as).Nodup) (hl : as.length = bs.length)
    (h : ∀ e ∈ as, ∃ v, Entries.get? bs e.1 = some v) {e : String × Document} (he : e ∈ bs) :
    ∃ v, (e.1, v) ∈ as := by
  have hsub : Entries.names as ⊆ Entries.names bs := by
    intro n hn
    obtain ⟨a, ha, rfl⟩ := List.mem_map.1 hn
    obtain ⟨v, hv⟩ := h a ha
    exact List.mem_map.2 ⟨_, Entries.mem_of_get? hv, rfl⟩
  -- names of the one are names of the other, and there are as many of them
  have hperm : (Entries.names as).Perm (Entries.names bs) := by
    refine (ha.subperm hsub).perm_of_length_le ?_
    simp [Entries.names, hl]
  have hmem : e.1 ∈ Entries.names as := hperm.mem_iff.2 (List.mem_map_of_mem he)
  obtain ⟨a, ha, hn⟩ := List.mem_map.1 hmem
  exact ⟨a.2, by rw [← hn]; exact ha⟩

/-- The relation of leaves is symmetric together with equality. -/
def LeavesSymm (same : Scalar → Scalar → Bool) : Prop :=
  ∀ a b : Scalar, same a b = true → same b a = true

/-- The relation of leaves is transitive together with equality. -/
def LeavesTrans (same : Scalar → Scalar → Bool) : Prop :=
  ∀ a b c : Scalar, (same a b = true ∨ a.eq b = true) → (same b c = true ∨ b.eq c = true) →
    (same a c = true ∨ a.eq c = true)

/-- Comparing with a document gives the same in either order, and what the document equals it also
equals through a third one. -/
structure Passes (same : Scalar → Scalar → Bool) (a : Document) : Prop where
  comm : ∀ b, b.namesDistinct = true → a.eqLeaves same b = b.eqLeaves same a
  trans : ∀ b c, b.namesDistinct = true → c.namesDistinct = true → a.eqLeaves same b = true →
    b.eqLeaves same c = true → a.eqLeaves same c = true

/-- Related items stand in the two lists. -/
theorem forall₂_imp_mem {α β : Type} {R S : α → β → Prop} {as : List α} {bs : List β}
    (h : List.Forall₂ R as bs) (hs : ∀ a ∈ as, ∀ b ∈ bs, R a b → S a b) :
    List.Forall₂ S as bs := by
  induction h with
  | nil => exact List.Forall₂.nil
  | cons hab _ ih =>
      refine List.Forall₂.cons (hs _ List.mem_cons_self _ List.mem_cons_self hab) (ih ?_)
      intro a ha b hb
      exact hs a (List.mem_cons_of_mem _ ha) b (List.mem_cons_of_mem _ hb)

/-- Items related in order are related backwards, if each of them is. -/
theorem forall₂_symm {α : Type} {R S : α → α → Prop} {as bs : List α} (h : List.Forall₂ R as bs)
    (hs : ∀ a ∈ as, ∀ b ∈ bs, R a b → S b a) : List.Forall₂ S bs as :=
  (forall₂_imp_mem h hs).flip

/-- Items related in order to items related in order are related, if each of them is. -/
theorem forall₂_trans {α : Type} {R S T : α → α → Prop} {as bs cs : List α}
    (hab : List.Forall₂ R as bs) (hbc : List.Forall₂ S bs cs)
    (ht : ∀ a ∈ as, ∀ b ∈ bs, ∀ c ∈ cs, R a b → S b c → T a c) : List.Forall₂ T as cs := by
  induction hab generalizing cs with
  | nil =>
      cases hbc
      exact List.Forall₂.nil
  | cons hab _ ih =>
      rcases hbc with _ | ⟨hbc, hrest⟩
      refine List.Forall₂.cons (ht _ List.mem_cons_self _ List.mem_cons_self _ List.mem_cons_self
        hab hbc) (ih hrest ?_)
      intro a ha b hb c hc
      exact ht a (List.mem_cons_of_mem _ ha) b (List.mem_cons_of_mem _ hb) c
        (List.mem_cons_of_mem _ hc)

/-- Entries with the same names in order and related values. -/
theorem forall₂_entries_iff {R : Document → Document → Prop} {as bs : List (String × Document)} :
    List.Forall₂ (fun a b => a.1 = b.1 ∧ R a.2 b.2) as bs ↔
      as.map Prod.fst = bs.map Prod.fst ∧
        List.Forall₂ R (as.map Prod.snd) (bs.map Prod.snd) := by
  induction as generalizing bs with
  | nil => cases bs <;> simp
  | cons a as ih =>
      cases bs with
      | nil => simp
      | cons b bs =>
          simp only [List.forall₂_cons, ih, List.map_cons, List.cons.injEq]
          tauto

theorem Exchanges.of_passes {as bs : List Document} (hp : ∀ a ∈ as, Passes same a)
    (ha : ∀ a ∈ as, a.namesDistinct = true) (hb : ∀ b ∈ bs, b.namesDistinct = true) :
    Exchanges same as bs := by
  intro a ham a' ham' b hbm b' hbm' h₁ h₂ h₃
  -- the two members equal each other by way of the one that both equal
  have hba : b.eqLeaves same a = true := (hp a ham).comm b (hb b hbm) ▸ h₂
  have haa : a'.eqLeaves same a = true :=
    (hp a' ham').trans b a (hb b hbm) (ha a ham) h₁ hba
  exact (hp a' ham').trans a b' (ha a ham) (hb b' hbm') haa h₃

theorem Exchanges.swap {as bs : List Document}
    (hc : ∀ a ∈ as, ∀ b ∈ bs, a.eqLeaves same b = b.eqLeaves same a)
    (h : Exchanges same as bs) : Exchanges same bs as := by
  intro b hb b' hb' a ha a' ha' h₁ h₂ h₃
  rw [← hc a ha b' hb'] at h₁
  rw [← hc a ha b hb] at h₂
  rw [← hc a' ha' b hb] at h₃
  rw [← hc a' ha' b' hb']
  exact h a ha a' ha' b hb b' hb' h₃ h₂ h₁

theorem Paired.swap {as bs : List Document}
    (hc : ∀ a ∈ as, ∀ b ∈ bs, a.eqLeaves same b = b.eqLeaves same a)
    (h : Paired same as bs) : Paired same bs as := by
  refine Multiset.rel_flip.1 (h.mono fun a ha b hb hab => ?_)
  exact (hc a (Multiset.mem_coe.1 ha) b (Multiset.mem_coe.1 hb)).symm.trans hab

theorem Paired.trans {as bs cs : List Document} (hp : ∀ a ∈ as, Passes same a)
    (hb : ∀ b ∈ bs, b.namesDistinct = true) (hc : ∀ c ∈ cs, c.namesDistinct = true)
    (hab : Paired same as bs) (hbc : Paired same bs cs) : Paired same as cs := by
  -- the pairing is one of multisets, so the induction is on the first of them and not on the lists
  have key : ∀ {s t : Multiset Document},
      Multiset.Rel (fun a b => eqLeaves same a b = true) s t → ∀ u : Multiset Document,
      (∀ a ∈ s, Passes same a) → (∀ b ∈ t, b.namesDistinct = true) →
      (∀ c ∈ u, c.namesDistinct = true) →
      Multiset.Rel (fun a b => eqLeaves same a b = true) t u →
      Multiset.Rel (fun a b => eqLeaves same a b = true) s u := by
    intro s t h
    induction h with
    | zero =>
        intro u _ _ _ hu
        exact hu
    | @cons a b s t hab _ ih =>
        intro u hs ht hu hrel
        obtain ⟨c, u', hbc, hrest, rfl⟩ := Multiset.rel_cons_left.1 hrel
        have hac : a.eqLeaves same c = true :=
          (hs a (Multiset.mem_cons_self a s)).trans b c (ht b (Multiset.mem_cons_self b t))
            (hu c (Multiset.mem_cons_self c u')) hab hbc
        refine Multiset.Rel.cons hac (ih u' ?_ ?_ ?_ hrest)
        · intro x hx
          exact hs x (Multiset.mem_cons_of_mem hx)
        · intro x hx
          exact ht x (Multiset.mem_cons_of_mem hx)
        · intro x hx
          exact hu x (Multiset.mem_cons_of_mem hx)
  exact key hab (cs : Multiset Document) hp hb hc hbc

/-- Two finite maps compare in either order if their values do. -/
theorem eqLeaves_mapping_swap {as bs : List (String × Document)}
    (ha : (Entries.names as).Nodup) (hb : (Entries.names bs).Nodup)
    (hc : ∀ a ∈ as, ∀ b ∈ bs, a.2.eqLeaves same b.2 = b.2.eqLeaves same a.2)
    (h : (mapping as).eqLeaves same (mapping bs) = true) :
    (mapping bs).eqLeaves same (mapping as) = true := by
  obtain ⟨cs, hcs, hl, h⟩ := (eqLeaves_mapping_iff _ _).1 h
  cases hcs
  refine (eqLeaves_mapping_iff _ _).2 ⟨as, rfl, hl.symm, fun e he => ?_⟩
  -- an entry of the second map has its name in the first one, and there its counterpart
  obtain ⟨v, hv⟩ := exists_get?_of_length_eq ha hl
    (fun e he => (h e he).imp fun _ hw => hw.1) he
  obtain ⟨w, hw, hvw⟩ := h _ hv
  have hwe : some w = some e.2 := hw.symm.trans (Entries.get?_of_mem hb he)
  cases hwe
  exact ⟨v, Entries.get?_of_mem ha hv, (hc _ hv e he).symm.trans hvw⟩

theorem passes_scalar (hs : LeavesSymm same) (ht : LeavesTrans same) (value : Scalar) :
    Passes same (scalar value) := by
  have hsymm : ∀ a b : Scalar, (scalar a).eqLeaves same (scalar b) = true →
      (scalar b).eqLeaves same (scalar a) = true := by
    intro a b h
    obtain ⟨b', hb, h⟩ := (eqLeaves_scalar_iff _ _).1 h
    cases hb
    exact (eqLeaves_scalar_iff _ _).2 ⟨_, rfl, h.imp (hs _ _) Scalar.eq_symm⟩
  constructor
  · intro b _
    cases b with
    | scalar b =>
        rw [Bool.eq_iff_iff]
        exact ⟨hsymm value b, hsymm b value⟩
    | _ => rfl
  · intro b c _ _ hab hbc
    obtain ⟨b', rfl, pab⟩ := (eqLeaves_scalar_iff _ _).1 hab
    obtain ⟨c', rfl, pbc⟩ := (eqLeaves_scalar_iff _ _).1 hbc
    exact (eqLeaves_scalar_iff _ _).2 ⟨_, rfl, ht _ _ _ pab pbc⟩

theorem passes_mapping {as : List (String × Document)} (ha : (mapping as).namesDistinct = true)
    (hp : ∀ a ∈ as, Passes same a.2) : Passes same (mapping as) := by
  simp only [everywhere_mapping, hasDistinctNames, decide_eq_true_eq] at ha
  constructor
  · -- symmetry: documents of different kinds are unequal either way
    intro b hb
    cases b with
    | mapping bs =>
        simp only [everywhere_mapping, hasDistinctNames, decide_eq_true_eq] at hb
        have hc : ∀ a ∈ as, ∀ b ∈ bs, a.2.eqLeaves same b.2 = b.2.eqLeaves same a.2 :=
          fun a ha b hbm => (hp a ha).comm b.2 (hb.2 b hbm)
        rw [Bool.eq_iff_iff]
        constructor
        · exact eqLeaves_mapping_swap ha.1 hb.1 hc
        · exact eqLeaves_mapping_swap hb.1 ha.1 fun b hbm a ha => (hc a ha b hbm).symm
    | _ => rfl
  · -- transitivity, entry by entry
    intro b c hb hc hab hbc
    obtain ⟨bs, rfl, hlb, hab⟩ := (eqLeaves_mapping_iff _ _).1 hab
    obtain ⟨cs, rfl, hlc, hbc⟩ := (eqLeaves_mapping_iff _ _).1 hbc
    simp only [everywhere_mapping] at hb hc
    refine (eqLeaves_mapping_iff _ _).2 ⟨cs, rfl, hlb.trans hlc, fun e he => ?_⟩
    obtain ⟨v, hv, hev⟩ := hab e he
    have hvb := Entries.mem_of_get? hv
    obtain ⟨w, hw, hvw⟩ := hbc _ hvb
    have hwc := Entries.mem_of_get? hw
    exact ⟨w, hw, (hp e he).trans v w (hb.2 _ hvb) (hc.2 _ hwc) hev hvw⟩

theorem passes_sequence {as : List Document} (hp : ∀ a ∈ as, Passes same a) :
    Passes same (sequence as) := by
  constructor
  · -- symmetry
    intro b hb
    cases b with
    | sequence bs =>
        simp only [everywhere_sequence] at hb
        have hc : ∀ a ∈ as, ∀ b ∈ bs, a.eqLeaves same b = b.eqLeaves same a :=
          fun a ha b hbm => (hp a ha).comm b (hb.2 b hbm)
        rw [Bool.eq_iff_iff]
        simp only [eqLeaves_sequence_iff, sequence.injEq, exists_eq_left']
        constructor
        · intro h
          exact forall₂_symm h fun a ha b hb hab => (hc a ha b hb).symm.trans hab
        · intro h
          exact forall₂_symm h fun b hb a ha hba => (hc a ha b hb).trans hba
    | _ => rfl
  · -- transitivity, item by item
    intro b c hb hc hab hbc
    obtain ⟨bs, rfl, pab⟩ := (eqLeaves_sequence_iff _ _).1 hab
    obtain ⟨cs, rfl, pbc⟩ := (eqLeaves_sequence_iff _ _).1 hbc
    simp only [everywhere_sequence] at hb hc
    refine (eqLeaves_sequence_iff _ _).2
      ⟨cs, rfl, forall₂_trans pab pbc fun x hx y hy z hz hxy hyz => ?_⟩
    exact (hp x hx).trans y z (hb.2 y hy) (hc.2 z hz) hxy hyz

theorem passes_set {as : List Document} (ha : ∀ a ∈ as, a.namesDistinct = true)
    (hp : ∀ a ∈ as, Passes same a) : Passes same (set as) := by
  constructor
  · intro b hb
    cases b with
    | set bs =>
        simp only [everywhere_set] at hb
        have hc : ∀ a ∈ as, ∀ b ∈ bs, a.eqLeaves same b = b.eqLeaves same a :=
          fun a ham b hbm => (hp a ham).comm b (hb.2 b hbm)
        have hx : Exchanges same as bs := Exchanges.of_passes hp ha hb.2
        rw [Bool.eq_iff_iff, eqLeaves_set_iff hx, eqLeaves_set_iff (hx.swap hc)]
        exact ⟨Paired.swap hc, Paired.swap fun b hb a ha => (hc a ha b hb).symm⟩
    | _ => rfl
  · intro b c hb hc hab hbc
    obtain ⟨bs, rfl, pab⟩ := paired_of_eqLeaves hab
    obtain ⟨cs, rfl, pbc⟩ := paired_of_eqLeaves hbc
    simp only [everywhere_set] at hb hc
    exact (eqLeaves_set_iff (Exchanges.of_passes hp ha hc.2)).2 (Paired.trans hp hb.2 hc.2 pab pbc)

theorem passes_record {n : String} {as : List (String × Document)}
    (hp : ∀ a ∈ as, Passes same a.2) : Passes same (record n as) := by
  constructor
  · -- symmetry
    intro b hb
    cases b with
    | record m bs =>
        simp only [everywhere_record] at hb
        have hc : ∀ a ∈ as, ∀ b ∈ bs, a.2.eqLeaves same b.2 = b.2.eqLeaves same a.2 :=
          fun a ha b hbm => (hp a ha).comm b.2 (hb.2 b hbm)
        rw [Bool.eq_iff_iff]
        simp only [eqLeaves_record_iff, record.injEq]
        constructor
        · rintro ⟨cs, ⟨rfl, rfl⟩, h⟩
          refine ⟨as, ⟨rfl, rfl⟩, forall₂_symm h fun a ha b hb hab => ?_⟩
          exact ⟨hab.1.symm, (hc a ha b hb).symm.trans hab.2⟩
        · rintro ⟨cs, ⟨rfl, rfl⟩, h⟩
          refine ⟨bs, ⟨rfl, rfl⟩, forall₂_symm h fun b hb a ha hba => ?_⟩
          exact ⟨hba.1.symm, (hc a ha b hb).trans hba.2⟩
    | _ => rfl
  · -- transitivity, field by field
    intro b c hb hc hab hbc
    obtain ⟨bs, rfl, pab⟩ := (eqLeaves_record_iff _ _ _).1 hab
    obtain ⟨cs, rfl, pbc⟩ := (eqLeaves_record_iff _ _ _).1 hbc
    simp only [everywhere_record] at hb hc
    refine (eqLeaves_record_iff _ _ _).2
      ⟨cs, rfl, forall₂_trans pab pbc fun x hx y hy z hz hxy hyz => ?_⟩
    exact ⟨hxy.1.trans hyz.1, (hp x hx).trans y.2 z.2 (hb.2 y hy) (hc.2 z hz) hxy.2 hyz.2⟩

/-- **Symmetry and transitivity pass from the leaves to the documents.** -/
theorem passes (hs : LeavesSymm same) (ht : LeavesTrans same) (a : Document)
    (ha : a.namesDistinct = true) : Passes same a := by
  induction a using induct with
  | scalar value => exact passes_scalar hs ht value
  | mapping as ih =>
      exact passes_mapping ha fun a h => ih a h (((everywhere_mapping _).1 ha).2 a h)
  | sequence as ih =>
      exact passes_sequence fun a h => ih a h (((everywhere_sequence _).1 ha).2 a h)
  | set as ih =>
      have hm := ((everywhere_set _).1 ha).2
      exact passes_set hm fun a h => ih a h (hm a h)
  | record n as ih =>
      exact passes_record fun a h => ih a h (((everywhere_record _ _).1 ha).2 a h)

end

/-! ## Equality as values -/

theorem beq_eq_eqLeaves (a b : Document) : (a == b) = a.eqLeaves (fun _ _ => false) b := by
  have h : knownLeaves (fun _ _ => false) = fun _ _ _ => false := by
    funext d a b
    cases a <;> cases b <;> rfl
  rw [eqLeaves, h]
  rfl

theorem passes_values (a : Document) (ha : a.namesDistinct = true) :
    Passes (fun _ _ => false) a := by
  refine passes (fun _ _ h => by cases h) (fun x y z hxy hyz => ?_) a ha
  simp only [Bool.false_eq_true, false_or] at hxy hyz ⊢
  exact Scalar.eq_trans hxy hyz

/-- **Equality of documents is symmetric.** -/
theorem beq_comm {a b : Document} (ha : a.namesDistinct = true) (hb : b.namesDistinct = true) :
    (a == b) = (b == a) := by
  rw [beq_eq_eqLeaves, beq_eq_eqLeaves]
  exact (passes_values a ha).comm b hb

/-- **Equality of documents is transitive.** -/
theorem beq_trans {a b c : Document} (ha : a.namesDistinct = true) (hb : b.namesDistinct = true)
    (hc : c.namesDistinct = true) (hab : (a == b) = true) (hbc : (b == c) = true) :
    (a == c) = true := by
  rw [beq_eq_eqLeaves] at hab hbc ⊢
  exact (passes_values a ha).trans b c hb hc hab hbc

end Document

end PathDoc

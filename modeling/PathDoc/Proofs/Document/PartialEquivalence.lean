import PathDoc.Proofs.Document.Reordering

/-!
# Equality of documents is a partial equivalence

What equals something equals itself, so a document that equals anything holds no `NaN`
(`nanFree_of_beq`), and the documents that equal themselves are those without `NaN` (`beq_self_eq`).
Two sets are equal exactly if some one-to-one pairing of their members pairs equal ones
(`set_beq_iff`). The order of the entries of mappings makes no difference, at any depth and with
`NaN` or without (`Reordered.beq_congr`). `beq_laws` puts this together with symmetry and
transitivity. All of it asks for distinct names; `WellNamed` carries them with the document.
-/

set_option autoImplicit false

namespace PathDoc

/-- A leaf that equals something is not `NaN`. -/
theorem Scalar.isNaN_of_eq {a b : Scalar} (h : a.eq b = true) :
    (Document.scalar a).isNaN = false := by
  have hself : a.eq a = true := Scalar.eq_trans h (Scalar.eq_symm h)
  rwa [Scalar.eq_self, Bool.not_eq_true'] at hself

namespace Document

/-! ## Documents that equal themselves -/

/-- **A document that equals something holds no `NaN`.** -/
theorem nanFree_of_beq {a b : Document} (h : (a == b) = true) : a.nanFree = true := by
  rw [beq_eq_eqLeaves] at h
  -- every part of the document equals some part of the other one
  induction a using induct generalizing b with
  | scalar value =>
      obtain ⟨other, -, h⟩ := (eqLeaves_scalar_iff _ _).1 h
      have hvalue : value.eq other = true := h.resolve_left Bool.false_ne_true
      rw [nanFree, everywhere, Scalar.isNaN_of_eq hvalue]
      rfl
  | mapping as ih =>
      obtain ⟨bs, -, -, h⟩ := (eqLeaves_mapping_iff _ _).1 h
      refine (everywhere_mapping _).2 ⟨rfl, ?_⟩
      intro e he
      obtain ⟨v, -, hv⟩ := h e he
      exact ih e he hv
  | sequence as ih =>
      obtain ⟨bs, -, h⟩ := (eqLeaves_sequence_iff _ _).1 h
      refine (everywhere_sequence _).2 ⟨rfl, ?_⟩
      intro item hm
      obtain ⟨b, -, hb⟩ := Reordered.exists_of_mem_left h hm
      exact ih item hm hb
  | set as ih =>
      obtain ⟨bs, -, h⟩ := paired_of_eqLeaves h
      refine (everywhere_set _).2 ⟨rfl, ?_⟩
      intro member hm
      obtain ⟨b, -, hb⟩ := Multiset.exists_mem_of_rel_of_mem h (Multiset.mem_coe.2 hm)
      exact ih member hm hb
  | record name as ih =>
      obtain ⟨bs, -, h⟩ := (eqLeaves_record_iff _ _ _).1 h
      refine (everywhere_record _ _).2 ⟨rfl, ?_⟩
      intro e he
      obtain ⟨b, -, -, hb⟩ := Reordered.exists_of_mem_left h he
      exact ih e he hb

/-- **The documents that equal themselves are those without `NaN`.** -/
theorem beq_self_eq {a : Document} (ha : a.namesDistinct = true) : (a == a) = a.nanFree := by
  rw [Bool.eq_iff_iff]
  exact ⟨nanFree_of_beq, beq_self ha⟩

/-! ## Sets -/

/-- Lists of related multisets are related in order, once the second one is put in order. -/
theorem rel_coe_iff {α β : Type} {R : α → β → Prop} {as : List α} {bs : List β} :
    Multiset.Rel R (as : Multiset α) (bs : Multiset β) ↔
      ∃ order : List β, order.Perm bs ∧ List.Forall₂ R as order := by
  induction as generalizing bs with
  | nil =>
      rw [Multiset.coe_nil, Multiset.rel_zero_left, Multiset.coe_eq_zero]
      constructor
      · rintro rfl
        exact ⟨[], List.Perm.refl _, List.Forall₂.nil⟩
      · rintro ⟨order, hp, h⟩
        cases h
        exact hp.symm.eq_nil
  | cons a as ih =>
      rw [← Multiset.cons_coe, Multiset.rel_cons_left]
      -- the partner of the first item is put first
      constructor
      · rintro ⟨b, rest, hab, hrest, hbs⟩
        induction rest using Quotient.inductionOn with
        | _ rest =>
          obtain ⟨order, hp, h⟩ := ih.1 hrest
          have hbs : bs.Perm (b :: rest) := Multiset.coe_eq_coe.1 hbs
          exact ⟨b :: order, (hp.cons b).trans hbs.symm, List.Forall₂.cons hab h⟩
      · rintro ⟨order, hp, h⟩
        obtain ⟨b, rest, hab, hrest, rfl⟩ := List.forall₂_cons_left_iff.1 h
        exact ⟨b, rest, hab, ih.2 ⟨rest, List.Perm.refl _, hrest⟩, Multiset.coe_eq_coe.2 hp.symm⟩

/-- **Two sets are equal if and only if their members can be paired with equal ones.** -/
theorem set_beq_iff {as bs : List Document} (ha : (set as).namesDistinct = true)
    (hb : (set bs).namesDistinct = true) :
    (set as == set bs) = true ↔
      ∃ order : List Document, order.Perm bs ∧
        List.Forall₂ (fun a b => (a == b) = true) as order := by
  have has := ((everywhere_set _).1 ha).2
  have hbs := ((everywhere_set _).1 hb).2
  -- members that equal one document equal the same ones, so the greedy choice does not matter
  have hx : Exchanges (fun _ _ => false) as bs :=
    Exchanges.of_passes (fun a hm => passes_values a (has a hm)) has hbs
  simp only [beq_eq_eqLeaves]
  rw [eqLeaves_set_iff hx]
  exact rel_coe_iff

/-! ## Mappings -/

/-- A reordering has a reordering of each part. -/
theorem Reordered.exists_part {a b part : Document} (h : Reordered a b) (hp : part ∈ a.parts) :
    ∃ other ∈ b.parts, Reordered part other := by
  cases h with
  | scalar value => exact absurd hp List.not_mem_nil
  | @mapping as bs cs names values order =>
      rw [parts_mapping] at hp ⊢
      obtain ⟨other, hm, hr⟩ := exists_of_mem_left values hp
      exact ⟨other, (order.map Prod.snd).mem_iff.1 hm, hr⟩
  | sequence items =>
      rw [parts_sequence] at hp ⊢
      exact exists_of_mem_left items hp
  | set members =>
      rw [parts_set] at hp ⊢
      exact exists_of_mem_left members hp
  | record names values =>
      rw [parts_record] at hp ⊢
      exact exists_of_mem_left values hp

/-- What has a reordering without `NaN` holds no `NaN`. -/
theorem Reordered.nanFree {a b : Document} (h : Reordered a b) (hb : b.nanFree = true) :
    a.nanFree = true := by
  induction a using induct_parts generalizing b with
  | step a ih =>
    obtain ⟨hself, hparts⟩ := everywhere_iff.1 hb
    refine everywhere_iff.2 ⟨?_, ?_⟩
    · cases h with
      | scalar value => exact hself
      | _ => rfl
    · intro part hp
      obtain ⟨other, hm, hr⟩ := h.exists_part hp
      exact ih part hp hr (hparts other hm)

/-- A document and its reordering equal the same documents. -/
theorem Reordered.beq_congr_left {a a' b : Document} (h : Reordered a a')
    (ha : a.namesDistinct = true) (hb : b.namesDistinct = true) : (a == b) = (a' == b) := by
  have ha' := h.namesDistinct ha
  rw [Bool.eq_iff_iff]
  -- what equals something has no `NaN`, and without `NaN` a document equals its reordering
  constructor
  · intro hab
    have haa' : (a' == a) = true := by
      rw [← beq_comm ha ha']
      exact h.beq ha (nanFree_of_beq hab)
    exact beq_trans ha' ha hb haa' hab
  · intro hab
    have haa' : (a == a') = true := h.beq ha (h.nanFree (nanFree_of_beq hab))
    exact beq_trans ha ha' hb haa' hab

/-- **The order of mapping entries makes no difference to equality.** -/
theorem Reordered.beq_congr {a a' b b' : Document} (h : Reordered a a') (h' : Reordered b b')
    (ha : a.namesDistinct = true) (hb : b.namesDistinct = true) : (a == b) = (a' == b') := by
  have ha' := h.namesDistinct ha
  calc (a == b) = (a' == b) := h.beq_congr_left ha hb
    _ = (b == a') := beq_comm ha' hb
    _ = (b' == a') := h'.beq_congr_left hb ha'
    _ = (a' == b') := beq_comm (h'.namesDistinct hb) ha'

/-! ## The laws -/

/-- **Equality of documents is a partial equivalence.** It is symmetric and transitive, and the
documents that equal themselves are those without `NaN`. Two sets, whose members are paired off
greedily, are equal exactly if some one-to-one pairing of their members pairs equal ones. Putting
the entries of mappings in another order, at any depth and on both sides, does not change the
answer. -/
theorem beq_laws :
    (∀ a b : Document, a.namesDistinct = true → b.namesDistinct = true → (a == b) = (b == a)) ∧
    (∀ a b c : Document, a.namesDistinct = true → b.namesDistinct = true →
      c.namesDistinct = true → (a == b) = true → (b == c) = true → (a == c) = true) ∧
    (∀ a : Document, a.namesDistinct = true → (a == a) = a.nanFree) ∧
    (∀ as bs : List Document, (set as).namesDistinct = true → (set bs).namesDistinct = true →
      ((set as == set bs) = true ↔ ∃ order : List Document, order.Perm bs ∧
        List.Forall₂ (fun a b => (a == b) = true) as order)) ∧
    ∀ a a' b b' : Document, a.namesDistinct = true → b.namesDistinct = true →
      Reordered a a' → Reordered b b' → (a == b) = (a' == b') := by
  refine ⟨fun a b => beq_comm, fun a b c => beq_trans, fun a => beq_self_eq,
    fun as bs => set_beq_iff, ?_⟩
  intro a a' b b' ha hb h h'
  exact h.beq_congr h' ha hb

/-- Two sets with their members and the entries of one member in another order; with `NaN` among
their members neither equals itself. -/
theorem beq_laws_reversed :
    let inner : Document := .mapping [("x", .int 1), ("y", .set [])]
    let other : Document := .mapping [("y", .set []), ("x", .int 1)]
    let a : Document := .set [.int 3, inner]
    let b : Document := .set [other, .int 3]
    let c : Document := .set [.scalar (.float Float.nan), inner]
    a.namesDistinct = true ∧ b.namesDistinct = true ∧ c.namesDistinct = true ∧
      (a == b) = true ∧ (b == a) = true ∧ (a == a) = true ∧ (c == c) = false := by
  intro inner other a b c
  have ha : a.namesDistinct = true := by decide
  have hb : b.namesDistinct = true := by decide
  have hc : c.namesDistinct = true := by decide
  have hinner : inner.namesDistinct = true := by decide
  have hswap : Reordered inner other :=
    .mapping rfl (List.forall₂_same.2 fun d _ => .refl d) (.swap _ _ _)
  obtain ⟨hcomm, htrans, hself, hsets, horder⟩ := beq_laws
  have hthree : (Document.int 3 == Document.int 3) = true := by
    rw [hself (.int 3) (by decide)]
    decide
  have hentries : (inner == other) = true := by
    rw [← horder inner inner inner other hinner hinner (.refl inner) hswap, hself inner hinner]
    decide
  -- the members are paired across the two orders
  have hab : (a == b) = true := by
    rw [hsets _ _ ha hb]
    exact ⟨[.int 3, other], .swap _ _ _, .cons hthree (.cons hentries .nil)⟩
  have hba : (b == a) = true := by
    rw [hcomm b a hb ha]
    exact hab
  refine ⟨ha, hb, hc, hab, hba, htrans a b a ha hb ha hab hba, ?_⟩
  rw [hself c hc]
  decide

end Document

/-! ## Documents with their condition -/

/-- A document with the proof that its mappings are finite maps. -/
structure WellNamed where
  /-- The document. -/
  document : Document
  /-- No mapping in it holds a name twice. -/
  names : document.namesDistinct = true

namespace WellNamed

/-- Two documents are equal whatever the proofs. -/
instance : BEq WellNamed := ⟨fun a b => a.document == b.document⟩

/-- **Equality is a partial equivalence** of the documents that carry their condition. -/
instance : PartialEquivBEq WellNamed where
  symm {a b} h := (Document.beq_comm b.names a.names).trans h
  trans {a b c} := Document.beq_trans a.names b.names c.names

end WellNamed

end PathDoc

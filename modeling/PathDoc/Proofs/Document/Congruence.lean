import Mathlib.Data.List.Nodup
import PathDoc.Proofs.Document.Addresses
import PathDoc.Proofs.Document.Equivalence

/-!
# Comparing documents child by child

Two containers with one outline have children under the same tokens. They are identical if the
children are (`ext_children`), and apart from sets they are equal exactly if the children are
(`eqLeaves_iff_children`). `Congruence` names what the two relations have in common.
-/

set_option autoImplicit false

namespace PathDoc.Document

/-- Whether children under the same token are related. -/
def ChildrenRelated (R : Document → Document → Prop) (a b : Document) : Prop :=
  ∀ token x y, a.child? token = some x → b.child? token = some y → R x y

variable {R : Document → Document → Prop}

/-- Items are related in order if those at the same position are. -/
theorem forall₂_of_positions {as bs : List Document} (hl : as.length = bs.length)
    (h : ∀ token : Token, ∀ x y, token.position?.bind (as[·]?) = some x →
      token.position?.bind (bs[·]?) = some y → R x y) : List.Forall₂ R as bs := by
  rw [List.forall₂_iff_get]
  refine ⟨hl, fun i ha hb => h (.index i) _ _ ?_ ?_⟩
  · simp [Token.position?, ha]
  · simp [Token.position?, hb]

/-- Items that are related in order are related at the same position. -/
theorem positions_of_forall₂ {as bs : List Document} (h : List.Forall₂ R as bs) (token : Token)
    (x y : Document) (hx : token.position?.bind (as[·]?) = some x)
    (hy : token.position?.bind (bs[·]?) = some y) : R x y := by
  obtain ⟨i, hi, hx⟩ := Option.bind_eq_some_iff.1 hx
  obtain ⟨j, hj, hy⟩ := Option.bind_eq_some_iff.1 hy
  cases hi.symm.trans hj
  obtain ⟨ha, rfl⟩ := List.getElem?_eq_some_iff.1 hx
  obtain ⟨hb, rfl⟩ := List.getElem?_eq_some_iff.1 hy
  exact (List.forall₂_iff_get.1 h).2 i ha hb

/-- The entries of mappings with the same distinct names are related if the values are. -/
theorem forall₂_values_of_related {as bs : List (String × Document)}
    (hn : Entries.names as = Entries.names bs) (hd : (Entries.names as).Nodup)
    (h : ChildrenRelated R (mapping as) (mapping bs)) :
    List.Forall₂ R (as.map Prod.snd) (bs.map Prod.snd) := by
  rw [List.forall₂_map_left_iff, List.forall₂_map_right_iff, List.forall₂_iff_get]
  have hl : as.length = bs.length := by simpa [Entries.names] using congrArg List.length hn
  refine ⟨hl, fun i ha hb => ?_⟩
  -- entries at the same position have the same name, so they are children under the same token
  have hname : (as.get ⟨i, ha⟩).1 = (bs.get ⟨i, hb⟩).1 := by
    have hi := congrArg (fun names => names[i]?) hn
    simpa [Entries.names, ha, hb] using hi
  refine h (.key (as.get ⟨i, ha⟩).1) _ _ ?_ ?_
  · rw [child?_mapping_key]
    exact Entries.get?_of_mem hd (List.get_mem as ⟨i, ha⟩)
  · rw [child?_mapping_key, hname]
    exact Entries.get?_of_mem (hn ▸ hd) (List.get_mem bs ⟨i, hb⟩)

/-- The tokens of a mapping are distinct if its names are. -/
theorem names_nodup_of_tokens {entries : List (String × Document)}
    (h : (mapping entries).tokens.Nodup) : (Entries.names entries).Nodup := by
  rw [tokens_mapping] at h
  exact List.Nodup.of_map _ h

theorem eq_of_forall₂ {α : Type} {as bs : List α} (h : List.Forall₂ (· = ·) as bs) : as = bs := by
  rwa [List.forall₂_eq_eq_eq] at h

/-- Named values are identical if the names and the values are. -/
theorem fields_ext {as bs : List (String × Document)} (hn : as.map Prod.fst = bs.map Prod.fst)
    (hv : List.Forall₂ (· = ·) (as.map Prod.snd) (bs.map Prod.snd)) : as = bs := by
  have hfields := forall₂_entries_iff.2 ⟨hn, hv⟩
  exact eq_of_forall₂ (hfields.imp fun a b h => Prod.ext h.1 h.2)

/-- **Containers with one outline and identical children are identical.** -/
theorem ext_children {a b : Document} (ho : a.outline = b.outline) (hn : a.tokens.Nodup)
    (hc : a.kind ≠ .scalar) (h : ChildrenRelated (· = ·) a b) : a = b := by
  rcases outline_cases ho with ⟨v, w, rfl, rfl⟩ | ⟨as, bs, rfl, rfl, hnames⟩ |
      ⟨as, bs, rfl, rfl, hlength⟩ | ⟨as, bs, rfl, rfl, hlength⟩ | ⟨n, as, bs, rfl, rfl, hnames⟩
  · exact absurd rfl hc
  · rw [fields_ext hnames (forall₂_values_of_related hnames (names_nodup_of_tokens hn) h)]
  · simp only [ChildrenRelated, child?_sequence] at h
    rw [eq_of_forall₂ (forall₂_of_positions hlength h)]
  · simp only [ChildrenRelated, child?_set] at h
    rw [eq_of_forall₂ (forall₂_of_positions hlength h)]
  · simp only [ChildrenRelated, child?_record] at h
    have hl : (as.map Prod.snd).length = (bs.map Prod.snd).length := by
      simpa using congrArg List.length hnames
    rw [fields_ext hnames (forall₂_of_positions hl h)]

section

variable {same : Scalar → Scalar → Bool}

/-- **Containers with one outline, other than sets, are equal exactly if their children are.** -/
theorem eqLeaves_iff_children {a b : Document} (ho : a.outline = b.outline)
    (hn : a.tokens.Nodup) (hc : a.kind ≠ .scalar) (hk : a.kind ≠ .set) :
    a.eqLeaves same b = true ↔ ChildrenRelated (fun x y => x.eqLeaves same y = true) a b := by
  rcases outline_cases ho with ⟨v, w, rfl, rfl⟩ | ⟨as, bs, rfl, rfl, hnames⟩ |
      ⟨as, bs, rfl, rfl, hlength⟩ | ⟨as, bs, rfl, rfl, hlength⟩ | ⟨n, as, bs, rfl, rfl, hnames⟩
  · exact absurd rfl hc
  · have hd := names_nodup_of_tokens hn
    have hl : as.length = bs.length := by simpa [Entries.names] using congrArg List.length hnames
    rw [eqLeaves_mapping_iff]
    constructor
    · -- entries with one name stand under one token
      rintro ⟨_, hbs, -, h⟩ (position | name) x y hx hy
      · rw [child?_mapping_index] at hx
        cases hx
      · cases hbs
        rw [child?_mapping_key] at hx hy
        obtain ⟨v, hv, hxv⟩ := h _ (Entries.mem_of_get? hx)
        cases hv.symm.trans hy
        exact hxv
    · intro h
      refine ⟨bs, rfl, hl, fun e he => ?_⟩
      -- the names of both sides are the same, so each entry has its counterpart
      have hname : e.1 ∈ Entries.names bs := by
        rw [← hnames]
        exact List.mem_map_of_mem he
      obtain ⟨v, hv⟩ := Option.isSome_iff_exists.1 (Entries.contains_iff.2 hname)
      refine ⟨v, hv, h (.key e.1) e.2 v ?_ ?_⟩
      · rw [child?_mapping_key]
        exact Entries.get?_of_mem hd he
      · rw [child?_mapping_key]
        exact hv
  · rw [eqLeaves_sequence_iff]
    simp only [ChildrenRelated, child?_sequence, sequence.injEq, exists_eq_left']
    exact ⟨positions_of_forall₂, forall₂_of_positions hlength⟩
  · exact absurd rfl hk
  · -- records have the same fields in order, so only the values are compared
    have hl : (as.map Prod.snd).length = (bs.map Prod.snd).length := by
      simpa using congrArg List.length hnames
    rw [eqLeaves_record_iff]
    simp only [ChildrenRelated, child?_record, record.injEq, true_and, exists_eq_left']
    rw [forall₂_entries_iff (R := fun x y : Document => x.eqLeaves same y = true),
      and_iff_right hnames]
    exact ⟨positions_of_forall₂, forall₂_of_positions hl⟩

/-- A document equals itself if its leaves do. -/
theorem eqLeaves_self (hs : ∀ value, same value value = true ∨ value.eq value = true)
    {a : Document} (ha : a.namesDistinct = true) : a.eqLeaves same a = true := by
  induction a using induct with
  | scalar value => exact (eqLeaves_scalar_iff _ _).2 ⟨value, rfl, hs value⟩
  | mapping entries ih =>
      have ha' := (everywhere_mapping _).1 ha
      rw [eqLeaves_iff_children rfl (children_tokens_nodup ha) Kind.noConfusion
        Kind.noConfusion]
      -- names are distinct, so an entry is compared with itself
      rintro (position | name) x y hx hy
      · rw [child?_mapping_index] at hx
        cases hx
      · cases hx.symm.trans hy
        rw [child?_mapping_key] at hx
        exact ih _ (Entries.mem_of_get? hx) (ha'.2 _ (Entries.mem_of_get? hx))
  | sequence items ih =>
      have ha' := (everywhere_sequence _).1 ha
      exact (eqLeaves_sequence_iff _ _).2
        ⟨items, rfl, List.forall₂_same.2 fun d hd => ih d hd (ha'.2 d hd)⟩
  | set members ih =>
      have ha' := (everywhere_set _).1 ha
      exact eqLeaves_set_of_forall₂ (List.forall₂_same.2 fun d hd => ih d hd (ha'.2 d hd))
  | record name fields ih =>
      have ha' := (everywhere_record _ _).1 ha
      exact (eqLeaves_record_iff _ _ _).2
        ⟨fields, rfl, List.forall₂_same.2 fun e he => ⟨rfl, ih e he (ha'.2 e he)⟩⟩

end

/-! ## Equality with NaN -/

/-- Whether two leaves are both `NaN`. -/
def bothNaN (a b : Scalar) : Bool :=
  (scalar a).isNaN && (scalar b).isNaN

theorem agrees_eq_eqLeaves (a b : Document) : a.agrees b = a.eqLeaves bothNaN b := by
  have h : (fun (_ : Nat) (x y : Document) => x.isNaN && y.isNaN) = knownLeaves bothNaN := by
    funext d x y
    cases x with
    | scalar v => cases y <;> simp [knownLeaves, bothNaN, isNaN]
    | _ => rfl
  rw [agrees, h]
  rfl

/-- **A document agrees with itself, `NaN` or not.** -/
theorem agrees_self {a : Document} (ha : a.namesDistinct = true) : a.agrees a = true := by
  rw [agrees_eq_eqLeaves]
  refine eqLeaves_self (fun value => ?_) ha
  rw [Scalar.eq_self, bothNaN, Bool.and_self]
  -- a leaf is `NaN` on both sides or equals itself
  cases (scalar value).isNaN with
  | true => exact Or.inl rfl
  | false => exact Or.inr rfl

/-- **Being identical is compared child by child.** -/
theorem eq_iff_children {a b : Document} (ho : a.outline = b.outline) (hn : a.tokens.Nodup)
    (hc : a.kind ≠ .scalar) : a = b ↔ ChildrenRelated (· = ·) a b := by
  refine ⟨fun h token x y hx hy => ?_, ext_children ho hn hc⟩
  subst h
  exact Option.some.inj (hx.symm.trans hy)

/-- A relation of documents that holds of every document and itself and, for containers with one
outline other than sets, exactly if it holds of the children. -/
structure Congruence (R : Document → Document → Prop) : Prop where
  refl : ∀ {a : Document}, a.namesDistinct = true → R a a
  children : ∀ {a b : Document}, a.outline = b.outline → a.tokens.Nodup → a.kind ≠ .scalar →
    a.kind ≠ .set → (R a b ↔ ChildrenRelated R a b)

/-- Equality with `NaN` is compared child by child. -/
theorem congruence_agrees : Congruence fun a b => a.agrees b = true where
  refl ha := agrees_self ha
  children ho hn hc hk := by
    simp only [agrees_eq_eqLeaves]
    exact eqLeaves_iff_children ho hn hc hk

end PathDoc.Document

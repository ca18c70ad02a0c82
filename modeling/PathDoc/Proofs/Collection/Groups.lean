import Mathlib.Data.List.SplitBy
import PathDoc.Proofs.Collection.Tasks
import PathDoc.Proofs.Document.PartialEquivalence
import PathDoc.Proofs.Write.Uniqueness

/-!
# Groups of documents with equal keys

The key of a document is its value at a path. Grouping takes the documents that have one, in order,
and fails at the first document whose failure is not skipped (`keyed_eq_error_iff`). Grouping over
the whole collection makes one group for each of the distinct keys, with all documents that have an
equal key (`groupAll_eq`): a stable partition, because equality is an equivalence on keys without
`NaN` (`stablePartition_groupAll`). Grouping neighbours compares each key with the one before it,
which is splitting the list where the key changes (`groupRuns_eq_splitBy`). Where equal keys stand
together the two make the same groups (`groupRuns_eq_groupAll`).

The groups are folded in a pool, which may report any failure if several groups fail side by side
(`exists_reduceGroupsIn_eq_error_iff`); the results do not depend on it
(`reduceGroupsIn_eq_ok_iff`). `groups_partition` puts this together.
-/

set_option autoImplicit false

namespace PathDoc

open Document (beq_comm beq_trans beq_self)

/-! ## Keys -/

/-- Whether a document can be a key: it equals itself, and what equals it can be exchanged for
it. -/
structure Document.IsKey (key : Document) : Prop where
  /-- Its mappings are finite maps. -/
  names : key.namesDistinct = true
  /-- It holds no `NaN`. -/
  numbers : key.nanFree = true

namespace Document.IsKey

variable {a b c : Document}

theorem refl (ha : a.IsKey) : (a == a) = true := beq_self ha.names ha.numbers

theorem symm (ha : a.IsKey) (hb : b.IsKey) (h : (a == b) = true) : (b == a) = true := by
  rw [← h, beq_comm hb.names ha.names]

theorem trans (ha : a.IsKey) (hb : b.IsKey) (hc : c.IsKey) (hab : (a == b) = true)
    (hbc : (b == c) = true) : (a == c) = true :=
  beq_trans ha.names hb.names hc.names hab hbc

/-- Of different keys at most one equals a given key. -/
theorem not_both (ha : a.IsKey) (hb : b.IsKey) (hc : c.IsKey) (h : (a == b) = false)
    (hac : (a == c) = true) : (b == c) = false := by
  rw [← Bool.not_eq_true]
  intro hbc
  rw [trans ha hc hb hac (symm hb hc hbc)] at h
  cases h

end Document.IsKey

namespace Collection

/-! ## What is asked of groups -/

/-- Documents whose values at a path are equal. -/
def SameKey (navigator : Navigator) (path : Path) (a b : Document) : Prop :=
  ∃ x y, navigator.get a path = .ok x ∧ navigator.get b path = .ok y ∧ (x == y) = true

/-- The value of a document at a path; null if it has none. -/
def keyOf (navigator : Navigator) (path : Path) (document : Document) : Document :=
  (navigator.get document path).toOption.getD .null

/-- Groups of the items of a list. Every occurrence of an item is in exactly one of them, the one in
its slot; two items share a group exactly if they are the same in some respect; the groups come in
the order in which their first items appear, and keep the order of the items. -/
structure StablePartition {α : Type} (same : α → α → Prop) (items : List α)
    (groups : List (List α)) (slot : α → Nat) : Prop where
  /-- Every item has a group. -/
  inside : ∀ a ∈ items, slot a < groups.length
  /-- A group is the list of the items that go there, in their order. -/
  members : groups = (List.range groups.length).map fun g => items.filter (slot · == g)
  /-- No group is empty. -/
  nonempty : ∀ group ∈ groups, group ≠ []
  /-- Items share a group exactly if they are the same. -/
  together : ∀ a ∈ items, ∀ b ∈ items, slot a = slot b ↔ same a b
  /-- Before the first item of a group all earlier groups have one. -/
  firstSeen : ∀ before a after, items = before ++ a :: after →
    ∀ g < slot a, ∃ b ∈ before, slot b = g

/-- Runs of the items of a list: one after the other they are the list, the items of one are the
same in some respect, and those of neighbouring runs are not. -/
structure Runs {α : Type} (same : α → α → Prop) (items : List α) (runs : List (List α)) :
    Prop where
  /-- The runs are the list. -/
  concatenated : runs.flatten = items
  /-- No run is empty. -/
  nonempty : ∀ run ∈ runs, run ≠ []
  /-- Items of one run are the same. -/
  together : ∀ run ∈ runs, ∀ a ∈ run, ∀ b ∈ run, same a b
  /-- Items of neighbouring runs are not. -/
  apart : runs.IsChain fun run next => ∀ a ∈ run, ∀ b ∈ next, ¬ same a b

/-- Items that are the same in some respect stand together: there is no other one in between. -/
def Contiguous {α : Type} (same : α → α → Prop) (items : List α) : Prop :=
  ∀ a b c, [a, b, c].Sublist items → same a c → same a b

section

variable {α : Type} {same other : α → α → Prop} {items : List α} {groups : List (List α)}

theorem StablePartition.congr {slot : α → Nat} (h : StablePartition same items groups slot)
    (hs : ∀ a ∈ items, ∀ b ∈ items, same a b ↔ other a b) :
    StablePartition other items groups slot where
  inside := h.inside
  members := h.members
  nonempty := h.nonempty
  together a ha b hb := (h.together a ha b hb).trans (hs a ha b hb)
  firstSeen := h.firstSeen

theorem Runs.congr (h : Runs same items groups)
    (hs : ∀ a ∈ items, ∀ b ∈ items, same a b ↔ other a b) : Runs other items groups where
  concatenated := h.concatenated
  nonempty := h.nonempty
  together run hrun a ha b hb := by
    have hmem : ∀ c ∈ run, c ∈ items := fun c hc =>
      h.concatenated ▸ List.mem_flatten.2 ⟨run, hrun, hc⟩
    exact (hs a (hmem a ha) b (hmem b hb)).1 (h.together run hrun a ha b hb)
  apart := by
    refine h.apart.imp_of_mem_imp fun run next hrun hnext hapart a ha b hb hab => ?_
    have hitem : ∀ group ∈ groups, ∀ c ∈ group, c ∈ items := fun group hg c hc =>
      h.concatenated ▸ List.mem_flatten.2 ⟨group, hg, hc⟩
    exact hapart a ha b hb ((hs a (hitem run hrun a ha) b (hitem next hnext b hb)).2 hab)

theorem Contiguous.congr (h : Contiguous same items)
    (hs : ∀ a ∈ items, ∀ b ∈ items, same a b ↔ other a b) : Contiguous other items := by
  intro a b c hsub hac
  have hmem := hsub.subset
  exact (hs a (hmem (by simp)) b (hmem (by simp))).1
    (h a b c hsub ((hs a (hmem (by simp)) c (hmem (by simp))).2 hac))

end

/-- Whether items stand together can be seen from what they are the same in. -/
theorem contiguous_map_iff {α β : Type} {same : β → β → Prop} {f : α → β} {items : List α} :
    Contiguous same (items.map f) ↔ Contiguous (fun a b => same (f a) (f b)) items := by
  constructor
  · exact fun h a b c hs => h _ _ _ (hs.map f)
  · intro h a b c hs
    obtain ⟨some, hsome, he⟩ := List.sublist_map_iff.1 hs
    obtain ⟨x, y, z, rfl⟩ : ∃ x y z, some = [x, y, z] := by
      have hlength := congrArg List.length he
      rw [List.length_map] at hlength
      exact List.length_eq_three.1 hlength.symm
    cases he
    exact h x y z hsome

/-- Whether grouping leaves out the documents that fail with an error. -/
def skips (context : Context) (error : Error) : Bool :=
  context.config.skipMissing && error.isMissingPath

/-- The documents that have a value at a path. -/
def present (collection : Collection) (context : Context) (path : Path) : List Document :=
  collection.documents.filter fun document => context.navigator.reaches document path

/-- The first document without a value at a path that is not left out, and why it has none. -/
def FailsFirst (collection : Collection) (context : Context) (path : Path) (error : Error) : Prop :=
  ∃ before document after, collection.documents = before ++ document :: after ∧
    context.navigator.get document path = .error error ∧ skips context error = false ∧
    ∀ earlier ∈ before, ∀ other, context.navigator.get earlier path = .error other →
      skips context other = true

/-- The groups of a collection. -/
def groups (collection : Collection) (context : Context) (path : Path) (neighboursOnly : Bool) :
    Outcome (List (List Document)) := do
  let pairs ← keyed context path collection.documents
  .ok (if neighboursOnly then groupRuns none pairs else groupAll pairs)

/-! ## Documents with their keys -/

variable {context : Context} {path : Path}

/-- **The documents that have a key are kept in order with it**, and the others are left out. -/
theorem keyed_spec {documents : List Document} {pairs : List (Document × Document)}
    (h : keyed context path documents = .ok pairs) :
    pairs.map Prod.snd =
        documents.filter (fun document => context.navigator.reaches document path) ∧
      (∀ pair ∈ pairs, context.navigator.get pair.2 path = .ok pair.1) ∧
      ∀ document ∈ documents, ∀ error, context.navigator.get document path = .error error →
        skips context error = true := by
  induction documents generalizing pairs with
  | nil =>
      cases h
      exact ⟨rfl, fun _ hm => absurd hm List.not_mem_nil, fun _ hm => absurd hm List.not_mem_nil⟩
  | cons document rest ih =>
      rw [keyed] at h
      -- the first document is kept with its key, is left out, or ends with its failure
      split at h
      · rename_i key hkey
        obtain ⟨others, hrest, rfl⟩ := map_eq_ok_iff.1 h
        obtain ⟨hdocuments, hkeys, hskipped⟩ := ih hrest
        have hreaches : context.navigator.reaches document path = true := by
          rw [Navigator.reaches, hkey]
          rfl
        refine ⟨?_, List.forall_mem_cons.2 ⟨hkey, hkeys⟩,
          List.forall_mem_cons.2 ⟨fun error he => ?_, hskipped⟩⟩
        · rw [List.map_cons, hdocuments, List.filter_cons, if_pos hreaches]
        · cases hkey.symm.trans he
      · rename_i error hkey
        have hreaches : ¬ context.navigator.reaches document path = true := by
          rw [Navigator.reaches, hkey]
          exact Bool.false_ne_true
        rw [List.filter_cons, if_neg hreaches]
        split at h
        · rename_i hskip
          obtain ⟨hdocuments, hkeys, hskipped⟩ := ih h
          refine ⟨hdocuments, hkeys, List.forall_mem_cons.2 ⟨fun other he => ?_, hskipped⟩⟩
          cases hkey.symm.trans he
          exact hskip
        · cases h

/-- **Reading the keys fails at the first document that is neither keyed nor left out.** -/
theorem keyed_eq_error_iff {collection : Collection} {error : Error} :
    keyed context path collection.documents = .error error ↔
      collection.FailsFirst context path error := by
  unfold FailsFirst
  generalize collection.documents = documents
  induction documents with
  | nil => simp [keyed]
  | cons document rest ih =>
      -- the first failure is that of the first document, or it comes after that document
      have hsplit : (∃ before failing after, document :: rest = before ++ failing :: after ∧
          context.navigator.get failing path = .error error ∧ skips context error = false ∧
          ∀ earlier ∈ before, ∀ other, context.navigator.get earlier path = .error other →
            skips context other = true) ↔
          (context.navigator.get document path = .error error ∧ skips context error = false) ∨
          ((∀ other, context.navigator.get document path = .error other →
              skips context other = true) ∧ keyed context path rest = .error error) := by
        rw [ih]
        constructor
        · rintro ⟨before, failing, after, hlist, hget, hskip, hbefore⟩
          cases before with
          | nil =>
              cases hlist
              exact Or.inl ⟨hget, hskip⟩
          | cons first before =>
              cases hlist
              rw [List.forall_mem_cons] at hbefore
              exact Or.inr ⟨hbefore.1, before, failing, after, rfl, hget, hskip, hbefore.2⟩
        · rintro (⟨hget, hskip⟩ | ⟨hfirst, before, failing, after, rfl, hget, hskip, hbefore⟩)
          · exact ⟨[], document, rest, rfl, hget, hskip, fun _ hm => nomatch hm⟩
          · exact ⟨document :: before, failing, after, rfl, hget, hskip,
              List.forall_mem_cons.2 ⟨hfirst, hbefore⟩⟩
      rw [hsplit, keyed]
      cases context.navigator.get document path with
      | ok key => simp [map_eq_error_iff]
      | error other =>
          by_cases hskip : skips context other = true
          · have hcondition : (context.config.skipMissing && other.isMissingPath) = true := hskip
            simp only [hcondition, if_true, Except.error.injEq]
            constructor
            · exact fun h => Or.inr ⟨fun _ he => he ▸ hskip, h⟩
            · rintro (⟨rfl, hnot⟩ | ⟨-, h⟩)
              · rw [hskip] at hnot
                cases hnot
              · exact h
          · have hcondition : ¬ (context.config.skipMissing && other.isMissingPath) = true := hskip
            simp only [hcondition, Except.error.injEq, if_false, Bool.false_eq_true]
            constructor
            · rintro rfl
              exact Or.inl ⟨rfl, Bool.not_eq_true _ ▸ hskip⟩
            · rintro (⟨rfl, -⟩ | ⟨h, -⟩)
              · rfl
              · exact absurd (h _ rfl) hskip

/-! ## One group for each key -/

section

variable {key document : Document} {keys : List Document} {pairs : List (Document × Document)}

/-- Groups with other keys stay as they are. -/
theorem addToGroup_append {earlier rest : List (Document × List Document)}
    (h : ∀ group ∈ earlier, (group.1 == key) = false) :
    addToGroup key document (earlier ++ rest) = earlier ++ addToGroup key document rest := by
  induction earlier with
  | nil => rfl
  | cons group earlier ih =>
      rw [List.forall_mem_cons] at h
      rw [List.cons_append, addToGroup, h.1, if_neg Bool.false_ne_true, ih h.2, List.cons_append]

/-- A document goes to the group of the key that equals its own. -/
theorem addToGroup_of_any_eq_true (members : Document → List Document)
    (hone : keys.Pairwise fun a b => (a == key) = true → (b == key) = false)
    (h : keys.any (· == key) = true) :
    addToGroup key document (keys.map fun other => (other, members other)) =
      keys.map fun other =>
        (other, if other == key then members other ++ [document] else members other) := by
  induction keys with
  | nil => cases h
  | cons first rest ih =>
      rw [List.pairwise_cons] at hone
      rw [List.any_cons, Bool.or_eq_true] at h
      rw [List.map_cons, List.map_cons, addToGroup]
      by_cases hfirst : (first == key) = true
      · -- the other keys differ, so their groups stay as they are
        have hrest : (rest.map fun other => (other, members other)) = rest.map fun other =>
            (other, if other == key then members other ++ [document] else members other) := by
          refine List.map_congr_left fun other hm => ?_
          rw [hone.1 other hm hfirst, if_neg Bool.false_ne_true]
        rw [if_pos hfirst, if_pos hfirst, hrest]
      · rw [if_neg hfirst, if_neg hfirst, ih hone.2 (h.resolve_left hfirst)]

/-- The distinct keys with one more at the end. -/
theorem distinct_concat (keys : List Document) (key : Document) :
    Document.distinct (keys ++ [key]) =
      if (Document.distinct keys).any (· == key) then Document.distinct keys
      else Document.distinct keys ++ [key] := by
  rw [Document.distinct, List.foldl_append]
  rfl

theorem distinct_pairwise (keys : List Document) :
    (Document.distinct keys).Pairwise fun a b => (a == b) = false :=
  Document.pairwise_foldl_distinct List.Pairwise.nil

/-- **Every key equals one of the distinct keys.** -/
theorem any_distinct (hk : ∀ key ∈ keys, key.IsKey) (h : key ∈ keys) :
    (Document.distinct keys).any (· == key) = true := by
  induction keys using List.reverseRecOn with
  | nil => cases h
  | append_singleton keys last ih =>
      have hkeys : ∀ key ∈ keys, key.IsKey := fun key hm => hk key (List.mem_append_left _ hm)
      rw [distinct_concat]
      rcases List.mem_append.1 h with h | h
      · split
        · exact ih hkeys h
        · rw [List.any_append, ih hkeys h, Bool.true_or]
      · rw [List.mem_singleton.1 h]
        split
        · assumption
        · have hself := (hk last (List.mem_append_right _ (List.mem_singleton_self _))).refl
          rw [List.any_append, List.any_cons, hself, Bool.true_or, Bool.or_true]

/-- The documents whose keys equal a given one. -/
def withKey (pairs : List (Document × Document)) (key : Document) : List Document :=
  (pairs.filter fun pair => key == pair.1).map Prod.snd

theorem withKey_concat (pairs : List (Document × Document)) (pair : Document × Document)
    (key : Document) :
    withKey (pairs ++ [pair]) key =
      if key == pair.1 then withKey pairs key ++ [pair.2] else withKey pairs key := by
  rw [withKey, List.filter_append, List.map_append]
  by_cases h : (key == pair.1) = true
  · rw [if_pos h, List.filter_cons, if_pos h]
    rfl
  · rw [if_neg h, List.filter_cons, if_neg h]
    exact List.append_nil _

/-- **There is one group for each of the distinct keys, with the documents whose keys equal it.** -/
theorem groupAll_eq (hk : ∀ pair ∈ pairs, pair.1.IsKey) :
    groupAll pairs = (Document.distinct (pairs.map Prod.fst)).map (withKey pairs) := by
  -- the keys are kept beside the groups while they are made
  suffices h : pairs.foldl (fun groups pair => addToGroup pair.1 pair.2 groups) [] =
      (Document.distinct (pairs.map Prod.fst)).map fun key => (key, withKey pairs key) by
    rw [groupAll, h, List.map_map]
    rfl
  induction pairs using List.reverseRecOn with
  | nil => rfl
  | append_singleton pairs pair ih =>
      have hpairs : ∀ pair ∈ pairs, pair.1.IsKey := fun pair hm => hk pair (List.mem_append_left _ hm)
      have hpair : pair.1.IsKey := hk pair (List.mem_append_right _ (List.mem_singleton_self pair))
      have hdistinct : ∀ key ∈ Document.distinct (pairs.map Prod.fst), key.IsKey := by
        intro key hm
        obtain ⟨other, hother, rfl⟩ := List.mem_map.1 (Document.mem_of_mem_distinct hm)
        exact hpairs other hother
      rw [List.foldl_append, ih hpairs, List.foldl_cons, List.foldl_nil, List.map_append,
        List.map_cons, List.map_nil, distinct_concat]
      by_cases hany : (Document.distinct (pairs.map Prod.fst)).any (· == pair.1) = true
      · have hone : (Document.distinct (pairs.map Prod.fst)).Pairwise
            fun a b => (a == pair.1) = true → (b == pair.1) = false :=
          (distinct_pairwise _).imp_of_mem fun ha hb h =>
            (hdistinct _ ha).not_both (hdistinct _ hb) hpair h
        rw [if_pos hany, addToGroup_of_any_eq_true _ hone hany]
        refine List.map_congr_left fun key _ => ?_
        rw [withKey_concat]
      · rw [Bool.not_eq_true] at hany
        have hother : ∀ group ∈ (Document.distinct (pairs.map Prod.fst)).map
            (fun key => (key, withKey pairs key)), (group.1 == pair.1) = false :=
          List.forall_mem_map.2 fun key hm => Document.beq_eq_false_of_any hany hm
        have hadd : addToGroup pair.1 pair.2 ((Document.distinct (pairs.map Prod.fst)).map
              fun key => (key, withKey pairs key)) =
            ((Document.distinct (pairs.map Prod.fst)).map fun key => (key, withKey pairs key)) ++
              [(pair.1, [pair.2])] := by
          rw [← List.append_nil ((Document.distinct (pairs.map Prod.fst)).map _),
            addToGroup_append hother, List.append_nil]
          rfl
        rw [hany, if_neg Bool.false_ne_true, hadd, List.map_append]
        -- the new key differs from all that came before
        have hnew : ∀ other ∈ pairs, (pair.1 == other.1) = false := by
          intro other hother
          have hkept : (Document.distinct (pairs.map Prod.fst)).any (· == other.1) = true :=
            any_distinct (List.forall_mem_map.2 hpairs) (List.mem_map_of_mem hother)
          obtain ⟨key, hm, he⟩ := List.any_eq_true.1 hkept
          rw [← Bool.not_eq_true]
          intro hsame
          have hkey := hdistinct key hm
          have hlast := hkey.trans (hpairs other hother) hpair he
            (hpair.symm (hpairs other hother) hsame)
          rw [Document.beq_eq_false_of_any hany hm] at hlast
          cases hlast
        have hnone : withKey pairs pair.1 = [] := by
          rw [withKey, List.filter_eq_nil_iff.2, List.map_nil]
          intro other hother
          rw [hnew other hother]
          exact Bool.false_ne_true
        congr 1
        · refine List.map_congr_left fun key hm => ?_
          rw [withKey_concat, Document.beq_eq_false_of_any hany hm, if_neg Bool.false_ne_true]
        · rw [List.map_cons, List.map_nil, withKey_concat, if_pos hpair.refl, hnone, List.nil_append]

end

/-- The distinct keys of the first ones come first. -/
theorem distinct_of_first (keys others : List Document) :
    Document.distinct keys <+: Document.distinct (keys ++ others) := by
  induction others using List.reverseRecOn with
  | nil => rw [List.append_nil]
  | append_singleton others last ih =>
      rw [← List.append_assoc, distinct_concat]
      split
      · exact ih
      · exact ih.trans (List.prefix_append _ _)

/-- The distinct keys that come before the one that a key equals are those of earlier keys. -/
theorem getElem_distinct_mem {keys others : List Document} {key : Document}
    (hk : ∀ other ∈ keys ++ key :: others, other.IsKey) {g : Nat}
    (hg : g < (Document.distinct (keys ++ key :: others)).findIdx (· == key))
    (hlt : g < (Document.distinct (keys ++ key :: others)).length) :
    (Document.distinct (keys ++ key :: others))[g] ∈ keys := by
  -- with the key there is at most one more than without it
  have hsplit : keys ++ key :: others = (keys ++ [key]) ++ others := by simp
  have hkeys : ∀ other ∈ keys ++ [key], other.IsKey :=
    fun other hm => hk other (hsplit ▸ List.mem_append_left _ hm)
  obtain ⟨first, hm, he⟩ := List.any_eq_true.1
    (any_distinct hkeys (List.mem_append_right _ (List.mem_singleton_self key)))
  have hfound : (Document.distinct (keys ++ [key])).findIdx (· == key) <
      (Document.distinct (keys ++ [key])).length :=
    List.findIdx_lt_length_of_exists ⟨first, hm, he⟩
  have hlength : (Document.distinct (keys ++ [key])).length ≤
      (Document.distinct keys).length + 1 := by
    rw [distinct_concat]
    split
    · exact Nat.le_succ _
    · exact Nat.le_of_eq List.length_append
  obtain ⟨rest, hrest⟩ := distinct_of_first (keys ++ [key]) others
  rw [hsplit, ← hrest, List.findIdx_append, if_pos hfound] at hg
  have hearly : g < (Document.distinct keys).length := by omega
  have hget : (Document.distinct (keys ++ key :: others))[g] = (Document.distinct keys)[g] :=
    ((distinct_of_first keys (key :: others)).getElem hearly).symm
  rw [hget]
  exact Document.mem_of_mem_distinct (List.getElem_mem hearly)

/-- A position in a list of different keys is the first one whose key equals a given key. -/
theorem findIdx_eq_iff {keys : List Document} {key : Document} (hkeys : ∀ key ∈ keys, key.IsKey)
    (hkey : key.IsKey) (hp : keys.Pairwise fun a b => (a == b) = false) {g : Nat}
    (hg : g < keys.length) : keys.findIdx (· == key) = g ↔ (keys[g] == key) = true := by
  rw [List.findIdx_eq hg]
  refine and_iff_left_of_imp fun h j hj => ?_
  -- an earlier key that equals it too would equal this one
  have hj' : j < keys.length := Nat.lt_trans hj hg
  have hdiffer := List.pairwise_iff_getElem.1 hp j g hj' hg hj
  rw [← Bool.not_eq_true]
  intro hearlier
  have hkj := hkeys _ (List.getElem_mem hj')
  have hkg := hkeys _ (List.getElem_mem hg)
  rw [hkj.not_both hkg hkey hdiffer hearlier] at h
  cases h

/-- **Grouping over the whole list is a stable partition.** -/
theorem stablePartition_groupAll {pairs : List (Document × Document)} {key : Document → Document}
    (hk : ∀ pair ∈ pairs, pair.1.IsKey) (hkey : ∀ pair ∈ pairs, pair.1 = key pair.2) :
    StablePartition (fun a b => (key a == key b) = true) (pairs.map Prod.snd) (groupAll pairs)
      fun document => (Document.distinct (pairs.map Prod.fst)).findIdx (· == key document) := by
  have hp := distinct_pairwise (pairs.map Prod.fst)
  have hfirst : ∀ key ∈ pairs.map Prod.fst, key.IsKey := List.forall_mem_map.2 hk
  have hkeys : ∀ key ∈ Document.distinct (pairs.map Prod.fst), key.IsKey :=
    fun key hm => hfirst key (Document.mem_of_mem_distinct hm)
  have hdocument : ∀ document ∈ pairs.map Prod.snd,
      (key document).IsKey ∧ key document ∈ pairs.map Prod.fst := by
    intro document hm
    obtain ⟨pair, hpair, rfl⟩ := List.mem_map.1 hm
    rw [← hkey pair hpair]
    exact ⟨hk pair hpair, List.mem_map_of_mem hpair⟩
  have hlt : ∀ document ∈ pairs.map Prod.snd,
      (Document.distinct (pairs.map Prod.fst)).findIdx (· == key document) <
        (Document.distinct (pairs.map Prod.fst)).length := by
    intro document hm
    obtain ⟨first, hfirstmem, he⟩ := List.any_eq_true.1 (any_distinct hfirst (hdocument document hm).2)
    exact List.findIdx_lt_length_of_exists ⟨first, hfirstmem, he⟩
  have hgroups : ∀ first ∈ Document.distinct (pairs.map Prod.fst),
      withKey pairs first = (pairs.map Prod.snd).filter fun document => first == key document := by
    intro first _
    rw [withKey, List.filter_map]
    congr 1
    refine List.filter_congr fun pair hpair => ?_
    rw [Function.comp_apply, hkey pair hpair]
  rw [groupAll_eq hk]
  refine ⟨?_, ?_, ?_, ?_, ?_⟩
  · intro document hm
    rw [List.length_map]
    exact hlt document hm
  · rw [List.length_map]
    refine List.ext_getElem (by simp) fun g hg hg' => ?_
    rw [List.length_map] at hg
    rw [List.getElem_map, List.getElem_map, List.getElem_range, hgroups _ (List.getElem_mem hg)]
    refine List.filter_congr fun document hm => ?_
    rw [Bool.eq_iff_iff]
    exact (beq_iff_eq.trans (findIdx_eq_iff hkeys (hdocument document hm).1 hp hg)).symm
  · intro group hm
    obtain ⟨first, hfirstmem, rfl⟩ := List.mem_map.1 hm
    obtain ⟨pair, hpair, rfl⟩ := List.mem_map.1 (Document.mem_of_mem_distinct hfirstmem)
    refine List.ne_nil_of_mem (a := pair.2) (List.mem_map_of_mem (List.mem_filter.2 ⟨hpair, ?_⟩))
    exact (hk pair hpair).refl
  · intro a ha b hb
    obtain ⟨hka, -⟩ := hdocument a ha
    obtain ⟨hkb, -⟩ := hdocument b hb
    have hb' := (findIdx_eq_iff hkeys hkb hp (hlt b hb)).1 rfl
    have hkg := hkeys _ (List.getElem_mem (hlt b hb))
    rw [findIdx_eq_iff hkeys hka hp (hlt b hb)]
    constructor
    · intro hsame
      exact hka.trans hkg hkb (hkg.symm hka hsame) hb'
    · intro hab
      exact hkg.trans hkb hka hb' (hka.symm hkb hab)
  · intro before a after hsplit g hg
    obtain ⟨early, late, rfl, rfl, hlate⟩ := List.map_eq_append_iff.1 hsplit
    obtain ⟨pair, late, rfl, rfl, -⟩ := List.map_eq_cons_iff.1 hlate
    have hg' := Nat.lt_trans hg (hlt pair.2 (by simp))
    -- the key of an earlier group is that of an earlier document
    have hmem : (Document.distinct ((early ++ pair :: late).map Prod.fst))[g] ∈
        early.map Prod.fst := by
      have hpart : (early ++ pair :: late).map Prod.fst =
          early.map Prod.fst ++ pair.1 :: late.map Prod.fst := by simp
      simp only [hpart] at hg hfirst ⊢
      rw [← hkey pair (by simp)] at hg
      exact getElem_distinct_mem hfirst hg _
    obtain ⟨earlier, hearlier, he⟩ := List.mem_map.1 hmem
    have hpair : earlier ∈ early ++ pair :: late := List.mem_append_left _ hearlier
    refine ⟨earlier.2, List.mem_map_of_mem hearlier, ?_⟩
    have hself := (hk earlier hpair).refl
    rw [findIdx_eq_iff hkeys (hdocument _ (List.mem_map_of_mem hpair)).1 hp hg', ← he,
      ← hkey earlier hpair, hself]

/-! ## Runs of equal keys -/

/-- Whether the keys of two documents are equal. -/
def equalKeys (a b : Document × Document) : Bool :=
  a.1 == b.1

/-- **Grouping neighbours splits the list where the key changes.** -/
theorem groupRuns_eq_splitBy (pairs : List (Document × Document)) :
    groupRuns none pairs = (pairs.splitBy equalKeys).map (List.map Prod.snd) := by
  -- the splitter collects the run at hand and the runs before it backwards
  have hloop : ∀ (rest run : List (Document × Document)) (last : Document × Document)
      (before : List (List (Document × Document))),
      before.reverse.map (List.map Prod.snd) ++
          groupRuns (some (last.1, (run.reverse ++ [last]).map Prod.snd)) rest =
        (List.splitBy.loop equalKeys rest last run before).map (List.map Prod.snd) := by
    intro rest
    induction rest with
    | nil =>
        intro run last before
        simp [groupRuns, List.splitBy.loop]
    | cons pair rest ih =>
        intro run last before
        rw [groupRuns, List.splitBy.loop]
        by_cases h : (last.1 == pair.1) = true
        · have hsame : equalKeys last pair = true := h
          rw [if_pos h, hsame]
          have hrun := ih (last :: run) pair before
          rw [List.reverse_cons, List.map_append] at hrun
          exact hrun
        · have hother : equalKeys last pair = false := Bool.not_eq_true _ ▸ h
          rw [if_neg h, hother]
          have hrun := ih [] pair ((last :: run).reverse :: before)
          rw [List.reverse_cons (a := last), List.reverse_cons, List.map_append,
            List.append_assoc] at hrun
          rw [List.reverse_cons]
          exact hrun
  cases pairs with
  | nil => rfl
  | cons pair rest => exact hloop rest [] pair []

section

variable {pairs : List (Document × Document)}

theorem mem_of_mem_splitBy {run : List (Document × Document)} {pair : Document × Document}
    (hrun : run ∈ pairs.splitBy equalKeys) (hpair : pair ∈ run) : pair ∈ pairs := by
  rw [← List.flatten_splitBy equalKeys pairs]
  exact List.mem_flatten.2 ⟨run, hrun, hpair⟩

/-- **The keys of a run are equal**, and not those of neighbours only. -/
theorem equalKeys_of_mem_splitBy (hk : ∀ pair ∈ pairs, pair.1.IsKey)
    {run : List (Document × Document)} (hrun : run ∈ pairs.splitBy equalKeys)
    {a b : Document × Document} (ha : a ∈ run) (hb : b ∈ run) : (a.1 == b.1) = true := by
  have hkeys : ∀ pair ∈ run, pair.1.IsKey := fun pair hm => hk pair (mem_of_mem_splitBy hrun hm)
  let equal (p q : Document × Document) : Prop :=
    p.1.IsKey ∧ q.1.IsKey ∧ (p.1 == q.1) = true
  have htrans : Trans equal equal equal :=
    ⟨fun ⟨hp, hq, hpq⟩ ⟨_, hr, hqr⟩ => ⟨hp, hr, hp.trans hq hr hpq hqr⟩⟩
  have hsymm : Std.Symm equal := ⟨fun _ _ ⟨hp, hq, h⟩ => ⟨hq, hp, hp.symm hq h⟩⟩
  have hchain : run.IsChain equal := (List.isChain_of_mem_splitBy hrun).imp_of_mem_imp
    fun p q hp hq h => ⟨hkeys p hp, hkeys q hq, h⟩
  have hself : ∀ p ∈ run, equal p p := fun p hp => ⟨hkeys p hp, hkeys p hp, (hkeys p hp).refl⟩
  exact (hchain.pairwise.forall_of_forall hself ha hb).2.2

/-- **Grouping neighbours cuts the list into runs.** -/
theorem runs_groupRuns {key : Document → Document} (hk : ∀ pair ∈ pairs, pair.1.IsKey)
    (hkey : ∀ pair ∈ pairs, pair.1 = key pair.2) :
    Runs (fun a b => (key a == key b) = true) (pairs.map Prod.snd) (groupRuns none pairs) := by
  rw [groupRuns_eq_splitBy]
  refine ⟨?_, ?_, ?_, ?_⟩
  · rw [← List.map_flatten, List.flatten_splitBy]
  · intro group hm
    obtain ⟨run, hrun, rfl⟩ := List.mem_map.1 hm
    exact fun h => List.ne_nil_of_mem_splitBy hrun (List.map_eq_nil_iff.1 h)
  · intro group hm a ha b hb
    obtain ⟨run, hrun, rfl⟩ := List.mem_map.1 hm
    obtain ⟨p, hp, rfl⟩ := List.mem_map.1 ha
    obtain ⟨q, hq, rfl⟩ := List.mem_map.1 hb
    rw [← hkey p (mem_of_mem_splitBy hrun hp), ← hkey q (mem_of_mem_splitBy hrun hq)]
    exact equalKeys_of_mem_splitBy hk hrun hp hq
  · rw [List.isChain_map]
    refine (List.isChain_getLast_head_splitBy equalKeys pairs).imp_of_mem_imp ?_
    rintro run next hrun hnext ⟨hlast, hhead, h⟩ a ha b hb hab
    obtain ⟨p, hp, rfl⟩ := List.mem_map.1 ha
    obtain ⟨q, hq, rfl⟩ := List.mem_map.1 hb
    have hlast' := List.getLast_mem hlast
    have hhead' := List.head_mem hhead
    rw [← hkey p (mem_of_mem_splitBy hrun hp), ← hkey q (mem_of_mem_splitBy hnext hq)] at hab
    -- if two keys were equal, so would be the ones at the seam
    have hpk := hk p (mem_of_mem_splitBy hrun hp)
    have hqk := hk q (mem_of_mem_splitBy hnext hq)
    have hlk := hk _ (mem_of_mem_splitBy hrun hlast')
    have hhk := hk _ (mem_of_mem_splitBy hnext hhead')
    have hlp := equalKeys_of_mem_splitBy hk hrun hlast' hp
    have hqh := equalKeys_of_mem_splitBy hk hnext hq hhead'
    have hseam := hlk.trans hqk hhk (hlk.trans hpk hqk hlp hab) hqh
    rw [equalKeys, hseam] at h
    cases h

/-- Where equal keys stand together, a run that is over gets no more documents, and so the runs are
the groups. -/
theorem foldl_addToGroup_eq (hk : ∀ pair ∈ pairs, pair.1.IsKey) {last first : Document}
    {run : List Document} {earlier : List (Document × List Document)}
    (hlast : last.IsKey) (hfirst : first.IsKey) (hsame : (first == last) = true)
    (hearlier : ∀ group ∈ earlier, ∀ pair ∈ pairs, (group.1 == pair.1) = false)
    (hc : Contiguous (fun a b => (a == b) = true) (last :: pairs.map Prod.fst)) :
    (pairs.foldl (fun groups pair => addToGroup pair.1 pair.2 groups)
        (earlier ++ [(first, run)])).map Prod.snd =
      earlier.map Prod.snd ++ groupRuns (some (last, run)) pairs := by
  induction pairs generalizing last first run earlier with
  | nil => simp [groupRuns]
  | cons pair rest ih =>
      rw [List.forall_mem_cons] at hk
      have hpair : ∀ group ∈ earlier, (group.1 == pair.1) = false :=
        fun group hm => hearlier group hm pair List.mem_cons_self
      have hrest : Contiguous (fun a b => (a == b) = true) (pair.1 :: rest.map Prod.fst) :=
        fun a b c hs => hc a b c (hs.trans (List.sublist_cons_self _ _))
      rw [List.foldl_cons, addToGroup_append hpair, groupRuns]
      by_cases h : (last == pair.1) = true
      · have hadd : addToGroup pair.1 pair.2 [(first, run)] = [(first, run ++ [pair.2])] :=
          if_pos (hfirst.trans hlast hk.1 hsame h)
        rw [if_pos h, hadd]
        exact ih hk.2 hk.1 hfirst (hfirst.trans hlast hk.1 hsame h)
          (fun group hm other ho => hearlier group hm other (List.mem_cons_of_mem _ ho)) hrest
      · have hlater : ∀ other ∈ rest, (first == other.1) = false := by
          intro other ho
          rw [← Bool.not_eq_true]
          intro he
          -- this key stands between two equal ones
          have hothers : [last, pair.1, other.1].Sublist (last :: (pair :: rest).map Prod.fst) :=
            (.cons_cons _ (.cons_cons _ (List.singleton_sublist.2 (List.mem_map_of_mem ho))))
          exact h (hc _ _ _ hothers
            (hlast.trans hfirst (hk.2 other ho) (hfirst.symm hlast hsame) he))
        have hadd : addToGroup pair.1 pair.2 [(first, run)] =
            [(first, run)] ++ [(pair.1, [pair.2])] :=
          if_neg fun he => h (hlast.trans hfirst hk.1 (hfirst.symm hlast hsame) he)
        rw [if_neg h, hadd, ← List.append_assoc, ih hk.2 hk.1 hk.1 hk.1.refl ?_ hrest]
        · rw [List.map_append, List.append_assoc]
          rfl
        · intro group hm other ho
          rcases List.mem_append.1 hm with hm | hm
          · exact hearlier group hm other (List.mem_cons_of_mem _ ho)
          · rw [List.mem_singleton.1 hm]
            exact hlater other ho

/-- **Where equal keys stand together, grouping neighbours makes the same groups.** -/
theorem groupRuns_eq_groupAll (hk : ∀ pair ∈ pairs, pair.1.IsKey)
    (hc : Contiguous (fun a b => (a == b) = true) (pairs.map Prod.fst)) :
    groupRuns none pairs = groupAll pairs := by
  cases pairs with
  | nil => rfl
  | cons pair rest =>
      rw [List.forall_mem_cons] at hk
      have h : (rest.foldl (fun groups pair => addToGroup pair.1 pair.2 groups)
            ([] ++ [(pair.1, [pair.2])])).map Prod.snd =
          [] ++ groupRuns (some (pair.1, [pair.2])) rest :=
        foldl_addToGroup_eq hk.2 hk.1 hk.1 hk.1.refl (fun _ hm => absurd hm List.not_mem_nil) hc
      exact h.symm

end

/-! ## Groups of a collection -/

variable {collection : Collection}

/-- Reading the keys decides whether grouping succeeds. -/
theorem groups_eq_ok_iff {neighboursOnly : Bool} {made : List (List Document)} :
    collection.groups context path neighboursOnly = .ok made ↔
      ∃ pairs, keyed context path collection.documents = .ok pairs ∧
        (if neighboursOnly then groupRuns none pairs else groupAll pairs) = made := by
  rw [groups, bind_eq_ok_iff]
  exact exists_congr fun pairs => and_congr_right fun _ => by rw [Except.ok.injEq]

theorem groups_eq_error_iff {neighboursOnly : Bool} {error : Error} :
    collection.groups context path neighboursOnly = .error error ↔
      collection.FailsFirst context path error := by
  rw [← keyed_eq_error_iff, groups]
  cases keyed context path collection.documents with
  | error other => simp [bind, Except.bind]
  | ok pairs => simp [bind, Except.bind]

/-- A failure that is not left out makes grouping fail. -/
theorem exists_failsFirst {document : Document} {error : Error}
    (hm : document ∈ collection.documents)
    (hg : context.navigator.get document path = .error error) (hs : skips context error = false) :
    ∃ first, collection.FailsFirst context path first := by
  cases h : keyed context path collection.documents with
  | error first => exact ⟨first, keyed_eq_error_iff.1 h⟩
  | ok pairs =>
      have hskip := (keyed_spec h).2.2 document hm error hg
      rw [hs] at hskip
      cases hskip

/-- The keys that are read can be compared, and each is the key of its document. -/
theorem isKey_of_keyed (hd : ∀ document ∈ collection.documents, document.namesDistinct = true)
    (hk : ∀ document ∈ collection.documents, ∀ key,
      context.navigator.get document path = .ok key → key.nanFree = true)
    {pairs : List (Document × Document)}
    (h : keyed context path collection.documents = .ok pairs) :
    (∀ pair ∈ pairs, pair.1.IsKey) ∧ ∀ pair ∈ pairs, pair.1 = keyOf context.navigator path pair.2 := by
  obtain ⟨hdocuments, hkeys, -⟩ := keyed_spec h
  refine ⟨fun pair hm => ?_, fun pair hm => ?_⟩
  · have hmem : pair.2 ∈ collection.documents := by
      have hfilter := List.mem_map_of_mem (f := Prod.snd) hm
      rw [hdocuments] at hfilter
      exact List.mem_of_mem_filter hfilter
    exact ⟨Navigator.everywhere_of_get (hd _ hmem) (hkeys pair hm), hk _ hmem _ (hkeys pair hm)⟩
  · rw [keyOf, hkeys pair hm]
    rfl

/-- Documents have the same key if the values that are read are equal. -/
theorem sameKey_iff_of_keyed {pairs : List (Document × Document)}
    (h : keyed context path collection.documents = .ok pairs) {a b : Document}
    (ha : a ∈ pairs.map Prod.snd) (hb : b ∈ pairs.map Prod.snd) :
    (keyOf context.navigator path a == keyOf context.navigator path b) = true ↔
      SameKey context.navigator path a b := by
  obtain ⟨-, hkeys, -⟩ := keyed_spec h
  obtain ⟨p, hp, rfl⟩ := List.mem_map.1 ha
  obtain ⟨q, hq, rfl⟩ := List.mem_map.1 hb
  rw [SameKey, keyOf, keyOf, hkeys p hp, hkeys q hq]
  constructor
  · exact fun he => ⟨p.1, q.1, rfl, rfl, he⟩
  · rintro ⟨x, y, hx, hy, he⟩
    cases hx
    cases hy
    exact he

/-! ## Folding groups -/

section

variable {pool : Pool} {reducer : Reducer} {start : Option Document} {neighboursOnly : Bool}

/-- Reducing folds the groups, side by side if that is allowed and there are several. -/
theorem reduceGroupsIn_eq :
    reduceGroupsIn pool collection context reducer start path neighboursOnly =
      collection.groups context path neighboursOnly >>= fun made =>
        (pool.collect (context.config.parallel && decide (1 < made.length))
          (made.map (fold reducer start))).map (·.filterMap id) := by
  rw [reduceGroupsIn, groups]
  cases keyed context path collection.documents with
  | error error => rfl
  | ok pairs =>
      dsimp only [bind, Except.bind]
      cases pool.collect _ _ <;> rfl

/-- **Reducing succeeds if every group can be folded**, whatever the pool. -/
theorem reduceGroupsIn_eq_ok_iff {results : List Document} :
    reduceGroupsIn pool collection context reducer start path neighboursOnly = .ok results ↔
      ∃ made, ∃ folded : List (Option Document),
        collection.groups context path neighboursOnly = .ok made ∧
        made.map (fold reducer start) = folded.map .ok ∧ folded.filterMap id = results := by
  rw [reduceGroupsIn_eq]
  simp only [bind_eq_ok_iff, map_eq_ok_iff, Pool.collect_eq_ok_iff]
  constructor
  · rintro ⟨made, hmade, folded, hfolded, rfl⟩
    exact ⟨made, folded, hmade, hfolded, rfl⟩
  · rintro ⟨made, folded, hmade, hfolded, rfl⟩
    exact ⟨made, hmade, folded, hfolded, rfl⟩

/-- **What is reported of reducing** is why grouping fails, or the failure of a group: of any one
that fails if groups are folded side by side. -/
theorem exists_reduceGroupsIn_eq_error_iff {error : Error} :
    (∃ pool, reduceGroupsIn pool collection context reducer start path neighboursOnly =
        .error error) ↔
      collection.groups context path neighboursOnly = .error error ∨
      ∃ made, collection.groups context path neighboursOnly = .ok made ∧
        MayReport (context.config.parallel && decide (1 < made.length))
          (made.map (fold reducer start)) error := by
  simp only [reduceGroupsIn_eq, bind_eq_error_iff, map_eq_error_iff]
  constructor
  · rintro ⟨pool, hgroups | ⟨made, hmade, h⟩⟩
    · exact Or.inl hgroups
    · exact Or.inr ⟨made, hmade, Pool.mayReport_of_collect h⟩
  · rintro (hgroups | ⟨made, hmade, h⟩)
    · exact ⟨.inOrder, Or.inl hgroups⟩
    · obtain ⟨pool, hreported⟩ := Pool.exists_collect_eq_error_iff.2 h
      exact ⟨pool, Or.inr ⟨made, hmade, hreported⟩⟩

/-- Groups that are folded one after the other leave nothing open. -/
theorem reduceGroupsIn_one_by_one (h : context.config.parallel = false) (other : Pool) :
    reduceGroupsIn pool collection context reducer start path neighboursOnly =
      reduceGroupsIn other collection context reducer start path neighboursOnly := by
  simp only [reduceGroupsIn_eq, h, Bool.false_and, Pool.collect_one_by_one pool other]

end

/-- Where equal keys stand together the groups of neighbours are the groups of all. -/
theorem groups_eq_of_contiguous
    (hd : ∀ document ∈ collection.documents, document.namesDistinct = true)
    (hk : ∀ document ∈ collection.documents, ∀ key,
      context.navigator.get document path = .ok key → key.nanFree = true)
    (hc : Contiguous (SameKey context.navigator path) (collection.present context path)) :
    collection.groups context path true = collection.groups context path false := by
  unfold groups
  cases hpairs : keyed context path collection.documents with
  | error error => rfl
  | ok pairs =>
      obtain ⟨hkeys, hvalue⟩ := isKey_of_keyed hd hk hpairs
      have hcontiguous : Contiguous (fun a b => (a == b) = true) (pairs.map Prod.fst) := by
        rw [present, ← (keyed_spec hpairs).1, contiguous_map_iff] at hc
        rw [contiguous_map_iff]
        refine hc.congr fun p hp q hq => ?_
        rw [← sameKey_iff_of_keyed hpairs (List.mem_map_of_mem hp) (List.mem_map_of_mem hq),
          ← hvalue p hp, ← hvalue q hq]
      have hsame := groupRuns_eq_groupAll hkeys hcontiguous
      simp only [bind, Except.bind, if_true, hsame, Bool.false_eq_true, if_false]

/-- **Groups of a collection.** Let the documents of a collection be finite maps whose values at a
path, where they have one, hold no `NaN`. Grouping fails exactly if some document has no value there
and is not left out, with the failure of the first such document; only documents that miss the path
are ever left out. Otherwise grouping over the whole collection is a stable partition of the
documents with a value by the equality of their values, and grouping neighbours cuts these documents
into runs of equal values.

Reducing succeeds exactly if every group can be folded, and gives the folded groups in order; which
failure is reported is open only among groups that are folded side by side. If equal values stand
together reducing gives the same either way: in any one pool the outcomes are the same, and so are
the results in any two pools. -/
theorem groups_partition {collection : Collection} {context : Context} {path : Path}
    (hd : ∀ document ∈ collection.documents, document.namesDistinct = true)
    (hk : ∀ document ∈ collection.documents, ∀ key,
      context.navigator.get document path = .ok key → key.nanFree = true) :
    (∀ neighboursOnly error, collection.groups context path neighboursOnly = .error error ↔
      collection.FailsFirst context path error) ∧
    (∀ document ∈ collection.documents, ∀ error,
      context.navigator.get document path = .error error →
        (context.config.skipMissing = false ∨ error.isMissingPath = false) →
        ∃ first, collection.FailsFirst context path first) ∧
    (∀ made, collection.groups context path false = .ok made →
      ∃ slot, StablePartition (SameKey context.navigator path) (collection.present context path)
        made slot) ∧
    (∀ made, collection.groups context path true = .ok made →
      Runs (SameKey context.navigator path) (collection.present context path) made) ∧
    (∀ reducer start neighboursOnly,
      (∀ pool results,
        reduceGroupsIn pool collection context reducer start path neighboursOnly = .ok results ↔
          ∃ made, ∃ folded : List (Option Document),
            collection.groups context path neighboursOnly = .ok made ∧
            made.map (fold reducer start) = folded.map .ok ∧ folded.filterMap id = results) ∧
      ∀ error,
        (∃ pool, reduceGroupsIn pool collection context reducer start path neighboursOnly =
          .error error) ↔
            collection.groups context path neighboursOnly = .error error ∨
            ∃ made, collection.groups context path neighboursOnly = .ok made ∧
              MayReport (context.config.parallel && decide (1 < made.length))
                (made.map (fold reducer start)) error) ∧
    (Contiguous (SameKey context.navigator path) (collection.present context path) →
      ∀ reducer start,
        (∀ pool, reduceGroupsIn pool collection context reducer start path true =
          reduceGroupsIn pool collection context reducer start path false) ∧
        (∀ pool other results,
          reduceGroupsIn pool collection context reducer start path true = .ok results ↔
            reduceGroupsIn other collection context reducer start path false = .ok results) ∧
        (context.config.parallel = false → ∀ pool other,
          reduceGroupsIn pool collection context reducer start path true =
            reduceGroupsIn other collection context reducer start path false)) := by
  refine ⟨fun _ _ => groups_eq_error_iff, fun document hm error hg hskip => ?_, fun made h => ?_,
    fun made h => ?_, fun reducer start neighboursOnly => ?_, fun hc reducer start => ?_⟩
  · -- a failure that is not left out has a first one
    exact exists_failsFirst hm hg (Bool.and_eq_false_iff.2 hskip)
  · obtain ⟨pairs, hpairs, rfl⟩ := groups_eq_ok_iff.1 h
    obtain ⟨hkeys, hvalue⟩ := isKey_of_keyed hd hk hpairs
    rw [present, ← (keyed_spec hpairs).1]
    -- the order of the keys is the equality of values, for no key holds a NaN
    exact ⟨_, (stablePartition_groupAll hkeys hvalue).congr fun a ha b hb =>
      sameKey_iff_of_keyed hpairs ha hb⟩
  · obtain ⟨pairs, hpairs, rfl⟩ := groups_eq_ok_iff.1 h
    obtain ⟨hkeys, hvalue⟩ := isKey_of_keyed hd hk hpairs
    rw [present, ← (keyed_spec hpairs).1]
    exact (runs_groupRuns hkeys hvalue).congr fun a ha b hb => sameKey_iff_of_keyed hpairs ha hb
  · exact ⟨fun pool results => reduceGroupsIn_eq_ok_iff,
      fun error => exists_reduceGroupsIn_eq_error_iff⟩
  · have hgroups := groups_eq_of_contiguous hd hk hc
    have hsame : ∀ pool, reduceGroupsIn pool collection context reducer start path true =
        reduceGroupsIn pool collection context reducer start path false := by
      intro pool
      rw [reduceGroupsIn_eq, reduceGroupsIn_eq, hgroups]
    refine ⟨hsame, fun pool other results => ?_, fun hparallel pool other => ?_⟩
    · rw [hsame, reduceGroupsIn_eq_ok_iff, reduceGroupsIn_eq_ok_iff]
    · rw [hsame, reduceGroupsIn_one_by_one hparallel other]

/-- Two equal keys with their entries in another order stand apart, and a document without a key is
left out. If both groups fail to be folded, either failure may be reported. -/
theorem groups_partition_entries_reordered :
    let context : Context :=
      { Context.standard with config := { Config.standard with skipMissing := true } }
    let path : Path := [.key "k"]
    let first : Document := .mapping [("k", .mapping [("a", .int 1), ("b", .set [])])]
    let second : Document := .mapping [("k", .bool true), ("n", .null)]
    let third : Document := .mapping [("k", .mapping [("b", .set []), ("a", .int 1)])]
    let collection := ofList [first, second, .mapping [("n", .null)], third]
    let failing : Reducer := fun _ document =>
      .error (.task (if document == second then "second" else "first"))
    (∀ document ∈ collection.documents, document.namesDistinct = true) ∧
      (∀ document ∈ collection.documents, ∀ key,
        context.navigator.get document path = .ok key → key.nanFree = true) ∧
      collection.present context path = [first, second, third] ∧
      collection.groups context path false = .ok [[first, third], [second]] ∧
      (∃ slot, StablePartition (SameKey context.navigator path) (collection.present context path)
        [[first, third], [second]] slot) ∧
      collection.groups context path true = .ok [[first], [second], [third]] ∧
      Runs (SameKey context.navigator path) (collection.present context path)
        [[first], [second], [third]] ∧
      (∃ pool, reduceGroupsIn pool collection context failing (some .null) path false =
        .error (.task "first")) ∧
      ∃ pool, reduceGroupsIn pool collection context failing (some .null) path false =
        .error (.task "second") := by
  intro context path first second third collection failing
  have hd : ∀ document ∈ collection.documents, document.namesDistinct = true := by
    simp only [collection, ofList, List.forall_mem_cons]
    exact ⟨by decide, by decide, by decide, by decide, fun _ hm => nomatch hm⟩
  have hk : ∀ document ∈ collection.documents, ∀ key,
      context.navigator.get document path = .ok key → key.nanFree = true := by
    simp only [collection, ofList, List.forall_mem_cons]
    refine ⟨fun key h => ?_, fun key h => ?_, fun key h => ?_, fun key h => ?_,
      fun _ hm => nomatch hm⟩
    · cases h
      rfl
    · cases h
      rfl
    · cases h
    · cases h
      rfl
  have hall : collection.groups context path false = .ok [[first, third], [second]] := by rfl
  have hruns : collection.groups context path true = .ok [[first], [second], [third]] := by rfl
  have hfold : [[first, third], [second]].map (fold failing (some .null)) =
      [.error (.task "first"), .error (.task "second")] := by rfl
  obtain ⟨-, -, hpartition, hcut, hreduce, -⟩ := groups_partition hd hk
  obtain ⟨-, hopen⟩ := hreduce failing (some .null) false
  refine ⟨hd, hk, rfl, hall, hpartition _ hall, hruns, hcut _ hruns, ?_, ?_⟩
  · refine (hopen _).2 (.inr ⟨_, hall, ?_⟩)
    rw [hfold]
    exact List.mem_cons_self
  · refine (hopen _).2 (.inr ⟨_, hall, ?_⟩)
    rw [hfold]
    exact List.mem_cons_of_mem _ List.mem_cons_self

end Collection

end PathDoc

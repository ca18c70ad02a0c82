import PathDoc.Proofs.Document.Congruence
import PathDoc.Proofs.Write.Sequences

/-!
# Independent writes

Two paths are independent if neither leads through the other. Writes at independent addresses of a
document without sets go to different places: those below one child of a container stay in that
child, and none of them takes away an address of another. They succeed in every order, with one
result, which holds each value at its address and is unchanged at all addresses that are independent
of those written (`storeEach_independent`).
-/

set_option autoImplicit false

namespace PathDoc

namespace Path

/-- Neither of two paths leads through the other. -/
def Independent (a b : Path) : Prop :=
  ¬ a <+: b ∧ ¬ b <+: a

instance (a b : Path) : Decidable (Independent a b) :=
  inferInstanceAs (Decidable (¬ a <+: b ∧ ¬ b <+: a))

theorem Independent.symm {a b : Path} (h : Independent a b) : Independent b a :=
  ⟨h.2, h.1⟩

/-- No path is independent of the root. -/
theorem not_independent_nil (path : Path) : ¬ Independent [] path :=
  fun h => h.1 List.nil_prefix

theorem independent_cons_iff {token : Token} {a b : Path} :
    Independent (token :: a) (token :: b) ↔ Independent a b := by
  simp [Independent, List.cons_prefix_cons]

end Path

namespace Document

/-- Whether there is no set in a document. -/
abbrev setFree (document : Document) : Bool :=
  document.everywhere fun node => node.kind != .set

/-- Containers with the outline of a container are identical if they have the same children under
its tokens. -/
theorem eq_of_same_children {node a b : Document} (hd : node.namesDistinct = true)
    (hk : node.kind ≠ .scalar) (ha : a.outline = node.outline) (hb : b.outline = node.outline)
    (h : ∀ token child, node.child? token = some child → a.child? token = b.child? token) :
    a = b := by
  refine ext_children (ha.trans hb.symm) (tokens_nodup_of_outline hd ha)
    (kind_of_outline ha ▸ hk) fun token x y hx hy => ?_
  have htokens : a.tokens = node.tokens := congrArg Prod.snd ha
  obtain ⟨child, hc⟩ := exists_child?_iff.2 (htokens ▸ exists_child?_iff.1 ⟨x, hx⟩)
  rw [h token child hc, hy] at hx
  exact (Option.some.inj hx).symm

end Document

/-! ## Lists of independent writes -/

/-- Writes at addresses of a document that are independent of each other. -/
structure IndependentWrites (document : Document) (writes : List (Path × Document)) : Prop where
  /-- Every write goes to a node of the document. -/
  address : ∀ write ∈ writes, (document.nodeAt? write.1).isSome = true
  /-- No two writes go to nodes of which one lies in the other. -/
  independent : writes.Pairwise fun a b => a.1.Independent b.1

namespace IndependentWrites

variable {document child : Document} {token : Token} {writes : List (Path × Document)}

/-- A write to the root is independent of no other write. -/
theorem eq_singleton (h : IndependentWrites document writes) {value : Document}
    (hw : ([], value) ∈ writes) : writes = [([], value)] := by
  obtain ⟨before, after, rfl⟩ := List.append_of_mem hw
  obtain ⟨-, hafter, hacross⟩ := List.pairwise_append.1 h.independent
  have hbefore : before = [] := List.eq_nil_iff_forall_not_mem.2 fun write hm =>
    Path.not_independent_nil _ (hacross write hm _ List.mem_cons_self).symm
  have hnone : after = [] := List.eq_nil_iff_forall_not_mem.2 fun write hm =>
    Path.not_independent_nil _ ((List.pairwise_cons.1 hafter).1 write hm)
  rw [hbefore, hnone]
  rfl

/-- The writes below a child are independent writes in the child. -/
theorem under (h : IndependentWrites document writes) (hc : document.child? token = some child) :
    IndependentWrites child (Traversal.under token writes) where
  address write hw := by
    have haddress := h.address (token :: write.1, write.2) (Traversal.mem_under_iff.1 hw)
    rwa [Document.nodeAt?, hc] at haddress
  independent := by
    rw [Traversal.under, List.pairwise_map]
    refine (h.independent.filter _).imp_of_mem fun {a b} ha hb hab => ?_
    have hstart : ∀ {write : Path × Document}, write ∈ writes.filter (Traversal.startsAt token) →
        write.1 = token :: write.1.tail := fun hw =>
      (List.cons_head?_tail (beq_iff_eq.1 (List.mem_filter.1 hw).2)).symm
    rw [hstart ha, hstart hb] at hab
    exact Path.independent_cons_iff.1 hab

/-- Writes other than to the root go to children or below them. -/
theorem belowChildren (h : IndependentWrites document writes) (hne : ∀ write ∈ writes, write.1 ≠ []) :
    Navigator.BelowChildren document writes := by
  intro write hw
  obtain ⟨token, path, hpath⟩ := List.exists_cons_of_ne_nil (hne write hw)
  have haddress := h.address write hw
  rw [hpath, Document.nodeAt?] at haddress
  cases hc : document.child? token with
  | none =>
      rw [hc] at haddress
      cases haddress
  | some child => exact ⟨token, child, path, hc, hpath⟩

end IndependentWrites

namespace Navigator

variable {navigator : Navigator} {skipMissing : Bool}

/-- What writes at independent addresses make of a document, in whatever order they come. -/
structure Settles (navigator : Navigator) (skipMissing : Bool) (document : Document)
    (writes : List (Path × Document)) (result : Document) : Prop where
  /-- Every order of the writes has the result. -/
  orders : ∀ order, order.Perm writes → navigator.writeAll skipMissing document order = some result
  /-- The result holds every value at its address. -/
  values : ∀ write ∈ writes, result.nodeAt? write.1 = some write.2
  /-- Nodes at independent addresses are unchanged. -/
  others : ∀ path node, document.nodeAt? path = some node →
    (∀ write ∈ writes, write.1.Independent path) → result.nodeAt? path = some node

theorem settles_root (document value : Document) :
    Settles navigator skipMissing document [([], value)] value where
  orders order hp := by
    rw [List.perm_singleton.1 hp]
    rfl
  values write hw := by
    rw [List.mem_singleton.1 hw]
    rfl
  others path node _ hi := absurd (hi _ List.mem_cons_self) (Path.not_independent_nil path)

theorem settles_nil (document : Document) : Settles navigator skipMissing document [] document where
  orders order hp := by
    rw [List.perm_nil.1 hp]
    rfl
  values write hw := nomatch hw
  others path node h _ := h

/-- Writes below the children of a container other than a set have the results that they have in
each child. -/
theorem exists_writeAll_of_children {document : Document} {order : List (Path × Document)}
    {settled : Token → Document → Document} (hk : document.kind ≠ .set)
    (hb : BelowChildren document order)
    (hc : ∀ token child, document.child? token = some child →
      navigator.writeAll skipMissing child (Traversal.under token order) =
        some (settled token child)) :
    ∃ result, navigator.writeAll skipMissing document order = some result ∧
      result.outline = document.outline ∧
      ∀ token child, document.child? token = some child →
        result.child? token = some (settled token child) := by
  have hm : navigator.Unmerged skipMissing document order := unmerged_of_kind hb hk
  obtain ⟨result, hresult⟩ := exists_writeAll hb hm fun token child h => ⟨_, hc token child h⟩
  have hwritten := writeAll_children hb hm hresult
  exact ⟨result, hresult, hwritten.outline,
    fun token child h => (hwritten.children token child h).symm.trans (hc token child h)⟩

/-- **Writes below the children settle in a container if they do in each child.** -/
theorem settles_of_children {document : Document} {writes : List (Path × Document)}
    (hd : document.namesDistinct = true) (hk : document.kind ≠ .set) (hne : writes ≠ [])
    (hb : BelowChildren document writes)
    (hc : ∀ token child, document.child? token = some child →
      ∃ result, Settles navigator skipMissing child (Traversal.under token writes) result) :
    ∃ result, Settles navigator skipMissing document writes result := by
  choose! settled hsettled using hc
  -- in any order the writes below a child reach it in the order they have among themselves
  have hevery : ∀ order, order.Perm writes → ∃ result,
      navigator.writeAll skipMissing document order = some result ∧
        result.outline = document.outline ∧
        ∀ token child, document.child? token = some child →
          result.child? token = some (settled token child) :=
    fun order hp => exists_writeAll_of_children hk (fun write hw => hb write (hp.mem_iff.1 hw))
      fun token child h => (hsettled token child h).orders _ ((hp.filter _).map _)
  obtain ⟨result, -, houtline, hchildren⟩ := hevery writes (List.Perm.refl writes)
  obtain ⟨first, hfirst⟩ := List.exists_mem_of_ne_nil writes hne
  refine ⟨result, fun order hp => ?_, fun write hw => ?_, fun path node hat hi => ?_⟩
  · -- two orders give documents with the same children under the same tokens
    obtain ⟨other, hother, houtline', hchildren'⟩ := hevery order hp
    have hscalar : document.kind ≠ .scalar := by
      obtain ⟨token, child, -, hchild, -⟩ := hb first hfirst
      cases document with
      | scalar value => cases hchild
      | _ => exact Kind.noConfusion
    rw [hother, Document.eq_of_same_children hd hscalar houtline' houtline fun token child h => by
      rw [hchildren token child h, hchildren' token child h]]
  · -- the value of a write stands in the child that the write goes into
    obtain ⟨token, child, path, hchild, hpath⟩ := hb write hw
    rw [hpath, Document.nodeAt?, hchildren token child hchild]
    refine (hsettled token child hchild).values (path, write.2) (Traversal.mem_under_iff.2 ?_)
    rwa [← hpath]
  · -- an address independent of all writes is so below its own child
    cases path with
    | nil => exact absurd (hi first hfirst).symm (Path.not_independent_nil _)
    | cons token rest =>
        rw [Document.nodeAt?] at hat ⊢
        obtain ⟨child, hchild, hat⟩ := Option.bind_eq_some_iff.1 hat
        rw [hchildren token child hchild]
        refine (hsettled token child hchild).others rest node hat fun write hw => ?_
        have hwrite : (token :: write.1, write.2) ∈ writes := Traversal.mem_under_iff.1 hw
        exact Path.independent_cons_iff.1 (hi _ hwrite)

/-- **Writes at independent addresses of a document without sets settle.** -/
theorem exists_settles {document : Document} (hd : document.namesDistinct = true)
    (hs : document.setFree = true) {writes : List (Path × Document)}
    (hw : IndependentWrites document writes) :
    ∃ result, Settles navigator skipMissing document writes result := by
  -- on the number of parts, since the children of a node are a list made from it
  induction hn : document.nodeCount using Nat.strongRecOn generalizing document writes with
  | _ n ih =>
    subst hn
    by_cases hnone : writes = []
    · rw [hnone]
      exact ⟨document, settles_nil document⟩
    by_cases hroot : ∀ write ∈ writes, write.1 ≠ []
    · have hk : document.kind ≠ .set := by simpa using (Document.everywhere_iff.1 hs).1
      refine settles_of_children hd hk hnone (hw.belowChildren hroot) fun token child hc => ?_
      have hm := Document.mem_children_of_child? hc
      exact ih _ (Document.nodeCount_lt_of_mem_children hm)
        (Document.everywhere_of_mem_children hd hm) (Document.everywhere_of_mem_children hs hm)
        (hw.under hc) rfl
    · simp only [ne_eq, not_forall, not_not] at hroot
      obtain ⟨⟨path, value⟩, hm, rfl⟩ := hroot
      rw [hw.eq_singleton hm]
      exact ⟨value, settles_root document value⟩

end Navigator

namespace Batch

/-- Stores values at paths, one after the other. -/
def storeEach (skipMissing : Bool) (batch : Batch) (writes : List (Path × Document)) :
    Except (Batch × Error) Batch :=
  writeEach skipMissing (fun batch write => batch.set write.1 (.value write.2)) batch writes

theorem document_storeEach (skipMissing : Bool) (batch : Batch) (writes : List (Path × Document)) :
    (batch.storeEach skipMissing writes).toOption.map Batch.document =
      batch.navigator.writeAll skipMissing batch.document writes := by
  have hsame : writes.map (fun write => (write.1, write.2)) = writes := List.map_id writes
  have h := @Navigator.writeEach_document skipMissing Prod.snd batch writes
  rwa [hsame] at h

/-- **Independent writes commute.** In a document without sets, writes at addresses of nodes of
which none lies in another one can be made by one batch in every order. Each order succeeds and has
the same result, which holds every value at its address and is unchanged at all addresses that are
independent of the written ones. -/
theorem storeEach_independent (navigator : Navigator) (skipMissing : Bool) {document : Document}
    (hd : document.namesDistinct = true) (hs : document.setFree = true)
    {writes : List (Path × Document)}
    (hw : ∀ write ∈ writes, (document.nodeAt? write.1).isSome = true)
    (hi : writes.Pairwise fun a b => a.1.Independent b.1) :
    ∃ result,
      (∀ order, order.Perm writes → ∃ batch,
        (start navigator document).storeEach skipMissing order = .ok batch ∧
          batch.document = result ∧ ∀ write ∈ writes, batch.get write.1 = .ok write.2) ∧
      (∀ write ∈ writes, result.nodeAt? write.1 = some write.2) ∧
      ∀ path node, document.nodeAt? path = some node →
        (∀ write ∈ writes, write.1.Independent path) → result.nodeAt? path = some node := by
  obtain ⟨result, hresult⟩ : ∃ result, navigator.Settles skipMissing document writes result :=
    Navigator.exists_settles hd hs ⟨hw, hi⟩
  refine ⟨result, fun order hp => ?_, hresult.values, hresult.others⟩
  -- the batch holds what its writes leave, and this does not depend on their order
  have hdocument := (document_storeEach skipMissing (start navigator document) order).trans
    (hresult.orders order hp)
  cases hbatch : (start navigator document).storeEach skipMissing order with
  | error failure =>
      rw [hbatch] at hdocument
      cases hdocument
  | ok batch =>
      rw [hbatch] at hdocument
      have hresult' : batch.document = result := Option.some.inj hdocument
      refine ⟨batch, rfl, hresult', fun write hm => ?_⟩
      rw [get, Navigator.get, hresult']
      exact Navigator.follow_of_nodeAt? write.1 (hresult.values write hm)

/-- A sequence of mappings, of which two values and one item are replaced. -/
theorem storeEach_independent_rows :
    let document : Document := .sequence [.mapping [("a", .int 1), ("b", .sequence [])],
      .record "Row" [("c", .int 2)], .int 3]
    let writes : List (Path × Document) := [([.index 0, .key "b"], .set [.int 4]),
      ([.index 2], .mapping []), ([.index 1, .index 0], .null)]
    document.namesDistinct = true ∧ document.setFree = true ∧
      (∀ write ∈ writes, (document.nodeAt? write.1).isSome = true) ∧
      (writes.Pairwise fun a b => a.1.Independent b.1) ∧
      ∃ batch, (start .standard document).storeEach false writes.reverse = .ok batch ∧
        batch.get [.index 1, .index 0] = .ok .null := by
  intro document writes
  have hd : document.namesDistinct = true := by decide
  have hs : document.setFree = true := by decide
  have hw : ∀ write ∈ writes, (document.nodeAt? write.1).isSome = true := by decide
  have hi : writes.Pairwise fun a b => a.1.Independent b.1 := by decide
  obtain ⟨result, hresult, -⟩ := storeEach_independent .standard false hd hs hw hi
  obtain ⟨batch, hbatch, -, hget⟩ := hresult writes.reverse (List.reverse_perm writes)
  exact ⟨hd, hs, hw, hi, batch, hbatch, hget ([.index 1, .index 0], .null) (by simp [writes])⟩

end Batch

end PathDoc

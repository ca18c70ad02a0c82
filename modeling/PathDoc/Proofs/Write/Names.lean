import PathDoc.Find
import PathDoc.Proofs.Write.ReplaceAt

/-!
# Writes keep names apart

A mapping that is built by inserting entries holds no name twice. A container keeps names apart when
a value is stored in it or taken out (`namesDistinct_store`, `namesDistinct_take`). So a write does
so if what it stores has distinct names (`namesDistinct_write`), with any accessors, and so does a
run of writes in a batch (`namesDistinct_writeEach`).
-/

set_option autoImplicit false

namespace PathDoc

/-! ## What is stored -/

/-- Whether what a replacement stores has distinct names, made of a document with distinct names. -/
def Replacement.KeepsNames : Replacement → Prop
  | .value fixed => fixed.namesDistinct = true
  | .compute f => ∀ current result, current.namesDistinct = true → f current = .ok result →
    result.namesDistinct = true

/-- Whether what an operation stores has distinct names; a removal stores nothing. -/
def Operation.KeepsNames : Operation → Prop
  | .set replacement => replacement.KeepsNames
  | .remove => True

namespace Document

variable {node value : Document} {slot : Slot} {written : Written}

/-! ## Containers -/

/-- Entries with different names and values whose names are different. -/
theorem namesDistinct_mapping_of {entries : List (String × Document)}
    (hn : (Entries.names entries).Nodup) (hv : ∀ entry ∈ entries, entry.2.namesDistinct = true) :
    (mapping entries).namesDistinct = true :=
  (everywhere_mapping entries).2 ⟨decide_eq_true hn, hv⟩

/-- **Storing a value in a container keeps names apart.** -/
theorem namesDistinct_store {target : Target} (h : node.namesDistinct = true)
    (hv : value.namesDistinct = true) (hs : node.store target value = .ok written) :
    written.document.namesDistinct = true := by
  rcases store_forms hs with ⟨slot, old, ho, -, he⟩ | ⟨entries, name, rfl, he⟩ |
    ⟨items, rfl, he⟩ | ⟨members, rfl, -, he⟩ | ⟨members, kept, rfl, hkept, he⟩ <;> rw [he]
  · exact namesDistinct_put h ho hv
  · obtain ⟨hn, hvalues⟩ := (everywhere_mapping entries).1 h
    refine namesDistinct_mapping_of (Entries.nodup_insert (of_decide_eq_true hn) name value) ?_
    intro entry hentry
    rcases Entries.mem_insert hentry with rfl | hentry
    · exact hv
    · exact hvalues entry hentry
  · refine (everywhere_sequence _).2 ⟨rfl, List.forall_mem_append.2 ⟨?_, ?_⟩⟩
    · exact ((everywhere_sequence items).1 h).2
    · exact List.forall_mem_singleton.2 hv
  · refine (everywhere_set _).2 ⟨rfl, List.forall_mem_append.2 ⟨?_, ?_⟩⟩
    · exact ((everywhere_set members).1 h).2
    · exact List.forall_mem_singleton.2 hv
  · exact (everywhere_set kept).2
      ⟨rfl, fun member hm => ((everywhere_set members).1 h).2 member (hkept.mem hm)⟩

/-- **Taking a child out of a container keeps names apart.** -/
theorem namesDistinct_take (h : node.namesDistinct = true) (ht : node.take slot = .ok written) :
    written.document.namesDistinct = true := by
  obtain ⟨-, -, -, ⟨entries, kept, rfl, hkept, he⟩ | ⟨items, kept, rfl, hkept, he⟩ |
    ⟨members, kept, rfl, hkept, he⟩⟩ := take_forms ht <;> rw [he]
  · obtain ⟨hn, hvalues⟩ := (everywhere_mapping entries).1 h
    have hnames : (Entries.names kept).Nodup :=
      (of_decide_eq_true hn : (Entries.names entries).Nodup).sublist (hkept.map Prod.fst)
    exact namesDistinct_mapping_of hnames fun entry hentry => hvalues entry (hkept.mem hentry)
  · exact (everywhere_sequence kept).2
      ⟨rfl, fun item hi => ((everywhere_sequence items).1 h).2 item (hkept.mem hi)⟩
  · exact (everywhere_set kept).2
      ⟨rfl, fun member hm => ((everywhere_set members).1 h).2 member (hkept.mem hm)⟩

/-- Mappings of one entry have distinct names. -/
theorem namesDistinct_wrap (path : Path) (h : value.namesDistinct = true) :
    (wrap path value).namesDistinct = true := by
  induction path with
  | nil => exact h
  | cons token rest ih =>
      exact namesDistinct_mapping_of (List.nodup_singleton _) (List.forall_mem_singleton.2 ih)

/-- Pairs that are inserted one after the other. -/
theorem namesDistinct_ofPairs {pairs : List (String × Document)}
    (h : ∀ pair ∈ pairs, pair.2.namesDistinct = true) : (ofPairs pairs).namesDistinct = true :=
  namesDistinct_mapping_of (Entries.nodup_ofList pairs)
    fun entry hentry => h entry (Entries.mem_ofList hentry)

end Document

/-! ## Writes -/

namespace Navigator

variable {navigator : Navigator} {document value : Document} {path : Path} {operation : Operation}
  {written : Written}

/-- Putting a value in place of the one at a path keeps names apart. -/
theorem namesDistinct_replaceAt (h : document.namesDistinct = true)
    (hv : value.namesDistinct = true) (path : Path) :
    (navigator.replaceAt document path value).namesDistinct = true := by
  induction path generalizing document with
  | nil => exact hv
  | cons token rest ih =>
      cases hc : navigator.child document token with
      | error miss =>
          rw [replaceAt, hc]
          exact h
      | ok found =>
          have ho := (child_eq_ok_iff.1 hc).2
          have hchild := (Document.everywhere_iff.1 h).2 _ (Document.mem_parts_of_at? ho)
          rw [replaceAt_cons hc]
          exact Document.namesDistinct_put h ho (ih hchild)

/-- What the last step of a write stores has distinct names. -/
theorem namesDistinct_valueFor {last : Token} {target : Target} {replacement : Replacement}
    (h : document.namesDistinct = true) (hr : replacement.KeepsNames)
    (hv : valueFor path last document target replacement = .ok value) :
    value.namesDistinct = true := by
  cases replacement with
  | value fixed =>
      have hfixed : fixed = value := by
        cases target <;> exact Except.ok.inj hv
      exact hfixed ▸ hr
  | compute f =>
      -- a function works on the child that is there, and on nothing else
      cases target with
      | existing slot =>
          rw [valueFor] at hv
          cases ho : document.at? slot with
          | none =>
              rw [ho] at hv
              cases hv
          | some current =>
              rw [ho] at hv
              have hcurrent := (Document.everywhere_iff.1 h).2 _ (Document.mem_parts_of_at? ho)
              exact hr current value hcurrent hv
      | insert name => cases hv
      | append => cases hv

/-- The last step of a write keeps names apart. -/
theorem namesDistinct_applyLast {last : Token} (h : document.namesDistinct = true)
    (hr : operation.KeepsNames)
    (hw : navigator.applyLast path last document operation = .ok written) :
    written.document.namesDistinct = true := by
  rcases applyLast_cases hw with ⟨slot, rfl, ht⟩ | ⟨target, replacement, value, rfl, -, hvalue, hs⟩
  · exact Document.namesDistinct_take h ht
  · exact Document.namesDistinct_store h (namesDistinct_valueFor h hr hvalue) hs

/-- **A write keeps names apart**, whatever accessors it follows its path with. -/
theorem namesDistinct_write (h : document.namesDistinct = true) (hr : operation.KeepsNames)
    (hw : navigator.write document path operation = .ok written) :
    written.document.namesDistinct = true := by
  rcases List.eq_nil_or_concat path with rfl | ⟨parents, last, rfl⟩
  · -- at the root the value is the whole document
    cases operation with
    | remove => cases hw
    | set replacement =>
        cases replacement with
        | value value =>
            cases hw
            exact hr
        | compute f =>
            obtain ⟨value, hvalue, rfl⟩ := map_eq_ok_iff.1 hw
            exact hr document value h hvalue
  · rw [List.concat_eq_append, write_concat_eq_ok_iff] at hw
    obtain ⟨container, inner, hget, happly, rfl⟩ := hw
    have hinner := namesDistinct_applyLast (everywhere_of_get h hget) hr happly
    exact namesDistinct_replaceAt h hinner parents

/-- What a removal gives back has distinct names. -/
theorem namesDistinct_previous (h : document.namesDistinct = true)
    (hw : navigator.write document path .remove = .ok written) :
    (written.previous.getD .null).namesDistinct = true := by
  rcases List.eq_nil_or_concat path with rfl | ⟨parents, last, rfl⟩
  · cases hw
  · rw [List.concat_eq_append, write_concat_eq_ok_iff] at hw
    obtain ⟨container, inner, hget, happly, rfl⟩ := hw
    rcases applyLast_cases happly with ⟨slot, -, ht⟩ | ⟨_, _, _, hset, -⟩
    · obtain ⟨old, ho, hprevious, -⟩ := Document.take_forms ht
      have hcontainer := everywhere_of_get h hget
      rw [hprevious]
      exact (Document.everywhere_iff.1 hcontainer).2 old (Document.mem_parts_of_at? ho)
    · cases hset

end Navigator

/-! ## Batches -/

namespace Batch

variable {batch next : Batch} {path : Path}

/-- A write of a batch keeps names apart. -/
theorem namesDistinct_set {replacement : Replacement} (h : batch.document.namesDistinct = true)
    (hr : replacement.KeepsNames) (hw : batch.set path replacement = .ok next) :
    next.document.namesDistinct = true := by
  obtain ⟨written, hwrite, rfl⟩ := map_eq_ok_iff.1 hw
  have hoperation : (Operation.set replacement).KeepsNames := hr
  exact Navigator.namesDistinct_write h hoperation hwrite

/-- A removal of a batch keeps names apart, in what is left and in what is given back. -/
theorem namesDistinct_remove {value : Document} (h : batch.document.namesDistinct = true)
    (hw : batch.remove path = .ok (value, next)) :
    value.namesDistinct = true ∧ next.document.namesDistinct = true := by
  obtain ⟨written, hwrite, he⟩ := map_eq_ok_iff.1 hw
  cases he
  have hoperation : Operation.remove.KeepsNames := trivial
  exact ⟨Navigator.namesDistinct_previous h hwrite,
    Navigator.namesDistinct_write h hoperation hwrite⟩

/-- **Writes that each keep names apart do so together**, also where missing paths are passed
over. -/
theorem namesDistinct_writeEach {α : Type} {skipMissing : Bool} {write : Batch → α → Outcome Batch}
    {items : List α}
    (hwrite : ∀ batch item next, item ∈ items → batch.document.namesDistinct = true →
      write batch item = .ok next → next.document.namesDistinct = true)
    (h : batch.document.namesDistinct = true)
    (hw : writeEach skipMissing write batch items = .ok next) :
    next.document.namesDistinct = true := by
  induction items generalizing batch with
  | nil =>
      cases hw
      exact h
  | cons item rest ih =>
      have hrest : ∀ batch item next, item ∈ rest → batch.document.namesDistinct = true →
          write batch item = .ok next → next.document.namesDistinct = true :=
        fun batch item next hm => hwrite batch item next (List.mem_cons_of_mem _ hm)
      rw [writeEach] at hw
      cases hitem : write batch item with
      | ok middle =>
          rw [hitem] at hw
          exact ih hrest (hwrite batch item middle List.mem_cons_self h hitem) hw
      | error error =>
          -- the batch stays as it was
          simp only [hitem] at hw
          split at hw
          · exact ih hrest h hw
          · cases hw

end Batch

end PathDoc

import PathDoc.Proofs.Collection.Tasks
import PathDoc.Proofs.Document.Serialized
import PathDoc.Proofs.Find.Topmost
import PathDoc.Proofs.Flat.Acceptance
import PathDoc.Proofs.Flat.Partition
import PathDoc.Proofs.Step.ListedFirst
import PathDoc.Proofs.Write.Names

/-!
# Steps keep names apart

Every operation gives documents with distinct names, made of documents with distinct names
(`Action.namesDistinct_run`): a result is a part of the document, a document that was written to, or
one built by inserting entries. What the caller gives has to do so as well: the values and functions
that are stored, and functions as steps (`Step.KeepsNames`). Then whole runs do
(`Step.namesDistinct_run`), over a collection too (`Collection.namesDistinct_applyIn`). So distinct
names, which many theorems ask of a document, are asked of the documents that come in only.
-/

set_option autoImplicit false

namespace PathDoc

variable {document result : Document}

/-! ## Searches -/

/-- A text in the place of a part of a text is a leaf; any other replacement is the caller's. -/
theorem Match.ValueMatcher.keepsNames_replacementFor (matcher : ValueMatcher)
    {replacement : Replacement} (hr : replacement.KeepsNames) (found : Document) :
    (matcher.replacementFor replacement found).KeepsNames := by
  unfold replacementFor
  split
  · split
    · exact rfl
    · exact hr
  · exact hr

namespace Findings

/-- A report consists of sequences of leaves. -/
theorem namesDistinct_ofReport (report : Match.Report) :
    (ofReport report).namesDistinct = true := by
  have hleaves : ∀ items : List Document, (∀ item ∈ items, item.namesDistinct = true) →
      (Document.sequence items).namesDistinct = true :=
    fun items h => (Document.everywhere_sequence items).2 ⟨rfl, h⟩
  cases report with
  | found b => rfl
  | offsets list => exact hleaves _ (List.forall_mem_map.2 fun _ _ => rfl)
  | ranges list =>
      refine hleaves _ (List.forall_mem_map.2 fun range _ => hleaves _ ?_)
      exact List.forall_mem_cons.2 ⟨rfl, List.forall_mem_singleton.2 rfl⟩
  | texts list => exact hleaves _ (List.forall_mem_map.2 fun _ _ => rfl)

end Findings

/-- **What a search finds has distinct names.** -/
theorem Match.ValueMatcher.namesDistinct_find (h : document.namesDistinct = true)
    (matcher : ValueMatcher) (wanted : Wanted) (options : SearchOptions) :
    (matcher.find document wanted options).toDocument.namesDistinct = true := by
  cases wanted with
  | existence => rfl
  | values =>
      refine Document.namesDistinct_ofPairs (List.forall_mem_map.2 fun entry he => ?_)
      -- what is found is a part of the document
      obtain ⟨found, hfound, rfl⟩ := List.mem_map.1 (PathDict.mem_ofList he)
      exact Document.everywhere_of_nodeAt? h (Traversal.nodeAt?_of_mem_findPaths h hfound)
  | reports shape =>
      exact Document.namesDistinct_ofPairs
        (List.forall_mem_map.2 fun entry _ => Findings.namesDistinct_ofReport entry.2)

namespace Batch

variable {batch next : Batch} {matcher : Match.ValueMatcher} {options : SearchOptions}

theorem namesDistinct_replaceMatches {replacement : Replacement}
    (h : batch.document.namesDistinct = true) (hr : replacement.KeepsNames)
    (hw : batch.replaceMatches matcher replacement options = .ok next) :
    next.document.namesDistinct = true := by
  refine namesDistinct_writeEach (fun batch found next _ hb hset => ?_) h hw
  exact namesDistinct_set hb (matcher.keepsNames_replacementFor hr found.2) hset

theorem namesDistinct_removeMatches (h : batch.document.namesDistinct = true)
    (hw : batch.removeMatches matcher options = .ok next) :
    next.document.namesDistinct = true := by
  refine namesDistinct_writeEach (fun batch path next _ hb hremove => ?_) h hw
  obtain ⟨removed, hremoved, rfl⟩ := map_eq_ok_iff.1 hremove
  exact (namesDistinct_remove hb hremoved).2

/-- What a search with writes gives has distinct names if its last batch has. -/
theorem namesDistinct_finished {changedOnly : Bool} {outcome : Except (Batch × Error) Batch}
    (hd : ∀ last, outcome = .ok last → last.document.namesDistinct = true)
    (h : finished changedOnly outcome = .ok (some result)) : result.namesDistinct = true := by
  cases outcome with
  | error failure => cases h
  | ok last =>
      rw [finished] at h
      split at h
      · cases h
      · cases h
        exact hd last rfl

end Batch

/-! ## Writes of single paths -/

namespace Navigator

variable {navigator : Navigator} {path : Path}

theorem namesDistinct_set {replacement : Replacement} (h : document.namesDistinct = true)
    (hr : replacement.KeepsNames) (hs : navigator.set document path replacement = .ok result) :
    result.namesDistinct = true := by
  obtain ⟨written, hw, rfl⟩ := map_eq_ok_iff.1 hs
  have hoperation : (Operation.set replacement).KeepsNames := hr
  exact namesDistinct_write h hoperation hw

theorem namesDistinct_remove (h : document.namesDistinct = true)
    (hr : navigator.remove document path = .ok result) : result.namesDistinct = true := by
  obtain ⟨⟨value, left⟩, htake, rfl⟩ := map_eq_ok_iff.1 hr
  obtain ⟨written, hw, he⟩ := map_eq_ok_iff.1 htake
  cases he
  have hoperation : Operation.remove.KeepsNames := trivial
  exact namesDistinct_write h hoperation hw

theorem namesDistinct_move {source target : Path} (h : document.namesDistinct = true)
    (hm : navigator.move document source target = .ok result) : result.namesDistinct = true := by
  obtain ⟨⟨value, batch⟩, hremove, hrest⟩ := bind_eq_ok_iff.1 hm
  obtain ⟨last, hset, he⟩ := bind_eq_ok_iff.1 hrest
  cases he
  have hstart : (Batch.start navigator document).document.namesDistinct = true := h
  obtain ⟨hvalue, hbatch⟩ := Batch.namesDistinct_remove hstart hremove
  have hreplacement : (Replacement.value value).KeepsNames := hvalue
  exact Batch.namesDistinct_set hbatch hreplacement hset

/-- The mapping at a path has distinct names. -/
theorem namesDistinct_mappingAt {entries : Entries Document} (h : document.namesDistinct = true)
    (hm : navigator.mappingAt document path = .ok entries) :
    (Document.mapping entries).namesDistinct = true := by
  rw [mappingAt] at hm
  split at hm
  · cases hm
  · rename_i found hget
    cases hm
    exact everywhere_of_get h hget
  · cases hm

theorem namesDistinct_rename {name : String} (h : document.namesDistinct = true)
    (hr : navigator.rename document path name = .ok result) : result.namesDistinct = true := by
  rw [rename] at hr
  split at hr
  · cases hr
  · obtain ⟨entries, hentries, hrest⟩ := bind_eq_ok_iff.1 hr
    split at hrest
    · have hvalues :=
        ((Document.everywhere_mapping entries).1 (namesDistinct_mappingAt h hentries)).2
      refine namesDistinct_set h ?_ hrest
      -- the values are those of the entries that stay, under names inserted one after the other
      refine Document.namesDistinct_mapping_of (Entries.nodup_ofList _) fun entry he => ?_
      obtain ⟨other, hother, rfl⟩ := List.mem_map.1 (Entries.mem_ofList he)
      exact hvalues other (List.mem_filter.1 hother).1
    · cases hrest

theorem namesDistinct_reorder {names : List String} (h : document.namesDistinct = true)
    (hr : navigator.reorder document path names = .ok result) : result.namesDistinct = true := by
  obtain ⟨entries, hentries, hrest⟩ := bind_eq_ok_iff.1 hr
  obtain ⟨others, hothers, hset⟩ := bind_eq_ok_iff.1 hrest
  obtain ⟨hn, hvalues⟩ :=
    (Document.everywhere_mapping entries).1 (namesDistinct_mappingAt h hentries)
  have hnodup : (Entries.names entries).Nodup := of_decide_eq_true hn
  obtain ⟨hperm, -⟩ := reorderEntries_spec hnodup hothers
  have hreplacement : (Replacement.value (.mapping others)).KeepsNames :=
    Document.namesDistinct_mapping_of ((hperm.map Prod.fst).nodup_iff.2 hnodup)
      fun entry he => hvalues entry (hperm.mem_iff.1 he)
  exact namesDistinct_set h hreplacement hset

end Navigator

/-! ## Path dictionaries -/

/-- The encoding of a marker has distinct names. -/
theorem Marker.namesDistinct_ofJson (marker : Marker) :
    (Document.ofJson marker.toJson).namesDistinct = true := by
  cases marker with
  | record name fields =>
      have hfields : (Document.ofJson (.array (fields.map .string))).namesDistinct = true := by
        rw [Document.ofJson, Document.itemsOfJson_eq, List.map_map]
        exact (Document.everywhere_sequence _).2 ⟨rfl, List.forall_mem_map.2 fun _ _ => rfl⟩
      have hnames : [entryName, "name", "fields"].Nodup := by decide
      refine Document.namesDistinct_mapping_of hnames ?_
      exact List.forall_mem_cons.2 ⟨rfl, List.forall_mem_cons.2
        ⟨rfl, List.forall_mem_singleton.2 hfields⟩⟩
  | mapping => rfl
  | sequence => rfl
  | set => rfl

/-- What is not decoded as a marker is a value as it stands. -/
theorem Entry.eq_of_decode {text : String} {value : Document}
    (h : Entry.decode text document = .ok (.value value)) : value = document := by
  rw [decode] at h
  split at h
  · split at h <;> cases h
  · cases h
    rfl

namespace PathDict

/-- **A document that is listed and encoded keeps names apart.** -/
theorem namesDistinct_flatten (h : document.namesDistinct = true) (options : FlattenOptions) :
    (document.flatten options).toDocument.namesDistinct = true := by
  refine Document.namesDistinct_ofPairs (List.forall_mem_map.2 fun entry he => ?_)
  obtain ⟨path, entry⟩ := entry
  cases entry with
  | marker marker => exact marker.namesDistinct_ofJson
  | value value =>
      have hreached := ((FlattenOptions.lists_iff h).1 he).1
      exact Document.everywhere_of_nodeAt? h hreached.1

/-- Each decoded entry comes from an entry of the document. -/
theorem exists_of_mem_decodeEntries {entries : List (String × Document)}
    {read : List (Path × Entry)} (h : decodeEntries entries = .ok read) {entry : Path × Entry}
    (he : entry ∈ read) :
    ∃ source ∈ entries, Entry.decode source.1 source.2 = .ok entry.2 := by
  induction entries generalizing read with
  | nil =>
      cases h
      cases he
  | cons source rest ih =>
      obtain ⟨first, hfirst, h⟩ := bind_eq_ok_iff.1 h
      obtain ⟨path, -, h⟩ := bind_eq_ok_iff.1 h
      obtain ⟨others, hothers, h⟩ := bind_eq_ok_iff.1 h
      cases h
      rcases List.mem_cons.1 he with rfl | he
      · exact ⟨source, List.mem_cons_self, hfirst⟩
      · obtain ⟨other, hother, hdecode⟩ := ih hothers he
        exact ⟨other, List.mem_cons_of_mem _ hother, hdecode⟩

/-- The values of a decoded dictionary are values of the document. -/
theorem namesDistinct_of_mem_ofDocument {dict : PathDict} {path : Path} {value : Document}
    (h : document.namesDistinct = true) (hd : ofDocument document = .ok dict)
    (hv : (path, Entry.value value) ∈ dict.entries) : value.namesDistinct = true := by
  rw [ofDocument.eq_def] at hd
  split at hd
  · rename_i entries
    obtain ⟨read, hread, rfl⟩ := map_eq_ok_iff.1 hd
    obtain ⟨source, hsource, hdecode⟩ := exists_of_mem_decodeEntries hread (mem_ofList hv)
    rw [Entry.eq_of_decode hdecode]
    exact ((Document.everywhere_mapping entries).1 h).2 source hsource
  · cases hd

/-- **What a dictionary is unflattened to has distinct names if its values have.** -/
theorem namesDistinct_unflatten {dict : PathDict}
    (hv : ∀ path value, (path, Entry.value value) ∈ dict.entries → value.namesDistinct = true)
    (h : dict.unflatten = .ok result) : result.namesDistinct = true := by
  rcases unflatten_cases h with ⟨-, rfl⟩ | hbuild
  · rfl
  · refine TokenTree.everywhere_of_build TokenTree.hasDistinctNames_assemble
      (TokenTree.isSorted_ofDict dict) (fun path value he => ?_) hbuild
    rw [TokenTree.entryAt?_ofDict, get?_eq_some_iff] at he
    exact hv path value he

end PathDict

/-! ## Queries -/

namespace Query

theorem Literal.namesDistinct_toDocument (literal : Literal) :
    literal.toDocument.namesDistinct = true := by
  cases literal <;> rfl

/-- **The value of a query has distinct names**: it is a leaf or a part of the document. -/
theorem Expr.namesDistinct_eval {scope : Scope} (h : scope.document.namesDistinct = true)
    {expr : Expr} (he : expr.eval scope = .ok result) : result.namesDistinct = true := by
  obtain ⟨operand, hread, rfl⟩ := map_eq_ok_iff.1 he
  cases expr with
  | literal literal =>
      cases hread
      exact literal.namesDistinct_toDocument
  | lookup name path =>
      rw [read, Scope.lookup] at hread
      split at hread
      · split at hread
        · rename_i value hget
          cases hread
          exact Navigator.everywhere_of_get h hget
        · split at hread
          · cases hread
            rfl
          · cases hread
      · cases hread
  -- the connectives give truth values
  | compare left comparison right =>
      obtain ⟨l, -, hread⟩ := bind_eq_ok_iff.1 hread
      obtain ⟨r, -, hread⟩ := bind_eq_ok_iff.1 hread
      cases hread
      rfl
  | and a b =>
      obtain ⟨x, -, hread⟩ := bind_eq_ok_iff.1 hread
      split at hread
      · obtain ⟨y, -, hread⟩ := bind_eq_ok_iff.1 hread
        cases hread
        rfl
      · cases hread
        rfl
  | or a b =>
      obtain ⟨x, -, hread⟩ := bind_eq_ok_iff.1 hread
      split at hread
      · cases hread
        rfl
      · obtain ⟨y, -, hread⟩ := bind_eq_ok_iff.1 hread
        cases hread
        rfl
  | not a =>
      obtain ⟨x, -, hread⟩ := bind_eq_ok_iff.1 hread
      cases hread
      rfl

end Query

/-! ## Operations and steps -/

/-- Whether what an operation stores has distinct names. -/
def Action.KeepsNames : Action → Prop
  | .set _ replacement => replacement.KeepsNames
  | .findReplace _ replacement _ => replacement.KeepsNames
  | _ => True

/-- **Every operation keeps names apart.** -/
theorem Action.namesDistinct_run {context : Context} {skipMissing : Bool} {action : Action}
    (h : document.namesDistinct = true) (ha : action.KeepsNames)
    (hr : action.run context skipMissing document = .ok (some result)) :
    result.namesDistinct = true := by
  have hstart : (Batch.start context.navigator document).document.namesDistinct = true := h
  cases action with
  | get path keepPath =>
      rw [run] at hr
      split at hr
      · obtain ⟨kept, hkept, he⟩ := map_eq_ok_iff.1 hr
        obtain ⟨value, hget, rfl⟩ := map_eq_ok_iff.1 hkept
        cases he
        exact Document.namesDistinct_wrap path (Navigator.everywhere_of_get h hget)
      · obtain ⟨value, hget, he⟩ := map_eq_ok_iff.1 hr
        cases he
        exact Navigator.everywhere_of_get h hget
  | set path replacement =>
      obtain ⟨after, hset, he⟩ := map_eq_ok_iff.1 hr
      cases he
      exact Navigator.namesDistinct_set h ha hset
  | remove path =>
      obtain ⟨left, hremove, he⟩ := map_eq_ok_iff.1 hr
      cases he
      exact Navigator.namesDistinct_remove h hremove
  | move source target =>
      obtain ⟨after, hmove, he⟩ := map_eq_ok_iff.1 hr
      cases he
      exact Navigator.namesDistinct_move h hmove
  | rename path name =>
      obtain ⟨after, hrename, he⟩ := map_eq_ok_iff.1 hr
      cases he
      exact Navigator.namesDistinct_rename h hrename
  | reorder path names =>
      obtain ⟨after, hreorder, he⟩ := map_eq_ok_iff.1 hr
      cases he
      exact Navigator.namesDistinct_reorder h hreorder
  | find matcher wanted =>
      cases hr
      exact matcher.namesDistinct_find h wanted _
  | findReplace matcher replacement changedOnly =>
      refine Batch.namesDistinct_finished (fun last hlast => ?_) hr
      exact Batch.namesDistinct_replaceMatches hstart ha hlast
  | findRemove matcher changedOnly =>
      refine Batch.namesDistinct_finished (fun last hlast => ?_) hr
      exact Batch.namesDistinct_removeMatches hstart hlast
  | flatten annotateAll =>
      cases hr
      exact PathDict.namesDistinct_flatten h _
  | unflatten =>
      obtain ⟨dict, hdict, hrest⟩ := bind_eq_ok_iff.1 hr
      obtain ⟨built, hbuilt, he⟩ := map_eq_ok_iff.1 hrest
      cases he
      refine PathDict.namesDistinct_unflatten (fun path value hv => ?_) hbuilt
      exact PathDict.namesDistinct_of_mem_ofDocument h hdict hv
  | query expr =>
      obtain ⟨value, heval, he⟩ := map_eq_ok_iff.1 hr
      cases he
      have hscope : (context.scope document).document.namesDistinct = true := h
      exact Query.Expr.namesDistinct_eval hscope heval
  | filter expr =>
      obtain ⟨keep, -, he⟩ := map_eq_ok_iff.1 hr
      split at he
      · cases he
        exact h
      · cases he
  | dump indented =>
      cases hr
      rfl

namespace Step

mutual

/-- Whether all that a step stores, and the results of all functions in it, have distinct names. -/
def KeepsNames : Step → Prop
  | action operation _ => operation.KeepsNames
  | function f arguments => ∀ document result, document.namesDistinct = true →
    f document arguments = .ok (some result) → result.namesDistinct = true
  | chain steps => AllKeepNames steps
  | raw step => KeepsNames step

/-- Whether all steps of a list keep names apart. -/
def AllKeepNames : List Step → Prop
  | [] => True
  | step :: rest => KeepsNames step ∧ AllKeepNames rest

end

variable {context : Context}

/-- A step that drops a document over a missing path gives no document. -/
theorem eq_ok_of_dropMissing {skip : Bool} {outcome : Outcome (Option Document)}
    (h : dropMissing skip outcome = .ok (some result)) : outcome = .ok (some result) := by
  cases outcome with
  | ok found => exact h
  | error error =>
      rw [dropMissing] at h
      split at h <;> cases h

mutual

/-- **A run of a step keeps names apart.** -/
theorem namesDistinct_run : ∀ (step : Step) {document result : Document}, step.KeepsNames →
    document.namesDistinct = true → step.run context document = .ok (some result) →
      result.namesDistinct = true
  | action operation skipMissing, document, result, hk, h, hr => by
      rw [run] at hr
      rw [KeepsNames] at hk
      exact Action.namesDistinct_run h hk (eq_ok_of_dropMissing hr)
  | function f arguments, document, result, hk, h, hr => by
      rw [run] at hr
      rw [KeepsNames] at hk
      exact hk document result h hr
  | chain steps, document, result, hk, h, hr => by
      rw [run] at hr
      rw [KeepsNames] at hk
      exact namesDistinct_runAll steps hk h hr
  | raw step, document, result, hk, h, hr => by
      rw [run] at hr
      rw [KeepsNames] at hk
      exact namesDistinct_run step hk h hr

/-- Steps one after the other keep names apart. -/
theorem namesDistinct_runAll : ∀ (steps : List Step) {document result : Document},
    AllKeepNames steps → document.namesDistinct = true →
      runAll context steps document = .ok (some result) → result.namesDistinct = true
  | [], document, result, _, h, hr => by
      cases hr
      exact h
  | step :: rest, document, result, hk, h, hr => by
      rw [AllKeepNames] at hk
      rw [runAll] at hr
      rcases hs : step.run context document with failure | _ | next
      · rw [hs] at hr
        cases hr
      · rw [hs] at hr
        cases hr
      · rw [hs] at hr
        exact namesDistinct_runAll rest hk.2 (namesDistinct_run step hk.1 h hs) hr

end

end Step

/-! ## Collections -/

/-- **A step on a collection keeps names apart**, whichever pool it runs in. -/
theorem Collection.namesDistinct_applyIn {pool : Pool} {collection : Collection}
    {context : Context} {step : Step} {applied : Applied} (hk : step.KeepsNames)
    (hd : ∀ document ∈ collection.documents, document.namesDistinct = true)
    (h : applyIn pool collection context step = .ok applied) :
    ∀ result ∈ applied.toCollection.documents, result.namesDistinct = true := by
  obtain ⟨results, hresults, h⟩ := bind_eq_ok_iff.1 h
  rw [Pool.collect_eq_ok_iff] at hresults
  have hkept : ∀ result ∈ results.filterMap id, result.namesDistinct = true := by
    intro result hm
    obtain ⟨kept, hkept, rfl⟩ := List.mem_filterMap.1 hm
    -- each result comes from a task, and so from a document
    have htask : .ok (some result) ∈ collection.documents.map (step.run context) := by
      rw [hresults]
      exact List.mem_map_of_mem hkept
    obtain ⟨document, hdocument, hrun⟩ := List.mem_map.1 htask
    exact step.namesDistinct_run hk (hd document hdocument) hrun
  dsimp only at h
  split at h
  · cases h
    exact hkept
  · cases h
    exact hkept

end PathDoc

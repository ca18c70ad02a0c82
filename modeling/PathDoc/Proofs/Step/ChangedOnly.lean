import PathDoc.Proofs.Find.Replacement
import PathDoc.Proofs.Find.Topmost
import PathDoc.Step.Basic

/-!
# Dropping documents without a match

A search that writes at its matches can be asked to drop a document that it did not change. Whether
it did is read off the record of its batch, which holds the writes that landed, while a search for
the existence of a match only walks. The two agree: the first write of a search goes to a node of
the document as it was, where a value can always be stored (`Navigator.exists_write_of_get`) and a
removal either lands or fails for good (`Navigator.batch_remove_cases`); later writes only add to
the record (`Batch.checkpoint_le_of_writeEach`). `Batch.Searched` collects what this says about the
outcome of a search, and `Step.run_changedOnly` what it means for a step.
-/

set_option autoImplicit false

namespace PathDoc

/-! ## Storing where a value is -/

namespace Document

/-- A slot that is taken takes another value. -/
theorem exists_store_existing {node old : Document} {slot : Slot} (h : node.at? slot = some old)
    (value : Document) : ∃ written, node.store (.existing slot) value = .ok written := by
  by_cases hk : node.kind = .set
  · cases node with
    | set members =>
        cases slot with
        | entry name => cases h
        | child i =>
            -- the member is replaced or merged with an equal one
            have hi : members[i]? = some old := h
            simp only [store, hi]
            split <;> exact ⟨_, rfl⟩
    | _ => cases hk
  · exact ⟨_, store_of_some hk h⟩

end Document

namespace Navigator

variable {navigator : Navigator}

theorem exists_descend_set {path : Path} {parents : List Token} {last : Token}
    {node current : Document} (h : navigator.follow path node (parents ++ [last]) = .ok current)
    (value : Document) :
    ∃ written, navigator.descend path
      (fun node => navigator.applyLast path last node (.set (.value value))) node parents =
        .ok written := by
  -- the last token leads to a child, so its value is stored in place of that child
  obtain ⟨container, hfollow, slot, hc⟩ := follow_concat.1 h
  obtain ⟨hl, ha⟩ := child_eq_ok_iff.1 hc
  obtain ⟨written, hw⟩ := Document.exists_store_existing ha value
  have ht : navigator.target container last = .ok (.existing slot) := by rw [target, hl]
  refine exists_descend_iff.2 ⟨container, hfollow, written, ?_⟩
  simp only [applyLast, ht, valueFor, hw]
  rfl

/-- **Where a value can be read another one can be stored.** -/
theorem exists_write_of_get {document current : Document} {path : Path}
    (h : navigator.get document path = .ok current) (value : Document) :
    ∃ written, navigator.write document path (.set (.value value)) = .ok written := by
  rcases List.eq_nil_or_concat path with rfl | ⟨parents, last, rfl⟩
  · exact ⟨_, rfl⟩
  · rw [List.concat_eq_append] at h ⊢
    simp only [write, List.getLast?_concat, List.dropLast_concat]
    exact exists_descend_set h value

end Navigator

/-! ## The record of a search -/

namespace Batch

variable {skipMissing : Bool}

section

variable {α : Type} {write : Batch → α → Outcome Batch} {batch last : Batch} {items : List α}
  {error : Error}

/-- Writes one after the other take nothing out of the record. -/
theorem checkpoint_le_of_writeEach
    (hw : ∀ {batch item next}, write batch item = .ok next → batch.checkpoint < next.checkpoint)
    (h : writeEach skipMissing write batch items = .ok last) :
    batch.checkpoint ≤ last.checkpoint := by
  induction items generalizing batch with
  | nil =>
      cases h
      exact le_rfl
  | cons item rest ih =>
      rw [writeEach] at h
      cases hi : write batch item with
      | ok next =>
          rw [hi] at h
          exact (hw hi).le.trans (ih h)
      | error failure =>
          simp only [hi] at h
          split at h
          · exact ih h
          · cases h

/-- What ends a run of writes is no failure that is passed over. -/
theorem not_passed_of_writeEach
    (h : writeEach skipMissing write batch items = .error (last, error)) :
    (skipMissing && error.isMissingPath) = false := by
  induction items generalizing batch with
  | nil => cases h
  | cons item rest ih =>
      rw [writeEach] at h
      cases hi : write batch item with
      | ok next =>
          rw [hi] at h
          exact ih h
      | error failure =>
          simp only [hi] at h
          split at h
          · exact ih h
          · rename_i hpass
            cases h
            exact Bool.eq_false_iff.2 hpass

end

/-- What a search that writes comes to: the record grows exactly if something was found, and only
then the search can fail, with nothing that is to be passed over. -/
structure Searched (skipMissing found : Bool) (outcome : Except (Batch × Error) Batch) : Prop where
  /-- A search that succeeds has written exactly if it found something. -/
  grew : ∀ last, outcome = .ok last → last.grew 0 = found
  /-- A search that fails has found something. -/
  failed : ∀ last error, outcome = .error (last, error) →
    found = true ∧ (skipMissing && error.isMissingPath) = false

/-- **A run of writes is a search for its items** if the first write lands or fails for good. -/
theorem searched_writeEach {α : Type} {write : Batch → α → Outcome Batch} {batch : Batch}
    {items : List α} (hb : batch.written = [])
    (hw : ∀ {batch item next}, write batch item = .ok next → batch.checkpoint < next.checkpoint)
    (hfirst : ∀ first ∈ items.head?, (∃ next, write batch first = .ok next) ∨
      ∃ error, write batch first = .error error ∧ error.isMissingPath = false) :
    Searched skipMissing (!items.isEmpty) (writeEach skipMissing write batch items) := by
  cases items with
  -- no items, no writes
  | nil =>
      constructor
      · rintro last ⟨⟩
        simp [grew, hb]
      · rintro last error ⟨⟩
  | cons first rest =>
      -- the first write lands and counts, or fails and ends the run
      refine ⟨fun last h => ?_, fun last error h => ⟨rfl, not_passed_of_writeEach h⟩⟩
      rw [writeEach] at h
      rcases hfirst first rfl with ⟨next, hnext⟩ | ⟨error, herror, hm⟩
      · rw [hnext] at h
        have hgrows : batch.checkpoint < last.checkpoint :=
          (hw hnext).trans_le (checkpoint_le_of_writeEach hw h)
        exact decide_eq_true (Nat.zero_lt_of_lt hgrows)
      · simp [herror, hm] at h

theorem checkpoint_set {batch next : Batch} {path : Path} {replacement : Replacement}
    (h : batch.set path replacement = .ok next) : batch.checkpoint < next.checkpoint := by
  obtain ⟨effect, -, rfl⟩ := map_eq_ok_iff.1 h
  simp [checkpoint, record]

theorem checkpoint_remove {batch next : Batch} {path : Path}
    (h : (batch.remove path).map Prod.snd = .ok next) : batch.checkpoint < next.checkpoint := by
  obtain ⟨removed, hremoved, rfl⟩ := map_eq_ok_iff.1 h
  obtain ⟨effect, -, rfl⟩ := map_eq_ok_iff.1 hremoved
  simp [checkpoint, record]

variable {navigator : Navigator} {matcher : Match.ValueMatcher} {document : Document}

/-- **A search that replaces writes if it finds something.** -/
theorem searched_replaceMatches (hd : document.namesDistinct = true) (value : Document)
    (options : SearchOptions) :
    Searched options.skipMissing (!(matcher.topmost document options).isEmpty)
      ((start navigator document).replaceMatches matcher (.value value) options) := by
  refine searched_writeEach rfl checkpoint_set fun found hfound => Or.inl ?_
  have hnode : document.nodeAt? found.1 = some found.2 :=
    Traversal.nodeAt?_of_mem_findPaths hd (List.mem_of_head? hfound)
  have hget : navigator.get document found.1 = .ok found.2 :=
    Navigator.follow_of_nodeAt? found.1 hnode
  rw [Match.ValueMatcher.replacementFor_value, set]
  obtain ⟨effect, heffect⟩ :=
    Navigator.exists_write_of_get hget (matcher.replacementValue value found.2)
  exact ⟨_, map_eq_ok_iff.2 ⟨effect, heffect, rfl⟩⟩

/-- **A search that removes writes or fails if it finds something.** -/
theorem searched_removeMatches (hd : document.namesDistinct = true) (options : SearchOptions) :
    Searched options.skipMissing (!(matcher.topmost document options).isEmpty)
      ((start navigator document).removeMatches matcher options) := by
  have hempty : (matcher.topmost document options).isEmpty =
      (matcher.removals document options).isEmpty := by
    rw [Bool.eq_iff_iff, List.isEmpty_iff_length_eq_zero, List.isEmpty_iff_length_eq_zero,
      Match.ValueMatcher.removals, List.length_mergeSort, List.length_map]
  rw [hempty]
  refine searched_writeEach rfl checkpoint_remove fun path hpath => ?_
  have hnode : (document.nodeAt? path).isSome = true := Traversal.exists_nodeAt?_of_isTopmost
    ((Match.ValueMatcher.mem_removals_iff hd).1 (List.mem_of_head? hpath))
  -- nothing has been removed before the first removal
  have hstart : (start navigator document).document = document.without fun _ => false :=
    document.without_none.symm
  rcases Navigator.batch_remove_cases hd hstart hnode
      (fun _ h => absurd h Bool.false_ne_true) with ⟨error, he, hw⟩ | ⟨-, removed, hw, -⟩
  · exact Or.inr ⟨error, by rw [hw]; rfl, Document.isMissingPath_removalError? he⟩
  · exact Or.inl ⟨removed.2, by rw [hw]; rfl⟩

end Batch

/-! ## Steps -/

namespace Step

open Batch

/-- What a step makes of a search that drops unchanged documents, and of the same search without
this. -/
theorem dropMissing_finished {skipMissing found : Bool} {outcome : Except (Batch × Error) Batch}
    (h : Searched skipMissing found outcome) :
    (dropMissing skipMissing (finished true outcome) = .ok none ↔ found = false) ∧
      (found = true → dropMissing skipMissing (finished true outcome) =
        dropMissing skipMissing (finished false outcome)) := by
  cases outcome with
  | ok last =>
      have hgrew := h.grew last rfl
      cases found with
      | false => simp [finished, hgrew, dropMissing]
      | true => simp [finished, hgrew, dropMissing]
  | error failure =>
      obtain ⟨last, error⟩ := failure
      obtain ⟨rfl, hpass⟩ := h.failed last error rfl
      simp [finished, dropMissing, hpass]

/-- **A step that keeps changed documents only drops exactly those without a match.** For every
context, matcher, value to be written and setting for missing paths, in the step or in the
configuration: a step that replaces or removes the matches of a document and keeps changed documents
only drops the document exactly if a search with the same walk, whatever it is to give back, finds
nothing; otherwise its result or error is that of the same step without the restriction. -/
theorem run_changedOnly (context : Context) (matcher : Match.ValueMatcher) (value : Document)
    (skipMissing : Option Bool) {document : Document} (hd : document.namesDistinct = true) :
    ∀ search ∈ ([.findReplace matcher (.value value), .findRemove matcher] : List (Bool → Action)),
      ∀ (wanted : Wanted) (skips : Bool),
        let found := (matcher.find document wanted ⟨skips, context.config.walk⟩).found
        ((action (search true) skipMissing).run context document = .ok none ↔ found = false) ∧
          (found = true → (action (search true) skipMissing).run context document =
            (action (search false) skipMissing).run context document) := by
  intro search hsearch wanted skips found
  let options := context.search (skipMissing.getD context.config.skipMissing)
  have hfound : found = !(matcher.topmost document options).isEmpty :=
    Match.ValueMatcher.found_find matcher hd wanted _
  rw [run, run, hfound]
  rcases List.mem_pair.1 hsearch with rfl | rfl
  · exact dropMissing_finished (searched_replaceMatches hd value options)
  · exact dropMissing_finished (searched_removeMatches hd options)

/-- The write at the only match of a set merges two of its members, which counts as a change; with a
text in the place of the match there is none. -/
theorem run_changedOnly_merged :
    let matcher : Match.ValueMatcher := ⟨[⟨false, .predicate fun node => node.int?.isSome⟩], false⟩
    let search : Bool → Action := .findReplace matcher (.value (.string "y"))
    let changed : Step := action (search true) (some true)
    let document : Document := .set [.int 1, .string "y"]
    let other : Document := .set [.string "x", .string "y"]
    (document.namesDistinct = true ∧ other.namesDistinct = true) ∧
      search ∈ ([.findReplace matcher (.value (.string "y")), .findRemove matcher] :
        List (Bool → Action)) ∧
      changed.run .standard document = (action (search false) (some true)).run .standard document ∧
      changed.run .standard document ≠ .ok none ∧
      changed.run .standard other = .ok none := by
  intro matcher search changed document other
  have hd : document.namesDistinct = true := by decide
  have ho : other.namesDistinct = true := by decide
  have hm : matcher.isMatch = fun node => node.int?.isSome := by
    funext node
    simp [matcher, Match.ValueMatcher.isMatch, Match.Requirement.meets, Match.Check.passes]
  -- one member is an integer in the first set, none in the second
  have hfound : (matcher.find document .existence ⟨false, Context.standard.config.walk⟩).found =
      true := by
    simp [Match.ValueMatcher.find, hm, document, Findings.found, Context.standard, Config.standard,
      Config.walk, Traversal.contains, Traversal.walk, Traversal.walkFrom, Traversal.advance,
      Traversal.below, Traversal.expands, Document.children, Document.positions,
      Document.length?, Document.int?, Document.int, Document.string, Document.kind]
  have hnone : (matcher.find other .existence ⟨false, Context.standard.config.walk⟩).found =
      false := by
    simp [Match.ValueMatcher.find, hm, other, Findings.found, Context.standard, Config.standard,
      Config.walk, Traversal.contains, Traversal.walk, Traversal.walkFrom, Traversal.advance,
      Traversal.below, Traversal.expands, Document.children, Document.positions,
      Document.length?, Document.int?, Document.string, Document.kind]
  obtain ⟨hdrops, hsame⟩ := run_changedOnly .standard matcher (.string "y") (some true) hd search
    List.mem_cons_self .existence false
  obtain ⟨hother, -⟩ := run_changedOnly .standard matcher (.string "y") (some true) ho search
    List.mem_cons_self .existence false
  refine ⟨⟨hd, ho⟩, List.mem_cons_self, hsame hfound, fun h => ?_, hother.2 hnone⟩
  cases hfound.symm.trans (hdrops.1 h)

end Step

end PathDoc

import PathDoc.Proofs.Write.Frame
import PathDoc.Step.Basic

/-!
# Failures of the caller's functions

A step calls two kinds of functions of the caller: functions as steps, and functions that compute
the value to write from the value at the same path. `Step.raised` lists what they fail with during a
run, each failure with the operation or function it came up in; it misses none (`Step.run_hushed`).

A failure that is no missing path, or that comes up where missing paths are not skipped, is the
failure of the whole run. A missing path that a writing function reports to an operation that skips
missing paths is absorbed like any other missing path (`Step.run_of_mem_raised`): a write then drops
the document and a search leaves its match as it was (`Step.not_run_of_mem_raised_skipped`).
-/

set_option autoImplicit false

namespace PathDoc

namespace Navigator

variable {navigator : Navigator}

/-- The walk to a write that computes its value ends in the function. -/
theorem descend_compute {path : Path} {parents : List Token} {last : Token}
    {node current : Document} (h : navigator.follow path node (parents ++ [last]) = .ok current)
    (f : Document → Outcome Document) :
    navigator.descend path
        (fun node => navigator.applyLast path last node (.set (.compute f))) node parents =
      (f current).bind fun value =>
        navigator.descend path
          (fun node => navigator.applyLast path last node (.set (.value value))) node parents := by
  obtain ⟨container, hfollow, slot, hc⟩ := follow_concat.1 h
  -- the container has a child there, so the write targets that child
  have hlast : navigator.applyLast path last container (.set (.compute f)) =
      (f current).bind fun value =>
        navigator.applyLast path last container (.set (.value value)) := by
    obtain ⟨hl, ha⟩ := child_eq_ok_iff.1 hc
    have ht : navigator.target container last = .ok (.existing slot) := by rw [target, hl]
    simp only [applyLast, ht, valueFor, ha]
    cases f current <;> rfl
  simp only [descend_eq, hfollow, bind, Except.bind, hlast]
  cases f current <;> rfl

/-- **A function that computes a value to write is given the value at the path**, and what it gives
back is written there. -/
theorem write_compute {document current : Document} {path : Path}
    (h : navigator.get document path = .ok current) (f : Document → Outcome Document) :
    navigator.write document path (.set (.compute f)) =
      (f current).bind fun value => navigator.write document path (.set (.value value)) := by
  rcases List.eq_nil_or_concat path with rfl | ⟨parents, last, rfl⟩
  · cases h
    rw [write]
    cases hf : f document with
    | error error => simp [applyRoot, hf, Except.map, Except.bind]
    | ok value => simp [applyRoot, hf, Except.map, Except.bind, write]
  · rw [List.concat_eq_append] at h ⊢
    simp only [write, List.getLast?_concat, List.dropLast_concat]
    exact descend_compute h f

/-- The walk to a write that computes its value does not reach the function where no value is. -/
theorem descend_compute_of_error {path : Path} {parents : List Token} {last : Token}
    {node : Document} {error : Error}
    (h : navigator.follow path node (parents ++ [last]) = .error error)
    (f g : Document → Outcome Document) :
    navigator.descend path
        (fun node => navigator.applyLast path last node (.set (.compute f))) node parents =
      navigator.descend path
        (fun node => navigator.applyLast path last node (.set (.compute g))) node parents := by
  cases hfollow : navigator.follow path node parents with
  | error failure => simp only [descend_eq, hfollow, bind, Except.bind]
  | ok container =>
      have hnone : ∀ slot child, navigator.child container last ≠ .ok (slot, child) := by
        intro slot child hc
        cases h.symm.trans (follow_concat.2 ⟨container, hfollow, slot, hc⟩)
      have hlast : navigator.applyLast path last container (.set (.compute f)) =
          navigator.applyLast path last container (.set (.compute g)) := by
        simp only [applyLast]
        cases ht : navigator.target container last with
        | error miss => rfl
        | ok target =>
            -- the function is called for a slot that exists only, and here it holds no value
            rcases target_cases ht with ⟨slot, rfl, hl⟩ | ⟨_, _, rfl, _⟩ | ⟨_, _, rfl, _⟩ |
              ⟨_, _, rfl, _⟩
            · cases ha : container.at? slot with
              | none => simp only [valueFor, ha]
              | some child => exact absurd (child_eq_ok_iff.2 ⟨hl, ha⟩) (hnone slot child)
            · rfl
            · rfl
            · rfl
      simp only [descend_eq, hfollow, bind, Except.bind, hlast]

/-- **A function that computes a value to write is not called where no value is.** -/
theorem write_compute_of_error {document : Document} {path : Path} {error : Error}
    (h : navigator.get document path = .error error) (f g : Document → Outcome Document) :
    navigator.write document path (.set (.compute f)) =
      navigator.write document path (.set (.compute g)) := by
  rcases List.eq_nil_or_concat path with rfl | ⟨parents, last, rfl⟩
  · cases h
  · rw [List.concat_eq_append] at h ⊢
    simp only [write, List.getLast?_concat, List.dropLast_concat]
    exact descend_compute_of_error h f g

end Navigator

/-! ## Writes -/

/-- What the function of a replacement fails with when it is written at a path. -/
def Replacement.raised (navigator : Navigator) (document : Document) (path : Path) :
    Replacement → List Error
  | value _ => []
  | compute f =>
    match navigator.get document path with
    | .error _ => []
    | .ok current =>
      match f current with
      | .error error => [error]
      | .ok _ => []

theorem Replacement.mem_raised_iff {navigator : Navigator} {document : Document} {path : Path}
    {replacement : Replacement} {error : Error} :
    error ∈ replacement.raised navigator document path ↔
      ∃ f current, replacement = .compute f ∧ navigator.get document path = .ok current ∧
        f current = .error error := by
  cases replacement with
  | value value => simp [raised]
  | compute f =>
      rw [raised]
      cases hg : navigator.get document path with
      | error failure => simp
      | ok current => cases hf : f current <;> simp [hf, eq_comm]

/-- **A write fails as its function does.** -/
theorem Navigator.write_of_mem_raised {navigator : Navigator} {document : Document} {path : Path}
    {replacement : Replacement} {error : Error}
    (h : error ∈ replacement.raised navigator document path) :
    navigator.write document path (.set replacement) = .error error := by
  obtain ⟨f, current, rfl, hget, hf⟩ := Replacement.mem_raised_iff.1 h
  rw [Navigator.write_compute hget, hf]
  rfl

namespace Batch

variable {skipMissing : Bool}

/-- What the functions of some writes fail with when these are carried out one after the other. -/
def raisedEach (skipMissing : Bool) : Batch → List (Path × Replacement) → List Error
  | _, [] => []
  | batch, (path, replacement) :: rest =>
    replacement.raised batch.navigator batch.document path ++
      match batch.set path replacement with
      | .ok next => raisedEach skipMissing next rest
      | .error error =>
        if skipMissing && error.isMissingPath then raisedEach skipMissing batch rest else []

/-- Carries out writes one after the other. -/
def setEach (skipMissing : Bool) :
    Batch → List (Path × Replacement) → Except (Batch × Error) Batch :=
  writeEach skipMissing fun batch write => batch.set write.1 write.2

theorem set_of_mem_raised {batch : Batch} {path : Path} {replacement : Replacement} {error : Error}
    (h : error ∈ replacement.raised batch.navigator batch.document path) :
    batch.set path replacement = .error error := by
  rw [set, Navigator.write_of_mem_raised h]
  rfl

/-- **Writes one after the other fail as their functions do**, unless the failure is passed over. -/
theorem setEach_of_mem_raisedEach {batch : Batch} {writes : List (Path × Replacement)}
    {error : Error} (h : error ∈ raisedEach skipMissing batch writes)
    (ha : (skipMissing && error.isMissingPath) = false) :
    ∃ last, setEach skipMissing batch writes = .error (last, error) := by
  -- induction on the writes; the first one fails with the error, or it comes up later
  induction writes generalizing batch with
  | nil => cases h
  | cons write rest ih =>
      obtain ⟨path, replacement⟩ := write
      rw [raisedEach, List.mem_append] at h
      rw [setEach, writeEach]
      rcases h with h | h
      · rw [set_of_mem_raised h]
        exact ⟨batch, by simp [ha]⟩
      · cases hs : batch.set path replacement with
        | ok next =>
            rw [hs] at h
            exact ih h
        | error failure =>
            simp only [hs] at h
            cases hskip : skipMissing && failure.isMissingPath with
            | false => simp [hskip] at h
            | true =>
                rw [hskip, if_pos rfl] at h
                simp only [hskip, if_true]
                exact ih h

end Batch

namespace Action

variable {context : Context} {skipMissing : Bool} {document : Document}

/-- The writes of a search that replaces what it finds. -/
def replacements (matcher : Match.ValueMatcher) (replacement : Replacement)
    (options : SearchOptions) (document : Document) : List (Path × Replacement) :=
  (matcher.topmost document options).map fun found =>
    (found.1, matcher.replacementFor replacement found.2)

/-- What the functions in an operation fail with. -/
def raised (context : Context) (skipMissing : Bool) (document : Document) : Action → List Error
  | set path replacement => replacement.raised context.navigator document path
  | findReplace matcher replacement _ =>
    Batch.raisedEach skipMissing (.start context.navigator document)
      (replacements matcher replacement (context.search skipMissing) document)
  | _ => []

end Action

namespace Batch

theorem replaceMatches_eq_setEach (batch : Batch) (matcher : Match.ValueMatcher)
    (replacement : Replacement) (options : SearchOptions) :
    batch.replaceMatches matcher replacement options =
      batch.setEach options.skipMissing
        (Action.replacements matcher replacement options batch.document) := by
  rw [replaceMatches, setEach, Action.replacements]
  generalize matcher.topmost batch.document options = found
  induction found generalizing batch with
  | nil => rfl
  | cons first rest ih =>
      rw [List.map_cons, writeEach, writeEach]
      simp only [ih]

end Batch

namespace Action

variable {context : Context} {skipMissing : Bool} {document : Document}

/-- **An operation fails as its functions do**, unless the failure is passed over. -/
theorem run_eq_error_of_mem_raised {action : Action} {error : Error}
    (h : error ∈ action.raised context skipMissing document)
    (ha : (skipMissing && error.isMissingPath) = false) :
    action.run context skipMissing document = .error error := by
  cases action with
  | set path replacement =>
      rw [run, Navigator.set, Navigator.write_of_mem_raised h]
      rfl
  | findReplace matcher replacement changedOnly =>
      obtain ⟨last, hlast⟩ := Batch.setEach_of_mem_raisedEach h ha
      rw [run, Batch.replaceMatches_eq_setEach]
      exact congrArg (Batch.finished changedOnly) hlast
  | _ => cases h

end Action

/-! ## Steps -/

namespace Step

variable {context : Context}

mutual

/-- The operations and functions that are carried out with a step, each with its document. -/
def leaves (context : Context) : Step → Document → List (Step × Document)
  | action operation skipMissing, document => [(action operation skipMissing, document)]
  | function f arguments, document => [(function f arguments, document)]
  | chain steps, document => leavesAll context steps document
  | raw step, document => leaves context step document

/-- The operations and functions that are carried out with steps one after the other. -/
def leavesAll (context : Context) : List Step → Document → List (Step × Document)
  | [], _ => []
  | step :: rest, document =>
    leaves context step document ++
      match run context step document with
      | .ok (some next) => leavesAll context rest next
      | _ => []

end

mutual

/-- **What fails an operation or a function fails the step.** -/
theorem run_of_mem_leaves {error : Error} :
    ∀ (step : Step) {document : Document} {leaf : Step × Document},
      leaf ∈ step.leaves context document → leaf.1.run context leaf.2 = .error error →
        step.run context document = .error error
  | action operation skipMissing, document, leaf, hm, h => by
      cases List.mem_singleton.1 hm
      exact h
  | function f arguments, document, leaf, hm, h => by
      cases List.mem_singleton.1 hm
      exact h
  | chain steps, document, leaf, hm, h => by
      rw [run]
      exact runAll_of_mem_leavesAll steps hm h
  | raw step, document, leaf, hm, h => by
      rw [run]
      exact run_of_mem_leaves step hm h

/-- What fails an operation or a function fails the steps around it. -/
theorem runAll_of_mem_leavesAll {error : Error} :
    ∀ (steps : List Step) {document : Document} {leaf : Step × Document},
      leaf ∈ leavesAll context steps document → leaf.1.run context leaf.2 = .error error →
        runAll context steps document = .error error
  | [], document, leaf, hm, h => by cases hm
  | step :: rest, document, leaf, hm, h => by
      rw [leavesAll, List.mem_append] at hm
      rw [runAll]
      rcases hm with hm | hm
      · rw [run_of_mem_leaves step hm h]
      · -- the failure comes up behind a step that kept the document
        rcases hs : step.run context document with failure | _ | next
        · simp [hs] at hm
        · simp [hs] at hm
        · rw [hs] at hm
          exact runAll_of_mem_leavesAll rest hm h

end

/-- What the function of the caller in an operation or in a function as a step fails with. -/
def raisedHere (context : Context) : Step → Document → List Error
  | action operation skipMissing, document =>
    operation.raised context (skipMissing.getD context.config.skipMissing) document
  | function f arguments, document =>
    match f document arguments with
    | .error error => [error]
    | .ok _ => []
  | _, _ => []

/-- Whether a step drops a document on a missing path. -/
def skipsMissing (context : Context) : Step → Bool
  | action _ skipMissing => skipMissing.getD context.config.skipMissing
  | _ => false

end Step

/-- A failure of a function of the caller. -/
structure Failure where
  /-- The operation or function that failed. -/
  leaf : Step
  /-- The document it was carried out on. -/
  document : Document
  /-- What the function failed with. -/
  error : Error

/-- Whether a failure is taken for a missing path that is skipped. -/
def Failure.isAbsorbed (context : Context) (failure : Failure) : Bool :=
  failure.leaf.skipsMissing context && failure.error.isMissingPath

namespace Step

variable {context : Context}

/-- What the functions of the caller fail with while a step is carried out. -/
def raised (context : Context) (step : Step) (document : Document) : List Failure :=
  (step.leaves context document).flatMap fun leaf =>
    (leaf.1.raisedHere context leaf.2).map (Failure.mk leaf.1 leaf.2)

theorem mem_raised_iff {step : Step} {document : Document} {failure : Failure} :
    failure ∈ step.raised context document ↔
      (failure.leaf, failure.document) ∈ step.leaves context document ∧
        failure.error ∈ failure.leaf.raisedHere context failure.document := by
  rw [raised, List.mem_flatMap]
  constructor
  · rintro ⟨leaf, hleaf, hm⟩
    obtain ⟨error, he, rfl⟩ := List.mem_map.1 hm
    exact ⟨hleaf, he⟩
  · rintro ⟨hleaf, he⟩
    exact ⟨_, hleaf, List.mem_map_of_mem he⟩

theorem dropMissing_eq_error_iff {skip : Bool} {outcome : Outcome (Option Document)}
    {error : Error} :
    dropMissing skip outcome = .error error ↔
      outcome = .error error ∧ (skip && error.isMissingPath) = false := by
  cases outcome with
  | ok result => simp [dropMissing]
  | error failure =>
      rw [dropMissing]
      -- only an error that is skipped is dropped
      cases hskip : skip && failure.isMissingPath with
      | false =>
          constructor
          · intro h
            cases h
            exact ⟨rfl, hskip⟩
          · rintro ⟨h, -⟩
            exact h
      | true =>
          constructor
          · intro h
            cases h
          · rintro ⟨h, ha⟩
            cases h
            cases hskip.symm.trans ha

/-- **A failure in an operation or in a function is its failure, unless it is absorbed.** -/
theorem run_leaf_eq_error_iff {leaf : Step} {document : Document} {error : Error}
    (h : error ∈ leaf.raisedHere context document) :
    leaf.run context document = .error error ↔
      (leaf.skipsMissing context && error.isMissingPath) = false := by
  cases leaf with
  | action operation skipMissing =>
      rw [run, dropMissing_eq_error_iff]
      exact ⟨fun hrun => hrun.2, fun ha => ⟨Action.run_eq_error_of_mem_raised h ha, ha⟩⟩
  | function f arguments =>
      rw [raisedHere] at h
      cases hf : f document arguments with
      | ok result => simp [hf] at h
      | error failure =>
          rw [hf] at h
          cases List.mem_singleton.1 h
          exact ⟨fun _ => rfl, fun _ => by rw [run, hf]⟩
  | chain steps => cases h
  | raw step => cases h

/-- **Failures of the caller's functions get through unless they are absorbed.** Whatever a function
of the caller fails with while a step is carried out, be it a function as a step or one that
computes a value to write, in any nesting of chains and under any settings, is what the operation
that called it fails with exactly if it is not absorbed, that is, if it is no missing path or
missing paths are not skipped there; and then it is what the whole step fails with. -/
theorem run_of_mem_raised {step : Step} {document : Document} {failure : Failure}
    (h : failure ∈ step.raised context document) :
    (failure.leaf.run context failure.document = .error failure.error ↔
        failure.isAbsorbed context = false) ∧
      (failure.isAbsorbed context = false →
        step.run context document = .error failure.error) := by
  obtain ⟨hleaf, he⟩ := mem_raised_iff.1 h
  have hrun := run_leaf_eq_error_iff he
  exact ⟨hrun, fun ha => run_of_mem_leaves step hleaf (hrun.2 ha)⟩

/-- A missing path that a function reports inside a chain, where the operation does not skip missing
paths although the configuration does. -/
theorem run_of_mem_raised_nested :
    let context : Context :=
      { Context.standard with config := { Config.standard with skipMissing := true } }
    let missing : Error := .navigation "p" "t" "raised by user"
    let document : Document := .mapping [("a", .int 1)]
    let leaf : Step := .action (.set [.key "a"] (.compute fun _ => .error missing)) (some false)
    let step : Step := .chain [.ofAction (.get [] false), .chain [leaf]]
    ⟨leaf, document, missing⟩ ∈ step.raised context document ∧
      step.run context document = .error missing := by
  intro context missing document leaf step
  have h : ⟨leaf, document, missing⟩ ∈ step.raised context document :=
    List.mem_singleton.2 rfl
  exact ⟨h, (run_of_mem_raised h).2 rfl⟩

/-- The one number in a mapping is the one match of a search for numbers. -/
theorem topmost_integer :
    Match.ValueMatcher.topmost ⟨[⟨false, .predicate fun node => node.int?.isSome⟩], false⟩
      (.mapping [("a", .int 1)]) (Context.standard.search true) = [([.key "a"], .int 1)] := by
  have hm : Match.ValueMatcher.isMatch ⟨[⟨false, .predicate fun node => node.int?.isSome⟩], false⟩ =
      fun node => node.int?.isSome := by
    funext node
    simp [Match.ValueMatcher.isMatch, Match.Requirement.meets, Match.Check.passes]
  rw [Match.ValueMatcher.topmost, hm]
  simp [Context.search, Context.standard, Config.standard, Config.search, Config.walk,
    Traversal.findPaths, Traversal.walk, Traversal.walkFrom, Traversal.advance, Traversal.below,
    Traversal.expands, Document.children, Document.length?, Document.int?, Document.int,
    Document.kind]

/-- A missing path that a function reports to an operation that skips missing paths: a write drops
the document, and a search that replaces what it finds leaves the match as it was. -/
theorem not_run_of_mem_raised_skipped :
    let missing : Error := .navigation "p" "t" "raised by user"
    let document : Document := .mapping [("a", .int 1)]
    let fails : Replacement := .compute fun _ => .error missing
    let integers : Match.ValueMatcher := ⟨[⟨false, .predicate fun node => node.int?.isSome⟩], false⟩
    let set : Step := .action (.set [.key "a"] fails) (some true)
    let replace : Step := .action (.findReplace integers fails false) (some true)
    (⟨set, document, missing⟩ ∈ set.raised .standard document ∧
        set.run .standard document = .ok none) ∧
      (⟨replace, document, missing⟩ ∈ replace.raised .standard document ∧
        replace.run .standard document = .ok (some document)) := by
  intro missing document fails integers set replace
  -- the search finds the only integer and writes there
  have hwrites : Action.replacements integers fails (Context.standard.search true) document =
      [([.key "a"], fails)] := by
    rw [Action.replacements, topmost_integer]
    rfl
  refine ⟨⟨List.mem_singleton.2 rfl, rfl⟩, mem_raised_iff.2 ⟨List.mem_singleton.2 rfl, ?_⟩, ?_⟩
  · change missing ∈ Batch.raisedEach true _
      (Action.replacements integers fails (Context.standard.search true) document)
    rw [hwrites]
    exact List.mem_singleton.2 rfl
  · rw [run, Action.run, Batch.replaceMatches_eq_setEach]
    change dropMissing true (Batch.finished false (Batch.setEach true _
      (Action.replacements integers fails (Context.standard.search true) document))) = _
    rw [hwrites]
    rfl

end Step

/-! ## Runs without failures -/

/-- An outcome with a value in the place of a failure. -/
def hush {α : Type} (value : α) : Outcome α → α
  | .error _ => value
  | .ok result => result

namespace Replacement

/-- The replacement with a function that never fails. -/
def hushed : Replacement → Replacement
  | value v => value v
  | compute f => compute fun current => .ok (hush .null (f current))

end Replacement

/-- A write in which no function fails does not depend on what the function fails with elsewhere. -/
theorem Navigator.write_hushed {navigator : Navigator} {document : Document} {path : Path}
    {replacement : Replacement} (h : replacement.raised navigator document path = []) :
    navigator.write document path (.set replacement.hushed) =
      navigator.write document path (.set replacement) := by
  cases replacement with
  | value value => rfl
  | compute f =>
      rw [Replacement.raised] at h
      rw [Replacement.hushed]
      cases hg : navigator.get document path with
      | error error => exact Navigator.write_compute_of_error hg ..
      | ok current =>
          rw [Navigator.write_compute hg, Navigator.write_compute hg]
          cases hf : f current with
          | error error => simp [hg, hf] at h
          | ok value => rfl

/-- Writes in which no function fails do not depend on what the functions fail with elsewhere. -/
theorem Batch.setEach_hushed {skipMissing : Bool} {batch : Batch}
    {writes : List (Path × Replacement)} (h : raisedEach skipMissing batch writes = []) :
    setEach skipMissing batch (writes.map fun write => (write.1, write.2.hushed)) =
      setEach skipMissing batch writes := by
  induction writes generalizing batch with
  | nil => rfl
  | cons write rest ih =>
      obtain ⟨path, replacement⟩ := write
      rw [raisedEach, List.append_eq_nil_iff] at h
      have hset : batch.set path replacement.hushed = batch.set path replacement := by
        rw [set, set, Navigator.write_hushed h.1]
      simp only [setEach, List.map_cons, writeEach, hset]
      cases hs : batch.set path replacement with
      | ok next =>
          rw [hs] at h
          exact ih h.2
      | error failure =>
          -- a failure that is passed over leaves the batch for the writes behind it
          cases hskip : skipMissing && failure.isMissingPath with
          | false => simp [hskip]
          | true =>
              simp only [hs, hskip, if_true] at h
              simp only [hskip, if_true]
              exact ih h.2

namespace Action

variable {context : Context} {skipMissing : Bool} {document : Document}

/-- The operation with functions that never fail. -/
def hushed : Action → Action
  | set path replacement => set path replacement.hushed
  | findReplace matcher replacement changedOnly =>
    findReplace matcher replacement.hushed changedOnly
  | action => action

theorem replacements_hushed (matcher : Match.ValueMatcher) (replacement : Replacement)
    (options : SearchOptions) (document : Document) :
    replacements matcher replacement.hushed options document =
      (replacements matcher replacement options document).map fun write =>
        (write.1, write.2.hushed) := by
  have h : ∀ value, matcher.replacementFor replacement.hushed value =
      (matcher.replacementFor replacement value).hushed := by
    intro value
    cases replacement with
    | compute f => rfl
    | value stored =>
        unfold Match.ValueMatcher.replacementFor
        dsimp only [Replacement.hushed]
        split
        · split <;> rfl
        · rfl
  rw [replacements, replacements, List.map_map]
  simp only [h]
  rfl

/-- An operation in which no function fails does not depend on what it fails with elsewhere. -/
theorem run_hushed {action : Action} (h : action.raised context skipMissing document = []) :
    action.hushed.run context skipMissing document = action.run context skipMissing document := by
  cases action with
  | set path replacement =>
      rw [hushed, run, run, Navigator.set, Navigator.set, Navigator.write_hushed h]
  | findReplace matcher replacement changedOnly =>
      rw [hushed, run, run, Batch.replaceMatches_eq_setEach, Batch.replaceMatches_eq_setEach,
        replacements_hushed]
      exact congrArg (Batch.finished changedOnly) (Batch.setEach_hushed h)
  | _ => rfl

end Action

namespace Step

variable {context : Context}

mutual

/-- The step with functions that never fail. -/
def hushed : Step → Step
  | action operation skipMissing => action operation.hushed skipMissing
  | function f arguments =>
    function (fun document arguments => .ok (hush none (f document arguments))) arguments
  | chain steps => chain (hushedAll steps)
  | raw step => raw (hushed step)

/-- The steps with functions that never fail. -/
def hushedAll : List Step → List Step
  | [] => []
  | step :: rest => hushed step :: hushedAll rest

end

mutual

/-- The run of a step whose operations and functions have no failing function. -/
theorem run_hushed_of_leaves :
    ∀ (step : Step) {document : Document},
      (∀ leaf ∈ step.leaves context document, leaf.1.raisedHere context leaf.2 = []) →
        step.hushed.run context document = step.run context document
  | action operation skipMissing, document, h => by
      rw [hushed, run, run, Action.run_hushed (h _ (List.mem_singleton.2 rfl))]
  | function f arguments, document, h => by
      have hf := h _ (List.mem_singleton.2 rfl)
      rw [raisedHere] at hf
      rw [hushed, run, run]
      cases hr : f document arguments with
      | error error => simp [hr] at hf
      | ok result => rfl
  | chain steps, document, h => by
      rw [hushed, run, run]
      exact runAll_hushed_of_leaves steps h
  | raw step, document, h => by
      rw [hushed, run, run]
      exact run_hushed_of_leaves step h

/-- The run of steps whose operations and functions have no failing function. -/
theorem runAll_hushed_of_leaves :
    ∀ (steps : List Step) {document : Document},
      (∀ leaf ∈ leavesAll context steps document, leaf.1.raisedHere context leaf.2 = []) →
        runAll context (hushedAll steps) document = runAll context steps document
  | [], document, h => rfl
  | step :: rest, document, h => by
      rw [leavesAll, List.forall_mem_append] at h
      rw [hushedAll, runAll, runAll, run_hushed_of_leaves step h.1]
      rcases hs : step.run context document with error | _ | next
      · rfl
      · rfl
      · rw [hs] at h
        exact runAll_hushed_of_leaves rest h.2

end

/-- **No failure is missed.** A run that raises none is the run with functions that never fail. -/
theorem run_hushed {step : Step} {document : Document} (h : step.raised context document = []) :
    step.hushed.run context document = step.run context document := by
  apply run_hushed_of_leaves
  intro leaf hleaf
  rw [List.eq_nil_iff_forall_not_mem]
  intro error he
  have hm : ⟨leaf.1, leaf.2, error⟩ ∈ step.raised context document := mem_raised_iff.2 ⟨hleaf, he⟩
  rw [h] at hm
  cases hm

end Step

end PathDoc

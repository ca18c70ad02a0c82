import PathDoc.Proofs.Step.Failures

/-!
# Skipping missing paths

A step is carried out strictly if no part of it skips missing paths. A strict run that succeeds is
the run under any other setting (`Step.run_of_run_strict`): an operation looks at the setting only
after something failed, either one of its writes (`Batch.writeEach_of_strict`) or the operation as a
whole (`Step.dropMissing`). A setting of the step itself wins over the configuration
(`Step.run_skipping_skippingMissing`).

A step fails exactly if an operation or a function in it does (`Step.run_eq_error_iff`). Where
missing paths are skipped an operation reports none, so what is reported comes from a function of
the caller (`Step.exists_function_of_missing`).
-/

set_option autoImplicit false

namespace PathDoc

/-- A context whose configuration skips missing paths or not. -/
def Context.skipping (context : Context) (skip : Bool) : Context :=
  { context with config := { context.config with skipMissing := skip } }

/-! ## Operations -/

namespace Batch

/-- Writes that all succeed leave nothing to pass over. -/
theorem writeEach_of_strict {α : Type} {write : Batch → α → Outcome Batch} {batch last : Batch}
    {items : List α} (h : writeEach false write batch items = .ok last) (skipMissing : Bool) :
    writeEach skipMissing write batch items = .ok last := by
  induction items generalizing batch with
  | nil => exact h
  | cons item rest ih =>
      rw [writeEach] at h ⊢
      cases hw : write batch item with
      | error error =>
          rw [hw] at h
          cases h
      | ok next =>
          rw [hw] at h
          exact ih h

/-- A search has a result only if its writes succeed. -/
theorem exists_of_finished {changedOnly : Bool} {outcome : Except (Batch × Error) Batch}
    {result : Option Document} (h : finished changedOnly outcome = .ok result) :
    ∃ batch, outcome = .ok batch := by
  cases outcome with
  | error failure => cases h
  | ok batch => exact ⟨batch, rfl⟩

end Batch

/-- **What an operation gives strictly it gives under any setting.** -/
theorem Action.run_of_strict {context : Context} {action : Action} {document : Document}
    {result : Option Document} (h : action.run context false document = .ok result)
    (skipMissing : Bool) : action.run context skipMissing document = .ok result := by
  cases action with
  | findReplace matcher replacement changedOnly =>
      obtain ⟨last, hlast⟩ := Batch.exists_of_finished h
      have hskip := Batch.writeEach_of_strict hlast skipMissing
      rw [run, hlast] at h
      exact (congrArg (Batch.finished changedOnly) hskip).trans h
  | findRemove matcher changedOnly =>
      obtain ⟨last, hlast⟩ := Batch.exists_of_finished h
      have hskip := Batch.writeEach_of_strict hlast skipMissing
      rw [run, hlast] at h
      exact (congrArg (Batch.finished changedOnly) hskip).trans h
  | find matcher wanted =>
      -- a search without writes looks at the walk only
      rw [← h]
      cases wanted <;> rfl
  | _ => exact h

/-- An operation is told whether to skip missing paths and does not ask the configuration. -/
theorem Action.run_skipping (context : Context) (configured skipMissing : Bool)
    (document : Document) (action : Action) :
    action.run (context.skipping configured) skipMissing document =
      action.run context skipMissing document := by
  cases action <;> rfl

/-! ## Steps -/

namespace Step

variable {context : Context} {skip : Bool} {error : Error}

/-- Nothing is dropped by a strict run. -/
theorem dropMissing_false (outcome : Outcome (Option Document)) :
    dropMissing false outcome = outcome := by
  cases outcome <;> rfl

mutual

/-- **A strict run that succeeds is the run under any setting.** -/
theorem run_of_run_strict :
    ∀ (step : Step) {document : Document} {result : Option Document},
      (step.skippingMissing false).run context document = .ok result →
        step.run context document = .ok result
  | action operation skipMissing, document, result, h => by
      rw [skippingMissing, run, Option.getD_some, dropMissing_false] at h
      rw [run, Action.run_of_strict h]
      rfl
  | function f arguments, document, result, h => h
  | chain steps, document, result, h => by
      rw [skippingMissing, run] at h
      rw [run]
      exact runAll_of_runAll_strict steps h
  | raw step, document, result, h => by
      rw [skippingMissing, run] at h
      rw [run]
      exact run_of_run_strict step h

/-- Steps one after the other go the same way as in their strict run. -/
theorem runAll_of_runAll_strict :
    ∀ (steps : List Step) {document : Document} {result : Option Document},
      runAll context (skippingMissingAll false steps) document = .ok result →
        runAll context steps document = .ok result
  | [], document, result, h => h
  | step :: rest, document, result, h => by
      rw [skippingMissingAll, runAll] at h
      rw [runAll]
      rcases hs : (step.skippingMissing false).run context document with failure | _ | next
      · rw [hs] at h
        cases h
      · rw [hs] at h
        rw [run_of_run_strict step hs]
        exact h
      · rw [hs] at h
        rw [run_of_run_strict step hs]
        exact runAll_of_runAll_strict rest h

end

mutual

/-- The last setting counts. -/
theorem skippingMissing_skippingMissing (first last : Bool) :
    ∀ step : Step, (step.skippingMissing first).skippingMissing last = step.skippingMissing last
  | action operation skipMissing => rfl
  | function f arguments => rfl
  | chain steps => by
      rw [skippingMissing, skippingMissing, skippingMissing,
        skippingMissingAll_skippingMissingAll first last steps]
  | raw step => by
      rw [skippingMissing, skippingMissing, skippingMissing,
        skippingMissing_skippingMissing first last step]

/-- The last setting counts for each of several steps. -/
theorem skippingMissingAll_skippingMissingAll (first last : Bool) :
    ∀ steps : List Step,
      skippingMissingAll last (skippingMissingAll first steps) = skippingMissingAll last steps
  | [] => rfl
  | step :: rest => by
      rw [skippingMissingAll, skippingMissingAll, skippingMissingAll,
        skippingMissing_skippingMissing first last step,
        skippingMissingAll_skippingMissingAll first last rest]

end

mutual

/-- **An override wins over the configuration.** -/
theorem run_skipping_skippingMissing (configured : Bool) :
    ∀ (step : Step) (document : Document),
      (step.skippingMissing skip).run (context.skipping configured) document =
        (step.skippingMissing skip).run context document
  | action operation skipMissing, document => by
      rw [skippingMissing, run, run, Option.getD_some, Option.getD_some, Action.run_skipping]
  | function f arguments, document => rfl
  | chain steps, document => by
      rw [skippingMissing, run, run]
      exact runAll_skipping_skippingMissingAll configured steps document
  | raw step, document => by
      rw [skippingMissing, run, run]
      exact run_skipping_skippingMissing configured step document

/-- An override of several steps wins over the configuration. -/
theorem runAll_skipping_skippingMissingAll (configured : Bool) :
    ∀ (steps : List Step) (document : Document),
      runAll (context.skipping configured) (skippingMissingAll skip steps) document =
        runAll context (skippingMissingAll skip steps) document
  | [], document => rfl
  | step :: rest, document => by
      rw [skippingMissingAll, runAll, runAll, run_skipping_skippingMissing configured step]
      rcases (step.skippingMissing skip).run context document with failure | _ | next
      · rfl
      · rfl
      · exact runAll_skipping_skippingMissingAll configured rest next

end

mutual

/-- A step that fails holds an operation or a function that fails. -/
theorem exists_leaf_of_run_eq_error :
    ∀ (step : Step) {document : Document}, step.run context document = .error error →
      ∃ leaf ∈ step.leaves context document, leaf.1.run context leaf.2 = .error error
  | action operation skipMissing, document, h => ⟨_, List.mem_singleton.2 rfl, h⟩
  | function f arguments, document, h => ⟨_, List.mem_singleton.2 rfl, h⟩
  | chain steps, document, h => by
      rw [run] at h
      exact exists_leaf_of_runAll_eq_error steps h
  | raw step, document, h => by
      rw [run] at h
      exact exists_leaf_of_run_eq_error step h

/-- Steps that fail hold an operation or a function that fails. -/
theorem exists_leaf_of_runAll_eq_error :
    ∀ (steps : List Step) {document : Document}, runAll context steps document = .error error →
      ∃ leaf ∈ leavesAll context steps document, leaf.1.run context leaf.2 = .error error
  | [], document, h => by cases h
  | step :: rest, document, h => by
      rw [runAll] at h
      rw [leavesAll]
      rcases hs : step.run context document with failure | _ | next
      · rw [hs] at h
        cases h
        obtain ⟨leaf, hleaf, hrun⟩ := exists_leaf_of_run_eq_error step hs
        exact ⟨leaf, List.mem_append_left _ hleaf, hrun⟩
      · rw [hs] at h
        cases h
      · rw [hs] at h
        obtain ⟨leaf, hleaf, hrun⟩ := exists_leaf_of_runAll_eq_error rest h
        exact ⟨leaf, List.mem_append_right _ hleaf, hrun⟩

end

/-- **A step fails exactly if an operation or a function in it does.** -/
theorem run_eq_error_iff {step : Step} {document : Document} :
    step.run context document = .error error ↔
      ∃ leaf ∈ step.leaves context document, leaf.1.run context leaf.2 = .error error := by
  constructor
  · exact exists_leaf_of_run_eq_error step
  · rintro ⟨leaf, hleaf, h⟩
    exact run_of_mem_leaves step hleaf h

mutual

/-- Whether a step is made of operations only, without functions of the caller as steps. -/
def isBuiltIn : Step → Bool
  | action .. => true
  | function .. => false
  | chain steps => areBuiltIn steps
  | raw step => isBuiltIn step

/-- Whether steps are made of operations only. -/
def areBuiltIn : List Step → Bool
  | [] => true
  | step :: rest => isBuiltIn step && areBuiltIn rest

end

mutual

/-- What is carried out with a step whose setting was overridden: operations under that setting, and
functions if the step holds any. -/
theorem leaf_of_mem_skippingMissing :
    ∀ (step : Step) {document : Document} {leaf : Step × Document},
      leaf ∈ (step.skippingMissing skip).leaves context document →
        (∃ operation, leaf.1 = action operation (some skip)) ∨
          (∃ f arguments, leaf.1 = function f arguments) ∧ step.isBuiltIn = false
  | action operation skipMissing, document, leaf, h => by
      cases List.mem_singleton.1 h
      exact Or.inl ⟨operation, rfl⟩
  | function f arguments, document, leaf, h => by
      cases List.mem_singleton.1 h
      exact Or.inr ⟨⟨f, arguments, rfl⟩, rfl⟩
  | chain steps, document, leaf, h => leaf_of_mem_skippingMissingAll steps h
  | raw step, document, leaf, h => leaf_of_mem_skippingMissing step h

/-- What is carried out with steps whose setting was overridden. -/
theorem leaf_of_mem_skippingMissingAll :
    ∀ (steps : List Step) {document : Document} {leaf : Step × Document},
      leaf ∈ leavesAll context (skippingMissingAll skip steps) document →
        (∃ operation, leaf.1 = action operation (some skip)) ∨
          (∃ f arguments, leaf.1 = function f arguments) ∧ areBuiltIn steps = false
  | [], document, leaf, h => by cases h
  | step :: rest, document, leaf, h => by
      rw [skippingMissingAll, leavesAll, List.mem_append] at h
      rw [areBuiltIn, Bool.and_eq_false_iff]
      rcases h with h | h
      · exact (leaf_of_mem_skippingMissing step h).imp_right fun ⟨hf, hb⟩ => ⟨hf, Or.inl hb⟩
      · -- the steps behind are reached only if the first one kept the document
        split at h
        · exact (leaf_of_mem_skippingMissingAll rest h).imp_right fun ⟨hf, hb⟩ => ⟨hf, Or.inr hb⟩
        · cases h

end

/-- An operation that skips missing paths reports none. -/
theorem isMissingPath_of_run_action {operation : Action} {document : Document}
    (h : (action operation (some true)).run context document = .error error) :
    error.isMissingPath = false := by
  rw [run, dropMissing_eq_error_iff] at h
  exact h.2

/-- **Where missing paths are skipped, only a function of the caller reports one.** -/
theorem exists_function_of_missing {step : Step} {document : Document}
    (h : (step.skippingMissing true).run context document = .error error)
    (hm : error.isMissingPath = true) :
    step.isBuiltIn = false ∧ ∃ f arguments current,
      (function f arguments, current) ∈ (step.skippingMissing true).leaves context document ∧
        f current arguments = .error error := by
  obtain ⟨⟨leaf, current⟩, hleaf, hrun⟩ := run_eq_error_iff.1 h
  rcases leaf_of_mem_skippingMissing step hleaf with ⟨operation, rfl⟩ | ⟨⟨f, arguments, rfl⟩, hb⟩
  · cases hm.symm.trans (isMissingPath_of_run_action hrun)
  · exact ⟨hb, f, arguments, current, hleaf, hrun⟩

/-- **Skipping missing paths changes no result.** For every step, in any nesting of chains, every
context and every document: what the step gives where missing paths are not skipped it gives where
they are, and if it is made of operations only, whatever it fails with where they are skipped is no
missing path. What the configuration says about missing paths does not matter to either run. -/
theorem run_skippingMissing (context : Context) (step : Step) (document : Document) :
    (∀ result, (step.skippingMissing false).run context document = .ok result →
        (step.skippingMissing true).run context document = .ok result) ∧
      (step.isBuiltIn = true → ∀ error,
        (step.skippingMissing true).run context document = .error error →
          error.isMissingPath = false) ∧
      ∀ skip configured, (step.skippingMissing skip).run (context.skipping configured) document =
        (step.skippingMissing skip).run context document := by
  refine ⟨?_, ?_, fun skip configured => run_skipping_skippingMissing configured step document⟩
  · intro result h
    apply run_of_run_strict
    rwa [skippingMissing_skippingMissing]
  · intro hb error h
    rw [Bool.eq_false_iff]
    intro hm
    cases hb.symm.trans (exists_function_of_missing h hm).1

/-- A chain that reads an item in two steps: the item is the same under both settings, a document
without it is dropped, and a position below a leaf is a failure that no setting hides. -/
theorem run_skippingMissing_nested :
    let first : Step := .ofAction (.get [.key "a"] false)
    let step : Step := .chain [first, .chain [.action (.get [.index 0] false) (some false)]]
    let document : Document := .mapping [("a", .sequence [.int 5])]
    let leaf : Document := .mapping [("a", .int 5)]
    let failure : Error := .typeMismatch "indexing into a scalar at '[0]'"
    ((step.skippingMissing false).run .standard document = .ok (some (.int 5)) ∧
        (step.skippingMissing true).run .standard document = .ok (some (.int 5))) ∧
      (step.skippingMissing true).run .standard (.mapping []) = .ok none ∧
      step.isBuiltIn = true ∧
      (step.skippingMissing true).run .standard leaf = .error failure ∧
      failure.isMissingPath = false := by
  intro first step document leaf failure
  have hstrict : (step.skippingMissing false).run .standard document = .ok (some (.int 5)) := rfl
  have hfails : (step.skippingMissing true).run .standard leaf = .error failure := rfl
  exact ⟨⟨hstrict, (run_skippingMissing .standard step document).1 _ hstrict⟩, rfl, rfl, hfails,
    (run_skippingMissing .standard step leaf).2.1 rfl failure hfails⟩

end Step

end PathDoc

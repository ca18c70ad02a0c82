import PathDoc.Proofs.Collection.Fusion

/-!
# Tasks that run side by side

A pool gives values exactly if all tasks succeed (`Pool.collect_eq_ok_iff`), so it gives what the
tasks give one after the other. It leaves open the failure: of tasks that run side by side any
failure may be reported, and otherwise only the first one is (`Pool.exists_collect_eq_error_iff`).

So applying a step in a pool succeeds with the results of applying it to one document after the
other (`Collection.applyIn_eq_ok_iff`), and fails with the failure of some document
(`Collection.exists_run_of_applyIn`). The pool that reports the first failure makes no difference at
all (`Collection.applyIn_inOrder`).
-/

set_option autoImplicit false

namespace PathDoc

variable {α : Type} {sideBySide : Bool} {tasks : List (Outcome α)} {error : Error}

/-- Whether an error may be reported of tasks: it is one of their failures, and the first one unless
they run side by side. -/
def MayReport (sideBySide : Bool) (tasks : List (Outcome α)) (error : Error) : Prop :=
  if sideBySide then .error error ∈ tasks
  else ∃ before after, tasks = before ++ .error error :: after ∧ ∀ task ∈ before, task.isOk = true

/-- What is reported of tasks is the failure of one of them. -/
theorem MayReport.mem (h : MayReport sideBySide tasks error) : .error error ∈ tasks := by
  cases sideBySide with
  | true => exact h
  | false =>
      obtain ⟨before, after, rfl, -⟩ := h
      exact List.mem_append_right _ List.mem_cons_self

theorem failure?_eq_some_iff {task : Outcome α} :
    failure? task = some error ↔ task = .error error := by
  cases task <;> simp [failure?]

theorem failure?_eq_none_iff {task : Outcome α} : failure? task = none ↔ task.isOk = true := by
  cases task <;> simp [failure?, Except.isOk, Except.toBool]

theorem mem_failures_iff : error ∈ tasks.filterMap failure? ↔ .error error ∈ tasks := by
  simp only [List.mem_filterMap, failure?_eq_some_iff, exists_eq_right]

/-- Tasks without failures are their values. -/
theorem eq_map_of_failures_eq_nil (h : tasks.filterMap failure? = []) :
    tasks = (tasks.filterMap Except.toOption).map .ok := by
  induction tasks with
  | nil => rfl
  | cons task rest ih =>
      cases task with
      | error error => cases h
      | ok value => exact congrArg (.ok value :: ·) (ih h)

/-- Values have no failures. -/
theorem failures_map_ok (values : List α) :
    (values.map Except.ok : List (Outcome α)).filterMap failure? = [] := by
  rw [List.filterMap_eq_nil_iff]
  intro task hm
  obtain ⟨value, -, rfl⟩ := List.mem_map.1 hm
  rfl

namespace Pool

/-- **A pool gives values exactly if all tasks succeed.** -/
theorem collect_eq_ok_iff {pool : Pool} {values : List α} :
    pool.collect sideBySide tasks = .ok values ↔ tasks = values.map .ok := by
  constructor
  · intro h
    unfold collect at h
    split at h
    · rename_i hnone
      cases h
      exact eq_map_of_failures_eq_nil hnone
    · cases h
  · rintro rfl
    rw [collect, failures_map_ok, List.filterMap_map]
    exact congrArg Except.ok List.filterMap_some

/-- What a pool reports is the failure of a task, of the first one that fails unless tasks run side
by side. -/
theorem mayReport_of_collect {pool : Pool} (h : pool.collect sideBySide tasks = .error error) :
    MayReport sideBySide tasks error := by
  unfold collect at h
  split at h
  · cases h
  · rename_i first others hfailures
    rw [Except.error.injEq] at h
    cases sideBySide with
    | true =>
        have hm : error ∈ tasks.filterMap failure? := by
          rw [hfailures, ← h]
          exact pool.reported_mem first others
        exact mem_failures_iff.1 hm
    | false =>
        obtain ⟨before, task, after, rfl, hbefore, hfirst, -⟩ :=
          List.filterMap_eq_cons_iff.1 hfailures
        obtain rfl := failure?_eq_some_iff.1 hfirst
        cases h
        exact ⟨before, after, rfl, fun task hm => failure?_eq_none_iff.1 (hbefore task hm)⟩

/-- The pool that reports a given error if it can. -/
def favouring (error : Error) : Pool where
  reported first others := if error ∈ first :: others then error else first
  reported_mem first others := by
    split
    · assumption
    · exact List.mem_cons_self

/-- **Any failure may be reported of tasks that run side by side**, and otherwise only the first. -/
theorem exists_collect_eq_error_iff :
    (∃ pool : Pool, pool.collect sideBySide tasks = .error error) ↔
      MayReport sideBySide tasks error := by
  refine ⟨fun ⟨pool, h⟩ => mayReport_of_collect h, fun h => ⟨favouring error, ?_⟩⟩
  cases sideBySide with
  | true =>
      have hm : error ∈ tasks.filterMap failure? := mem_failures_iff.2 h
      obtain ⟨first, others, hfailures⟩ := List.exists_cons_of_ne_nil (List.ne_nil_of_mem hm)
      rw [hfailures] at hm
      simp only [collect, hfailures, favouring, if_pos hm, if_true]
  | false =>
      obtain ⟨before, after, rfl, hbefore⟩ := h
      have hnone : before.filterMap failure? = [] := by
        rw [List.filterMap_eq_nil_iff]
        exact fun task hm => failure?_eq_none_iff.2 (hbefore task hm)
      have hfailures : (before ++ .error error :: after).filterMap failure? =
          error :: after.filterMap failure? := by
        rw [List.filterMap_append, hnone]
        rfl
      simp only [collect, hfailures, Bool.false_eq_true, if_false]

/-- Pools differ only in what they report of tasks that run side by side. -/
theorem collect_one_by_one (pool other : Pool) (tasks : List (Outcome α)) :
    pool.collect false tasks = other.collect false tasks := by
  unfold collect
  cases tasks.filterMap failure? <;> rfl

/-- Reporting the first failure is running one task after the other. -/
theorem collect_inOrder_cons (task : Outcome α) (tasks : List (Outcome α)) :
    inOrder.collect sideBySide (task :: tasks) =
      task.bind fun value => (inOrder.collect sideBySide tasks).map (value :: ·) := by
  cases task with
  | error error =>
      simp only [collect, List.filterMap_cons, failure?, inOrder, ite_self]
      rfl
  | ok value =>
      simp only [collect, List.filterMap_cons, failure?, Except.toOption, Except.bind]
      cases tasks.filterMap failure? <;> rfl

end Pool

namespace Collection

variable {pool : Pool} {collection : Collection} {context : Context} {step : Step}

/-- Taking one document after the other is a pool that reports the first failure. -/
theorem applyAll_eq (documents : List Document) :
    applyAll context step documents =
      (Pool.inOrder.collect sideBySide (documents.map (step.run context))).map
        (·.filterMap id) := by
  induction documents with
  | nil => rfl
  | cons document rest ih =>
      rw [List.map_cons, Pool.collect_inOrder_cons, applyAll, ih]
      cases step.run context document with
      | error error => rfl
      | ok result =>
          cases Pool.inOrder.collect sideBySide (rest.map (step.run context)) with
          | error error => rfl
          | ok results => cases result <;> rfl

/-- **The pool that reports the first failure makes no difference.** -/
theorem applyIn_inOrder :
    applyIn .inOrder collection context step = collection.apply context step := by
  rw [apply, applyAll_eq, applyIn]
  cases Pool.inOrder.collect _ (collection.documents.map (step.run context)) <;> rfl

/-- **Applying a step in a pool succeeds with the same results as without.** -/
theorem applyIn_eq_ok_iff {applied : Applied} :
    applyIn pool collection context step = .ok applied ↔
      collection.apply context step = .ok applied := by
  rw [← applyIn_inOrder, applyIn, applyIn]
  simp only [bind_eq_ok_iff, Pool.collect_eq_ok_iff]

/-- What is reported of a step on a collection is its failure on some document. -/
theorem exists_run_of_applyIn (h : applyIn pool collection context step = .error error) :
    ∃ document ∈ collection.documents, step.run context document = .error error := by
  rcases bind_eq_error_iff.1 h with hfailed | ⟨results, -, hresults⟩
  · exact List.mem_map.1 (Pool.mayReport_of_collect hfailed).mem
  · dsimp only at hresults
    split at hresults <;> cases hresults

end Collection

end PathDoc

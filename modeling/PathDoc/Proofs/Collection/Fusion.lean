import PathDoc.Collection

/-!
# Chains of steps on collections

A chain carries each document through all its steps before it turns to the next one; steps that are
applied one after the other carry all documents through one step before they turn to the next step.
Both ways give the same documents (`applyAll_chain_cons_eq_ok_iff` exchanges the two loops for the
first step of a chain). The flag of the collection is computed once by the chain, and after every
step by the steps. It comes out the same because a collection that stands for a single document
holds exactly one (`Built.isSettled`) and steps never add documents (`length_applyAll_le`). So a
chain is its steps one after the other (`apply_chain_eq_ok_iff`).
-/

set_option autoImplicit false

namespace PathDoc

variable {context : Context}

namespace Step

/-- What a chain makes of a document: its first step drops it, or the other steps go on. -/
theorem run_chain_cons_eq_ok_iff {step : Step} {rest : List Step} {document : Document}
    {result : Option Document} :
    (chain (step :: rest)).run context document = .ok result ↔
      (step.run context document = .ok none ∧ result = none) ∨
        ∃ next, step.run context document = .ok (some next) ∧
          (chain rest).run context next = .ok result := by
  simp only [run, runAll]
  cases step.run context document with
  | error error => simp
  | ok first =>
      cases first with
      | none => simp [eq_comm]
      | some next => simp

end Step

/-- Whether a selector takes one document by its position. -/
def Selector.isPosition : Selector → Bool
  | position _ => true
  | _ => false

namespace Collection

/-! ## Documents -/

theorem applyAll_cons_eq_ok_iff {step : Step} {document : Document} {rest results : List Document} :
    applyAll context step (document :: rest) = .ok results ↔
      ∃ result others, step.run context document = .ok result ∧
        applyAll context step rest = .ok others ∧ results = result.toList ++ others := by
  rw [applyAll]
  simp only [bind_eq_ok_iff, Except.ok.injEq]
  constructor
  · rintro ⟨result, hrun, others, hothers, rfl⟩
    exact ⟨result, others, hrun, hothers, rfl⟩
  · rintro ⟨result, others, hrun, hothers, rfl⟩
    exact ⟨result, hrun, others, hothers, rfl⟩

/-- Steps drop documents and never add any. -/
theorem length_applyAll_le {step : Step} {documents results : List Document}
    (h : applyAll context step documents = .ok results) : results.length ≤ documents.length := by
  induction documents generalizing results with
  | nil =>
      cases h
      exact Nat.le_refl 0
  | cons document rest ih =>
      obtain ⟨result, others, -, hothers, rfl⟩ := applyAll_cons_eq_ok_iff.1 h
      have hle := ih hothers
      cases result with
      | none => exact Nat.le_succ_of_le hle
      | some next => exact Nat.succ_le_succ hle

/-- A chain without steps keeps all documents. -/
theorem applyAll_chain_nil (documents : List Document) :
    applyAll context (.chain []) documents = .ok documents := by
  induction documents with
  | nil => rfl
  | cons document rest ih =>
      exact applyAll_cons_eq_ok_iff.2 ⟨some document, rest, rfl, ih, rfl⟩

/-- **The first step of a chain may be applied to all documents before the other steps.** -/
theorem applyAll_chain_cons_eq_ok_iff {step : Step} {steps : List Step}
    {documents results : List Document} :
    applyAll context (.chain (step :: steps)) documents = .ok results ↔
      ∃ middle, applyAll context step documents = .ok middle ∧
        applyAll context (.chain steps) middle = .ok results := by
  -- induction on the documents; the first one is dropped by the step or goes on through the chain
  induction documents generalizing results with
  | nil => simp [applyAll]
  | cons document rest ih =>
      constructor
      · intro h
        obtain ⟨result, others, hrun, hothers, rfl⟩ := applyAll_cons_eq_ok_iff.1 h
        obtain ⟨middle, hmiddle, hrest⟩ := ih.1 hothers
        rcases Step.run_chain_cons_eq_ok_iff.1 hrun with ⟨hfirst, rfl⟩ | ⟨next, hfirst, hnext⟩
        · exact ⟨middle, applyAll_cons_eq_ok_iff.2 ⟨none, middle, hfirst, hmiddle, rfl⟩, hrest⟩
        · refine ⟨next :: middle, ?_, ?_⟩
          · exact applyAll_cons_eq_ok_iff.2 ⟨some next, middle, hfirst, hmiddle, rfl⟩
          · exact applyAll_cons_eq_ok_iff.2 ⟨result, others, hnext, hrest, rfl⟩
      · rintro ⟨middle, hmiddle, hresults⟩
        obtain ⟨first, kept, hfirst, hkept, rfl⟩ := applyAll_cons_eq_ok_iff.1 hmiddle
        cases first with
        | none =>
            have hrun : (Step.chain (step :: steps)).run context document = .ok none :=
              Step.run_chain_cons_eq_ok_iff.2 (Or.inl ⟨hfirst, rfl⟩)
            have hrest := ih.2 ⟨kept, hkept, hresults⟩
            exact applyAll_cons_eq_ok_iff.2 ⟨none, results, hrun, hrest, rfl⟩
        | some next =>
            obtain ⟨result, others, hnext, hothers, rfl⟩ := applyAll_cons_eq_ok_iff.1 hresults
            have hrun := Step.run_chain_cons_eq_ok_iff.2 (Or.inr ⟨next, hfirst, hnext⟩)
            have hrest := ih.2 ⟨kept, hkept, hothers⟩
            exact applyAll_cons_eq_ok_iff.2 ⟨result, others, hrun, hrest, rfl⟩

/-! ## The flag -/

/-- The collections that can be made. -/
inductive Built : Collection → Prop
  | ofList (documents : List Document) : Built (ofList documents)
  | ofSingle (document : Document) : Built (ofSingle document)
  | push {collection : Collection} (h : Built collection) (document : Document) :
      Built (collection.push document)
  | insert {collection next : Collection} {position : Nat} {document : Document}
      (h : Built collection) (hn : collection.insert? position document = some next) : Built next
  | extend {collection : Collection} (h : Built collection) (documents : List Document) :
      Built (collection.extend documents)
  | remove {collection next : Collection} {position : Int} {removed : Document}
      (h : Built collection) (hn : collection.remove position = .ok (removed, next)) : Built next
  | replace {collection next : Collection} {position : Int} {document old : Document}
      (h : Built collection) (hn : collection.replace position document = .ok (old, next)) :
      Built next
  | select {collection next : Collection} {selector : Selector} (h : Built collection)
      (hn : collection.select selector = .ok (some next)) : Built next
  | transform {collection next : Collection} {context : Context} {step : Step}
      (h : Built collection) (hn : collection.transform context step = .ok next) : Built next

/-- Whether a collection stands for a single document only if it holds exactly one. -/
def IsSettled (collection : Collection) : Prop :=
  collection.single = true → collection.documents.length = 1

theorem isSettled_ofList (documents : List Document) : (ofList documents).IsSettled :=
  fun h => nomatch h

theorem isSettled_settle (collection : Collection) (documents : List Document) :
    (collection.settle documents).IsSettled := by
  intro h
  simp only [settle, Bool.and_eq_true, beq_iff_eq] at h
  exact h.2

/-- What is selected stands for a single document exactly if it was selected by its position. -/
theorem single_of_select {collection next : Collection} {selector : Selector}
    (h : collection.select selector = .ok (some next)) : next.single = selector.isPosition := by
  cases selector with
  | position position =>
      obtain ⟨i, -, h⟩ := bind_eq_ok_iff.1 h
      cases h
      rfl
  | slice start stop stride =>
      obtain ⟨positions, -, h⟩ := bind_eq_ok_iff.1 h
      obtain ⟨kept, -, rfl⟩ := Option.map_eq_some_iff.1 (Except.ok.inj h)
      rfl
  | mask flags =>
      rw [select] at h
      split at h
      · cases h
        rfl
      · cases h
  | positions positions =>
      obtain ⟨within, -, h⟩ := bind_eq_ok_iff.1 h
      cases h
      rfl

theorem isSettled_of_select {collection next : Collection} {selector : Selector}
    (h : collection.select selector = .ok (some next)) : next.IsSettled := by
  intro hsingle
  rw [single_of_select h] at hsingle
  cases selector with
  | position position =>
      obtain ⟨i, -, h⟩ := bind_eq_ok_iff.1 h
      cases h
      rfl
  | slice start stop stride => cases hsingle
  | mask flags => cases hsingle
  | positions positions => cases hsingle

/-- What a step gives for a collection, unless the results are wanted as a plain list. -/
theorem transform_eq_ok_iff {collection next : Collection} {step : Step}
    (hs : step.isRaw = false) :
    collection.transform context step = .ok next ↔
      ∃ results, applyAll context step collection.documents = .ok results ∧
        next = collection.settle results := by
  rw [transform, apply]
  simp only [bind_eq_ok_iff, hs, Bool.false_eq_true, if_false, Except.ok.injEq]
  constructor
  · rintro ⟨_, ⟨results, hresults, rfl⟩, rfl⟩
    exact ⟨results, hresults, rfl⟩
  · rintro ⟨results, hresults, rfl⟩
    exact ⟨_, ⟨results, hresults, rfl⟩, rfl⟩

/-- The results of a raw step are a new list. -/
theorem single_of_transform_raw {collection next : Collection} {step : Step}
    (hs : step.isRaw = true) (h : collection.transform context step = .ok next) :
    next.single = false := by
  obtain ⟨applied, happlied, h⟩ := bind_eq_ok_iff.1 h
  obtain ⟨results, -, hraw⟩ := bind_eq_ok_iff.1 happlied
  rw [if_pos hs] at hraw
  cases hraw
  cases h
  rfl

theorem isSettled_of_transform {collection next : Collection} {step : Step}
    (h : collection.transform context step = .ok next) : next.IsSettled := by
  cases hs : step.isRaw with
  | false =>
      obtain ⟨results, -, rfl⟩ := (transform_eq_ok_iff hs).1 h
      exact isSettled_settle collection results
  | true =>
      intro hsingle
      cases (single_of_transform_raw hs h).symm.trans hsingle

/-- **Every collection stands for a single document only if it holds exactly one.** -/
theorem Built.isSettled {collection : Collection} (h : collection.Built) :
    collection.IsSettled := by
  -- each way to build a collection either settles it anew or keeps its number of documents
  induction h with
  | ofList documents => exact isSettled_ofList documents
  | ofSingle document => exact fun _ => rfl
  | push _ document => exact isSettled_settle _ _
  | insert _ hn =>
      rw [insert?] at hn
      split at hn
      · cases hn
        exact isSettled_settle _ _
      · cases hn
  | extend _ documents => exact isSettled_settle _ _
  | @remove collection next position removed _ hn =>
      obtain ⟨i, -, hn⟩ := bind_eq_ok_iff.1 hn
      cases hn
      exact isSettled_settle _ _
  | @replace collection next position document old _ hn ih =>
      obtain ⟨i, -, hn⟩ := bind_eq_ok_iff.1 hn
      cases hn
      intro hsingle
      exact (List.length_set ..).trans (ih hsingle)
  | select _ hn => exact isSettled_of_select hn
  | transform _ hn => exact isSettled_of_transform hn

/-- Nothing changes in a settled collection that keeps its documents. -/
theorem IsSettled.settle_self {collection : Collection} (h : collection.IsSettled) :
    collection.settle collection.documents = collection := by
  rcases collection with ⟨documents, single⟩
  cases single with
  | false => rfl
  | true => simp [settle, show documents.length = 1 from h rfl]

/-- **The flag may be computed in between, as long as documents are only dropped.** -/
theorem IsSettled.settle_settle {collection : Collection} (h : collection.IsSettled)
    {middle results : List Document} (hm : middle.length ≤ collection.documents.length)
    (hr : results.length ≤ middle.length) :
    (collection.settle middle).settle results = collection.settle results := by
  rcases collection with ⟨documents, single⟩
  cases single with
  | false => rfl
  | true =>
      have hone : documents.length = 1 := h rfl
      have hmiddle : results.length = 1 → middle.length = 1 := by
        intro hresults
        rw [hone] at hm
        omega
      by_cases hresults : results.length = 1
      · simp [settle, hresults, hmiddle hresults]
      · simp [settle, hresults]

/-! ## Steps one after the other -/

/-- The collection after steps that are applied one after the other, each to all documents. -/
def transformEach (context : Context) : List Step → Collection → Outcome Collection
  | [], collection => .ok collection
  | step :: rest, collection => do
    let next ← collection.transform context step
    transformEach context rest next

theorem transformEach_cons_eq_ok_iff {step : Step} {rest : List Step}
    {collection result : Collection} :
    transformEach context (step :: rest) collection = .ok result ↔
      ∃ next, collection.transform context step = .ok next ∧
        transformEach context rest next = .ok result := by
  rw [transformEach]
  exact bind_eq_ok_iff

/-- **Steps one after the other give the documents of the chain**, with the flag of the
collection. -/
theorem transformEach_eq_ok_iff {steps : List Step} (hs : ∀ step ∈ steps, step.isRaw = false)
    {collection : Collection} (hc : collection.IsSettled) {result : Collection} :
    transformEach context steps collection = .ok result ↔
      ∃ results, applyAll context (.chain steps) collection.documents = .ok results ∧
        result = collection.settle results := by
  -- induction on the steps, from any settled collection
  induction steps generalizing collection with
  | nil =>
      rw [transformEach, applyAll_chain_nil]
      simp [hc.settle_self, eq_comm]
  | cons step steps ih =>
      obtain ⟨hstep, hsteps⟩ := List.forall_mem_cons.1 hs
      constructor
      · intro h
        obtain ⟨next, hnext, hrest⟩ := transformEach_cons_eq_ok_iff.1 h
        obtain ⟨middle, hmiddle, rfl⟩ := (transform_eq_ok_iff hstep).1 hnext
        obtain ⟨results, hresults, rfl⟩ := (ih hsteps (isSettled_settle _ _)).1 hrest
        have hle := length_applyAll_le hmiddle
        refine ⟨results, applyAll_chain_cons_eq_ok_iff.2 ⟨middle, hmiddle, hresults⟩, ?_⟩
        exact hc.settle_settle hle (length_applyAll_le hresults)
      · rintro ⟨results, hresults, rfl⟩
        obtain ⟨middle, hmiddle, hresults⟩ := applyAll_chain_cons_eq_ok_iff.1 hresults
        have hle := length_applyAll_le hmiddle
        refine transformEach_cons_eq_ok_iff.2
          ⟨collection.settle middle, (transform_eq_ok_iff hstep).2 ⟨middle, hmiddle, rfl⟩, ?_⟩
        refine (ih hsteps (isSettled_settle _ _)).2 ⟨results, hresults, ?_⟩
        exact (hc.settle_settle hle (length_applyAll_le hresults)).symm

/-- **A chain is its steps one after the other.** Applying a chain to a collection succeeds exactly
if applying its steps one after the other to the successive collections does, and then both give the
same documents in the same order with the same flag. -/
theorem apply_chain_eq_ok_iff {collection : Collection} (hc : collection.Built) {steps : List Step}
    (hs : ∀ step ∈ steps, step.isRaw = false) {applied : Applied} :
    collection.apply context (.chain steps) = .ok applied ↔
      ∃ result, transformEach context steps collection = .ok result ∧
        applied = .collection result := by
  have happly : collection.apply context (.chain steps) =
      (applyAll context (.chain steps) collection.documents).map fun results =>
        .collection (collection.settle results) := by
    rw [apply]
    cases applyAll context (.chain steps) collection.documents <;> rfl
  simp only [transformEach_eq_ok_iff hs hc.isSettled, happly]
  cases applyAll context (.chain steps) collection.documents with
  | error error => simp [Except.map]
  | ok results => simp [Except.map, eq_comm]

/-- The first step drops a document, and the second one is a chain itself. -/
theorem apply_chain_dropping :
    let collection := (ofSingle (.mapping [("a", .int 1)])).push (.mapping [])
    let wrap : Step := .map fun document => .ok (.sequence [document])
    let steps := [.action (.get [.key "a"] false) (some true), .chain [wrap, wrap]]
    collection.Built ∧ (∀ step ∈ steps, step.isRaw = false) ∧
      collection.apply .standard (.chain steps) =
        .ok (.collection ⟨[.sequence [.sequence [.int 1]]], false⟩) := by
  intro collection wrap steps
  have hc : collection.Built := .push (.ofSingle _) _
  have hs : ∀ step ∈ steps, step.isRaw = false := by simp [steps, Step.isRaw]
  exact ⟨hc, hs, (apply_chain_eq_ok_iff hc hs).2 ⟨_, rfl, rfl⟩⟩

end Collection

end PathDoc

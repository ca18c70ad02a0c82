import PathDoc.Proofs.Collection.Fusion

/-!
# Histories of collections

A collection goes through changes and steps, and what is selected from it is a new collection. Every
collection on the way stands for a single document only if it holds exactly one. Once another number
of documents was left, the flag is lost: only a new collection that is made of one position stands
for a single document again (`single_run`). Nothing else takes the flag away: changes keep it as
long as they leave one document (`single_run_iff`).
-/

set_option autoImplicit false

namespace PathDoc.Collection

/-- What can be done with a collection. -/
inductive Operation where
  /-- Adds a document at the end. -/
  | push (document : Document)
  /-- Puts a document before a position. -/
  | insert (position : Nat) (document : Document)
  /-- Takes the document at a position out. -/
  | remove (position : Int)
  /-- Exchanges the document at a position. -/
  | replace (position : Int) (document : Document)
  /-- Adds documents at the end. -/
  | extend (documents : List Document)
  /-- Goes on with the results of a step. -/
  | apply (context : Context) (step : Step)
  /-- Goes on with a selection. -/
  | select (selector : Selector)

namespace Operation

/-- The collection that an operation leaves; nothing if it is refused. -/
def result? (collection : Collection) : Operation → Option Collection
  | push document => some (collection.push document)
  | insert position document => collection.insert? position document
  | remove position => (collection.remove position).toOption.map Prod.snd
  | replace position document => (collection.replace position document).toOption.map Prod.snd
  | extend documents => some (collection.extend documents)
  | apply context step => (collection.transform context step).toOption
  | select selector => (collection.select selector).toOption.join

/-- Whether an operation makes a collection that stands for a single document. -/
def makesSingle : Operation → Bool
  | select selector => selector.isPosition
  | _ => false

/-- Whether an operation goes on with a list of documents that was never a collection. -/
def startsList : Operation → Bool
  | select selector => !selector.isPosition
  | apply _ step => step.isRaw
  | _ => false

end Operation

/-- The collection after an operation; one that is refused changes nothing. -/
def after (collection : Collection) (operation : Operation) : Collection :=
  (operation.result? collection).getD collection

/-- The collection after some operations. -/
def run (collection : Collection) (operations : List Operation) : Collection :=
  operations.foldl after collection

/-- The collection before some operations and the ones after each of them. -/
def history : Collection → List Operation → List Collection
  | collection, [] => [collection]
  | collection, operation :: rest => collection :: history (collection.after operation) rest

theorem run_append (collection : Collection) (first second : List Operation) :
    collection.run (first ++ second) = (collection.run first).run second :=
  List.foldl_append

theorem run_mem_history (collection : Collection) (operations : List Operation) :
    collection.run operations ∈ collection.history operations := by
  induction operations generalizing collection with
  | nil => exact List.mem_singleton_self _
  | cons operation rest ih => exact List.mem_cons_of_mem _ (ih _)

/-! ## One operation -/

/-- What an operation leaves, or what was there if it is refused. -/
theorem after_cases (collection : Collection) (operation : Operation) :
    operation.result? collection = some (collection.after operation) ∨
      collection.after operation = collection := by
  unfold after
  cases operation.result? collection with
  | none => exact Or.inr rfl
  | some next => exact Or.inl rfl

theorem eq_ok_of_toOption {α : Type} {outcome : Outcome α} {value : α}
    (h : outcome.toOption = some value) : outcome = .ok value := by
  cases outcome with
  | error error => cases h
  | ok result => exact congrArg Except.ok (Option.some.inj h)

/-- What an operation leaves can be made. -/
theorem Built.result {collection next : Collection} (h : collection.Built) {operation : Operation}
    (hr : operation.result? collection = some next) : next.Built := by
  cases operation with
  | push document =>
      cases hr
      exact .push h document
  | insert position document => exact .insert h hr
  | remove position =>
      obtain ⟨⟨removed, next⟩, hremove, rfl⟩ := Option.map_eq_some_iff.1 hr
      exact .remove h (eq_ok_of_toOption hremove)
  | replace position document =>
      obtain ⟨⟨old, next⟩, hreplace, rfl⟩ := Option.map_eq_some_iff.1 hr
      exact .replace h (eq_ok_of_toOption hreplace)
  | extend documents =>
      cases hr
      exact .extend h documents
  | apply context step => exact .transform h (eq_ok_of_toOption hr)
  | select selector => exact .select h (eq_ok_of_toOption (Option.join_eq_some_iff.1 hr))

theorem Built.after {collection : Collection} (h : collection.Built) (operation : Operation) :
    (collection.after operation).Built := by
  rcases after_cases collection operation with hr | hr
  · exact h.result hr
  · rw [hr]
    exact h

theorem Built.run {collection : Collection} (h : collection.Built) (operations : List Operation) :
    (collection.run operations).Built := by
  induction operations generalizing collection with
  | nil => exact h
  | cons operation rest ih => exact ih (h.after operation)

theorem Built.of_mem_history {collection state : Collection} (h : collection.Built)
    {operations : List Operation} (hs : state ∈ collection.history operations) : state.Built := by
  induction operations generalizing collection with
  | nil =>
      rw [List.mem_singleton.1 hs]
      exact h
  | cons operation rest ih =>
      rcases List.mem_cons.1 hs with rfl | hs
      · exact h
      · exact ih (h.after operation) hs

/-- The flag of a settled collection, with the number of documents that it needs. -/
theorem IsSettled.single_eq {collection : Collection} (h : collection.IsSettled) :
    collection.single = (collection.single && collection.documents.length == 1) := by
  cases hs : collection.single with
  | false => rfl
  | true => simp [h hs]

/-- **A change keeps the flag exactly if it leaves one document.** -/
theorem single_after {collection : Collection} (h : collection.IsSettled) {operation : Operation}
    (hm : operation.makesSingle = false) (hl : operation.startsList = false) :
    (collection.after operation).single =
      (collection.single && (collection.after operation).documents.length == 1) := by
  rcases after_cases collection operation with hr | hr
  · generalize collection.after operation = next at hr
    cases operation with
    | push document =>
        cases hr
        rfl
    | insert position document =>
        -- what is inserted within the bounds is settled
        rw [Operation.result?, insert?] at hr
        split at hr
        · cases hr
          rfl
        · cases hr
    | remove position =>
        obtain ⟨⟨removed, next⟩, hremove, rfl⟩ := Option.map_eq_some_iff.1 hr
        obtain ⟨i, -, hremove⟩ := bind_eq_ok_iff.1 (eq_ok_of_toOption hremove)
        cases hremove
        rfl
    | replace position document =>
        obtain ⟨⟨old, next⟩, hreplace, rfl⟩ := Option.map_eq_some_iff.1 hr
        obtain ⟨i, -, hreplace⟩ := bind_eq_ok_iff.1 (eq_ok_of_toOption hreplace)
        cases hreplace
        -- the flag is not touched, and neither is the number of documents
        dsimp only
        rw [List.length_set]
        exact h.single_eq
    | extend documents =>
        cases hr
        rfl
    | apply context step =>
        obtain ⟨results, -, rfl⟩ := (transform_eq_ok_iff hl).1 (eq_ok_of_toOption hr)
        rfl
    | select selector =>
        -- what is selected is a new collection in any case
        have hposition : selector.isPosition = false := hm
        rw [Operation.startsList, hposition] at hl
        cases hl
  · rw [hr]
    exact h.single_eq

/-- A lost flag is not found again by anything but the selection of one position. -/
theorem single_after_of_lost {collection : Collection} (h : collection.IsSettled)
    {operation : Operation} (hm : operation.makesSingle = false)
    (hs : collection.single = false) : (collection.after operation).single = false := by
  cases hl : operation.startsList with
  | false => rw [single_after h hm hl, hs, Bool.false_and]
  | true =>
      rcases after_cases collection operation with hr | hr
      · cases operation with
        | select selector =>
            exact (single_of_select (eq_ok_of_toOption (Option.join_eq_some_iff.1 hr))).trans hm
        | apply context step => exact single_of_transform_raw hl (eq_ok_of_toOption hr)
        | push document => cases hl
        | insert position document => cases hl
        | remove position => cases hl
        | replace position document => cases hl
        | extend documents => cases hl
      · rw [hr]
        exact hs

/-! ## Runs -/

/-- Once the flag is lost, it stays lost. -/
theorem single_of_mem_history_of_lost {collection state : Collection} (h : collection.Built)
    (hs : collection.single = false) {operations : List Operation}
    (hm : ∀ operation ∈ operations, operation.makesSingle = false)
    (hstate : state ∈ collection.history operations) : state.single = false := by
  induction operations generalizing collection with
  | nil =>
      rw [List.mem_singleton.1 hstate]
      exact hs
  | cons operation rest ih =>
      obtain ⟨hfirst, hrest⟩ := List.forall_mem_cons.1 hm
      rcases List.mem_cons.1 hstate with rfl | hstate
      · exact hs
      · exact ih (h.after operation) (single_after_of_lost h.isSettled hfirst hs) hrest hstate

/-- **Changes keep the flag exactly as long as each of them leaves one document.** -/
theorem single_run_iff {collection : Collection} (h : collection.Built)
    {operations : List Operation}
    (hc : ∀ operation ∈ operations,
      operation.makesSingle = false ∧ operation.startsList = false) :
    (collection.run operations).single = true ↔
      collection.single = true ∧
        ∀ state ∈ collection.history operations, state.documents.length = 1 := by
  induction operations generalizing collection with
  | nil =>
      have hone := h.isSettled
      simp only [run, List.foldl_nil, history, List.mem_singleton, forall_eq]
      exact ⟨fun hs => ⟨hs, hone hs⟩, And.left⟩
  | cons operation rest ih =>
      obtain ⟨⟨hm, hl⟩, hrest⟩ := List.forall_mem_cons.1 hc
      have hstep := single_after h.isSettled hm hl
      have hrun := ih (h.after operation) hrest
      rw [hstep, Bool.and_eq_true, beq_iff_eq] at hrun
      refine hrun.trans ?_
      rw [history, List.forall_mem_cons]
      constructor
      · rintro ⟨⟨hs, -⟩, hall⟩
        exact ⟨hs, h.isSettled hs, hall⟩
      · rintro ⟨hs, -, hall⟩
        -- the collection after the operation is the first one of what follows
        have hfirst : collection.after operation ∈ (collection.after operation).history rest := by
          cases rest <;> exact List.mem_cons_self
        exact ⟨⟨hs, hall _ hfirst⟩, hall⟩

/-- **A collection stands for a single document only while it holds exactly one, and once another
number of documents was left only a selected position does so again.** In every history of a
collection that can be made: the flag comes with one document; after a state with another number of
documents, refused operations and raw steps included, it stays false until one position is selected;
and changes that leave one document each keep it. -/
theorem single_run {start : Collection} (h : start.Built) (operations : List Operation) :
    (∀ state ∈ start.history operations, state.single = true → state.documents.length = 1) ∧
      (∀ earlier later, operations = earlier ++ later →
        (start.run earlier).documents.length ≠ 1 →
          (∀ operation ∈ later, operation.makesSingle = false) →
            ∀ state ∈ (start.run earlier).history later, state.single = false) ∧
      ∀ earlier later, operations = earlier ++ later →
        (∀ operation ∈ later, operation.makesSingle = false ∧ operation.startsList = false) →
          ((start.run operations).single = true ↔
            (start.run earlier).single = true ∧
              ∀ state ∈ (start.run earlier).history later, state.documents.length = 1) := by
  refine ⟨fun state hs => (h.of_mem_history hs).isSettled, ?_, ?_⟩
  · rintro earlier later rfl hlength hm state hs
    have hlost : (start.run earlier).single = false :=
      Bool.eq_false_iff.2 fun hsingle => hlength ((h.run earlier).isSettled hsingle)
    exact single_of_mem_history_of_lost (h.run earlier) hlost hm hs
  · rintro earlier later rfl hc
    rw [run_append]
    exact single_run_iff (h.run earlier) hc

/-- One document becomes two and one again, and the flag does not come back. -/
theorem single_run_regained :
    let start := ofSingle (.int 1)
    let operations := [.push (.int 2), .remove (-1), .replace 0 (.int 3)]
    start.Built ∧ (start.run operations).documents.length = 1 ∧
      (start.run operations).single = false := by
  intro start operations
  have hstart : start.Built := .ofSingle _
  have hlost := (single_run hstart operations).2.1 [.push (.int 2)]
    [.remove (-1), .replace 0 (.int 3)] rfl (by decide) (by simp [Operation.makesSingle])
  exact ⟨hstart, rfl, hlost _ (run_mem_history _ _)⟩

end PathDoc.Collection

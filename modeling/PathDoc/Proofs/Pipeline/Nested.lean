import PathDoc.Pipeline

/-!
# Pipelines in pipelines

The list of a pipeline is read by two rules. On its own it is a call only if it cannot be a list of
steps; as an item of another list it is a call as soon as it starts with a text. Where both rules
agree, nesting the list changes nothing (`Pipeline.ofJson_nested_of_not_text`,
`Pipeline.ofJson_nested_of_single`). Where they do not, the list starts with a text and all other
items have the form of steps. Its first step, which takes no arguments, is then called with the
others as arguments and does not look at them (`Step.resolve_positional`).
-/

set_option autoImplicit false

namespace PathDoc

/-! ## Calls -/

/-- An operation that needs no arguments looks at none by position. -/
theorem Action.resolve_positional {config : Config} {name : StepName} {action : Action}
    (h : Action.resolve config .empty name = .ok action) (positional : List Document) :
    Action.resolve config ⟨positional, []⟩ name = .ok action := by
  cases name with
  | flatten => exact h
  | unflatten => exact h
  | dump => exact h
  | reorder =>
      -- the order is looked for before the path
      cases h
  | _ => cases h

/-- A step that needs no arguments looks at none by position. -/
theorem Step.resolve_positional {config : Config} {name : StepName} {step : Step}
    (h : Step.resolve config name .empty = .ok step) (positional : List Document) :
    Step.resolve config name ⟨positional, []⟩ = .ok step := by
  have hskip : Step.resolve config name .empty =
      (Action.resolve config .empty name).bind fun action => .ok (.action action none) := rfl
  cases hr : Action.resolve config .empty name with
  | error error =>
      rw [hskip, hr] at h
      cases h
  | ok action =>
      rw [hskip, hr] at h
      cases h
      have hcall : Step.resolve config name ⟨positional, []⟩ =
          (Action.resolve config ⟨positional, []⟩ name).bind
            fun action => .ok (.action action none) := rfl
      rw [hcall, Action.resolve_positional hr]
      rfl

namespace Step

/-- A list that starts with a text is a call where it is read as a step. -/
theorem ofJson_call (config : Config) (name : String) (rest : List Json) :
    ofJson config (.array (.string name :: rest)) =
      named config name (.ofJson (.array rest)) := by
  rw [ofJson]

/-- A list that does not start with a text is a chain where it is read as a step. -/
theorem ofJson_chain (config : Config) {items : List Json}
    (h : ∀ name rest, items ≠ .string name :: rest) :
    ofJson config (.array items) = (ofJsonAll config items).map .chain := by
  rw [ofJson]
  rintro name rest rfl
  exact h name rest rfl

/-- A text that is called with steps as its arguments is the step of the text alone. -/
theorem ofJson_call_of_ofText {config : Config} {name : String} {step : Step}
    (h : ofText config name = .ok step) (hname : (StepName.ofText? name).isSome = true)
    (rest : List Json) : ofJson config (.array (.string name :: rest)) = .ok step := by
  obtain ⟨operation, hop⟩ := Option.isSome_iff_exists.1 hname
  rw [ofText, hop] at h
  rw [ofJson_call, named, hop]
  exact resolve_positional h (Document.itemsOfJson rest)

/-- The steps that do not change what a step gives. -/
def Keeps (more : List Step) (first : Step) : Prop :=
  ∀ context document result, first.run context document = .ok (some result) →
    runAll context more result = .ok (some result)

/-- Steps after the first change nothing exactly if they change none of its results. -/
theorem runAll_singleton_eq_iff (first : Step) (more : List Step) :
    (∀ context document, runAll context [first] document =
        runAll context (first :: more) document) ↔ Keeps more first := by
  constructor
  · intro h context document result hr
    have hrun := h context document
    rw [runAll, runAll, hr] at hrun
    exact hrun.symm
  · intro h context document
    rw [runAll, runAll]
    cases hr : first.run context document with
    | error error => rfl
    | ok result =>
        cases result with
        | none => rfl
        | some result => exact (h context document result hr).symm

end Step

namespace Pipeline

/-- Pipelines that give the same result on every document and context. -/
def Alike (first second : Pipeline) : Prop :=
  ∀ context document, first.run context document = second.run context document

/-- A list that is the only item of a list is one step. -/
theorem ofJson_nested (config : Config) (items : List Json) :
    ofJson config (.array [.array items]) =
      (Step.ofJson config (.array items)).map fun step => ⟨[step]⟩ := by
  have hsingle : isSingle [.array items] = false := rfl
  rw [ofJson, hsingle, if_neg Bool.false_ne_true, Step.ofJsonAll, Step.ofJsonAll]
  cases Step.ofJson config (.array items) with
  | error error => rfl
  | ok step => rfl

/-- The pipeline of a list of steps. -/
theorem ofJson_list {config : Config} {items : List Json} (h : isSingle items = false) :
    ofJson config (.array items) = (Step.ofJsonAll config items).map fun steps => ⟨steps⟩ := by
  rw [ofJson, h, if_neg Bool.false_ne_true]

/-- A list that does not start with a text is a list of steps. -/
theorem isSingle_eq_false {items : List Json} (h : ∀ name rest, items ≠ .string name :: rest) :
    isSingle items = false := by
  cases items with
  | nil => rfl
  | cons item rest =>
      cases item with
      | string name => exact absurd rfl (h name rest)
      | _ => rfl

/-- **A list that starts with no text keeps its meaning.** It becomes a chain. -/
theorem ofJson_nested_of_not_text {config : Config} {items : List Json} {pipeline : Pipeline}
    (h : ofJson config (.array items) = .ok pipeline)
    (hitems : ∀ name rest, items ≠ .string name :: rest) :
    ofJson config (.array [.array items]) = .ok ⟨[.chain pipeline.steps]⟩ := by
  rw [ofJson_list (isSingle_eq_false hitems)] at h
  rw [ofJson_nested, Step.ofJson_chain config hitems]
  cases hs : Step.ofJsonAll config items with
  | error error =>
      rw [hs] at h
      cases h
  | ok steps =>
      rw [hs] at h
      cases h
      rfl

/-- **A list that is a call keeps its meaning.** -/
theorem ofJson_nested_of_single {config : Config} {items : List Json} {pipeline : Pipeline}
    (h : ofJson config (.array items) = .ok pipeline) (hsingle : isSingle items = true) :
    ofJson config (.array [.array items]) = .ok pipeline := by
  rw [ofJson, if_pos hsingle] at h
  rw [ofJson_nested]
  exact h

/-- A chain as the only step gives what its steps give. -/
theorem alike_chain (steps : List Step) : Alike ⟨[.chain steps]⟩ ⟨steps⟩ := by
  intro context document
  rw [run, run, Step.runAll, Step.run]
  cases Step.runAll context steps document with
  | error error => rfl
  | ok result =>
      cases result with
      | none => rfl
      | some result => rfl

/-- The pipeline of a text and further steps starts with the step of the text. -/
theorem exists_steps_of_list {config : Config} {name : String} {rest : List Json}
    {pipeline : Pipeline} (h : ofJson config (.array (.string name :: rest)) = .ok pipeline)
    (hsingle : isSingle (.string name :: rest) = false) :
    ∃ first more, Step.ofText config name = .ok first ∧ pipeline.steps = first :: more := by
  rw [ofJson_list hsingle, Step.ofJsonAll, Step.ofJson] at h
  cases hf : Step.ofText config name with
  | error error =>
      rw [hf] at h
      cases h
  | ok first =>
      cases hm : Step.ofJsonAll config rest with
      | error error =>
          rw [hf, hm] at h
          cases h
      | ok more =>
          rw [hf, hm] at h
          cases h
          exact ⟨first, more, rfl, rfl⟩

/-- **A list of steps that starts with a text is read as a call when it is nested.** If the text is
the name of an operation, the call is its step alone; else there is no such step. -/
theorem ofJson_nested_of_list {config : Config} {name : String} {rest : List Json}
    {pipeline : Pipeline} (h : ofJson config (.array (.string name :: rest)) = .ok pipeline)
    (hsingle : isSingle (.string name :: rest) = false) :
    ofJson config (.array [.array (.string name :: rest)]) =
      if (StepName.ofText? name).isSome = true then .ok ⟨pipeline.steps.take 1⟩
      else .error (.invalidStep ("unknown step '" ++ name ++ "'")) := by
  obtain ⟨first, more, hfirst, hsteps⟩ := exists_steps_of_list h hsingle
  rw [ofJson_nested]
  split
  · next hname =>
    rw [Step.ofJson_call_of_ofText hfirst hname, hsteps]
    rfl
  · next hname =>
    rw [Step.ofJson_call, Step.named, Option.not_isSome_iff_eq_none.1 hname]
    rfl

/-- **Nesting changes the meaning of a pipeline only where its list starts with a text and is a list
of steps.** Any other list gives the same pipeline, or its steps as a chain. A list of steps that
starts with a text becomes a call with one step, the first one of the list, if the text is the name
of an operation, and then has the same meaning exactly if the other steps change nothing of what the
first one gives. It is refused if the text is a query. -/
theorem ofJson_nested_of_ok {config : Config} {items : List Json} {pipeline : Pipeline}
    (h : ofJson config (.array items) = .ok pipeline) :
    ((∀ name rest, items = .string name :: rest → isSingle items = true) →
        ∃ nested, ofJson config (.array [.array items]) = .ok nested ∧ Alike nested pipeline) ∧
      ∀ name rest, items = .string name :: rest → isSingle items = false →
        ∃ first more, pipeline.steps = first :: more ∧
          ofJson config (.array [.array items]) =
            (if (StepName.ofText? name).isSome = true then .ok ⟨[first]⟩
              else .error (.invalidStep ("unknown step '" ++ name ++ "'"))) ∧
          (Alike ⟨[first]⟩ pipeline ↔ Step.Keeps more first) := by
  refine ⟨fun hsingle => ?_, ?_⟩
  · -- a list that is one call is nested as it is, other steps become a chain
    by_cases hcall : isSingle items = true
    · exact ⟨pipeline, ofJson_nested_of_single h hcall, fun _ _ => rfl⟩
    · have hitems : ∀ name rest, items ≠ .string name :: rest :=
        fun name rest hn => hcall (hsingle name rest hn)
      exact ⟨_, ofJson_nested_of_not_text h hitems, alike_chain pipeline.steps⟩
  · rintro name rest rfl hsingle
    -- the text that comes first is then taken for the name of a call
    obtain ⟨first, more, -, hsteps⟩ := exists_steps_of_list h hsingle
    have hnested := ofJson_nested_of_list h hsingle
    rw [hsteps] at hnested
    refine ⟨first, more, hsteps, hnested, ?_⟩
    rw [← Step.runAll_singleton_eq_iff]
    simp only [Alike, run, hsteps]

/-- Two calls in a list of their own keep their meaning. -/
theorem ofJson_nested_of_ok_calls :
    ∃ nested,
      ofJson .standard
          (.array [.array [.array [.string "flatten"], .array [.string "unflatten"]]]) =
        .ok nested ∧
      Alike nested ⟨[.action (.flatten false) none, .action .unflatten none]⟩ := by
  have h : ofJson .standard (.array [.array [.string "flatten"], .array [.string "unflatten"]]) =
      .ok ⟨[.action (.flatten false) none, .action .unflatten none]⟩ := rfl
  exact (ofJson_nested_of_ok h).1 (by rintro name rest ⟨⟩)

/-- Writes a document as JSON on one line. -/
def dumping : Step := .action (.dump false) none

/-- **A list of two steps loses the second one when it is nested.** -/
theorem not_alike_ofJson_nested :
    ofJson .standard (.array [.string "dump", .string "dump"]) = .ok ⟨[dumping, dumping]⟩ ∧
      ofJson .standard (.array [.array [.string "dump", .string "dump"]]) = .ok ⟨[dumping]⟩ ∧
      run .standard ⟨[dumping, dumping]⟩ .null = .ok (some (.string "\"null\"")) ∧
      run .standard ⟨[dumping]⟩ .null = .ok (some (.string "null")) ∧
      ¬ Alike ⟨[dumping]⟩ ⟨[dumping, dumping]⟩ := by
  refine ⟨rfl, rfl, rfl, rfl, fun h => ?_⟩
  have hdump : (Except.ok (some (.string "null")) : Outcome (Option Document)) =
      .ok (some (.string "\"null\"")) := h .standard .null
  injection hdump with hresult
  injection hresult with hdocument
  injection hdocument with hscalar
  injection hscalar with htext
  exact absurd htext (by decide)

end Pipeline

end PathDoc

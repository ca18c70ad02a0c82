import PathDoc.Proofs.Document.PartialEquivalence
import PathDoc.Proofs.Json.Names
import PathDoc.Proofs.Pipeline.Nested
import PathDoc.Proofs.Step.Names

/-!
# Pipelines keep names apart

A step that is built from arguments stores no values but its arguments, and it contains no functions
of the caller. So a step that is read from JSON keeps names apart (`Step.keepsNames_ofJson`), and a
pipeline that is read from a text, run on a document that is read from a text, gives documents with
distinct names and no others (`Pipeline.namesDistinct_run`). A run of such a step never leaves the
type of the documents that carry their condition (`WellNamed.run`).
-/

set_option autoImplicit false

namespace PathDoc

/-! ## Arguments -/

/-- Whether all arguments have distinct names. -/
structure Arguments.NamesDistinct (arguments : Arguments) : Prop where
  /-- Those by position. -/
  positional : ∀ value ∈ arguments.positional, value.namesDistinct = true
  /-- Those by name. -/
  named : ∀ entry ∈ arguments.named, entry.2.namesDistinct = true

variable {arguments : Arguments} {config : Config}

theorem Arguments.namesDistinct_empty : Arguments.empty.NamesDistinct :=
  ⟨List.forall_mem_nil _, List.forall_mem_nil _⟩

/-- The arguments of a JSON value have distinct names if it has. -/
theorem Arguments.namesDistinct_ofJson {value : Json} (h : value.NamesDistinct) :
    (Arguments.ofJson value).NamesDistinct := by
  have hsingle : (⟨[Document.ofJson value], []⟩ : Arguments).NamesDistinct :=
    ⟨List.forall_mem_singleton.2 h, List.forall_mem_nil _⟩
  cases value with
  | null => exact namesDistinct_empty
  | array items =>
      refine ⟨?_, List.forall_mem_nil _⟩
      rw [ofJson, Document.itemsOfJson_eq]
      exact List.forall_mem_map.2 (Json.namesDistinct_array_iff.1 h)
  | object entries =>
      refine ⟨List.forall_mem_nil _, ?_⟩
      rw [ofJson, Document.entriesOfJson_eq]
      exact List.forall_mem_map.2 (Json.namesDistinct_object_iff.1 h).2
  | _ => exact hsingle

/-- An argument that is looked up is one of the arguments. -/
theorem Arguments.NamesDistinct.of_require (h : arguments.NamesDistinct) {step : StepName}
    {position : Nat} {name : String} {value : Document}
    (hr : arguments.require step position name = .ok value) : value.namesDistinct = true := by
  rw [require] at hr
  split at hr
  · rename_i found hget
    cases hr
    rw [get?, Option.or_eq_some_iff] at hget
    rcases hget with hnamed | ⟨-, hpositional⟩
    · exact h.named _ (Entries.mem_of_get? hnamed)
    · exact h.positional value (List.mem_of_getElem? hpositional)
  · cases hr

/-! ## Steps -/

/-- **An operation that is built from arguments stores nothing else.** -/
theorem Action.keepsNames_of_resolve {step : StepName} {action : Action}
    (h : arguments.NamesDistinct) (hr : Action.resolve config arguments step = .ok action) :
    action.KeepsNames := by
  cases step with
  | set =>
      obtain ⟨path, -, hr⟩ := bind_eq_ok_iff.1 hr
      obtain ⟨value, hvalue, hr⟩ := bind_eq_ok_iff.1 hr
      cases hr
      exact h.of_require hvalue
  | findReplace =>
      obtain ⟨matcher, -, hr⟩ := bind_eq_ok_iff.1 hr
      obtain ⟨replacement, hreplacement, hr⟩ := bind_eq_ok_iff.1 hr
      obtain ⟨changedOnly, -, hr⟩ := bind_eq_ok_iff.1 hr
      cases hr
      exact h.of_require hreplacement
  -- the other operations store nothing
  | unflatten =>
      cases hr
      exact trivial
  | remove | flatten | dump =>
      obtain ⟨_, -, hr⟩ := bind_eq_ok_iff.1 hr
      cases hr
      exact trivial
  | get | move | rename | find | findRemove | query | filter =>
      obtain ⟨_, -, hr⟩ := bind_eq_ok_iff.1 hr
      obtain ⟨_, -, hr⟩ := bind_eq_ok_iff.1 hr
      cases hr
      exact trivial
  | reorder =>
      obtain ⟨_, -, hr⟩ := bind_eq_ok_iff.1 hr
      obtain ⟨_, -, hr⟩ := bind_eq_ok_iff.1 hr
      obtain ⟨_, -, hr⟩ := bind_eq_ok_iff.1 hr
      cases hr
      exact trivial

namespace Step

variable {step : Step}

theorem keepsNames_of_resolve {name : StepName} (h : arguments.NamesDistinct)
    (hr : resolve config name arguments = .ok step) : step.KeepsNames := by
  obtain ⟨skipMissing, -, hr⟩ := bind_eq_ok_iff.1 hr
  obtain ⟨operation, hoperation, hr⟩ := bind_eq_ok_iff.1 hr
  cases hr
  rw [KeepsNames]
  exact Action.keepsNames_of_resolve h hoperation

theorem keepsNames_of_named {name : String} (h : arguments.NamesDistinct)
    (hr : named config name arguments = .ok step) : step.KeepsNames := by
  rw [named] at hr
  split at hr
  · exact keepsNames_of_resolve h hr
  · cases hr

theorem keepsNames_of_ofText {text : String} (hr : ofText config text = .ok step) :
    step.KeepsNames := by
  rw [ofText] at hr
  split at hr
  · exact keepsNames_of_resolve Arguments.namesDistinct_empty hr
  · split at hr
    · rename_i query hquery
      cases hr
      obtain ⟨expr, -, he⟩ := bind_eq_ok_iff.1 hquery
      cases he
      rw [ofAction, KeepsNames]
      exact trivial
    · cases hr

mutual

/-- **A step that is read from JSON keeps names apart.** -/
theorem keepsNames_ofJson : ∀ (definition : Json) {step : Step}, definition.NamesDistinct →
    ofJson config definition = .ok step → step.KeepsNames
  | .null, step, _, hr => by cases hr
  | .bool value, step, _, hr => by cases hr
  | .int value, step, _, hr => by cases hr
  | .float value, step, _, hr => by cases hr
  | .string text, step, _, hr => keepsNames_of_ofText hr
  | .array items, step, h, hr => by
      have hitems := Json.namesDistinct_array_iff.1 h
      by_cases hcall : ∃ name rest, items = .string name :: rest
      · obtain ⟨name, rest, rfl⟩ := hcall
        rw [ofJson_call] at hr
        refine keepsNames_of_named (Arguments.namesDistinct_ofJson ?_) hr
        exact Json.namesDistinct_array_iff.2 (List.forall_mem_cons.1 hitems).2
      · rw [ofJson_chain config fun name rest he => hcall ⟨name, rest, he⟩] at hr
        obtain ⟨steps, hsteps, rfl⟩ := map_eq_ok_iff.1 hr
        rw [KeepsNames]
        exact keepsNames_ofJsonAll items hitems hsteps
  | .object entries, step, h, hr => by
      rw [ofJson.eq_def] at hr
      split at hr
      · cases ‹Json.object entries = Json.string _›
      · cases ‹Json.object entries = Json.array _›
      · cases ‹Json.object entries = Json.array _›
      · rename_i name value he
        cases he
        have hvalue := (Json.namesDistinct_object_iff.1 h).2 (name, value) List.mem_cons_self
        exact keepsNames_of_named (Arguments.namesDistinct_ofJson hvalue) hr
      · cases hr

/-- Steps that are read from JSON keep names apart. -/
theorem keepsNames_ofJsonAll : ∀ (definitions : List Json) {steps : List Step},
    (∀ definition ∈ definitions, definition.NamesDistinct) →
      ofJsonAll config definitions = .ok steps → AllKeepNames steps
  | [], steps, _, hr => by
      cases hr
      rw [AllKeepNames]
      exact trivial
  | definition :: rest, steps, h, hr => by
      obtain ⟨hfirst, hrest⟩ := List.forall_mem_cons.1 h
      rw [ofJsonAll] at hr
      obtain ⟨step, hstep, hr⟩ := bind_eq_ok_iff.1 hr
      obtain ⟨others, hothers, hr⟩ := bind_eq_ok_iff.1 hr
      cases hr
      rw [AllKeepNames]
      exact ⟨keepsNames_ofJson definition hfirst hstep, keepsNames_ofJsonAll rest hrest hothers⟩

end

end Step

/-! ## Pipelines -/

theorem Pipeline.allKeepNames_ofJson {definition : Json} {pipeline : Pipeline}
    (h : definition.NamesDistinct) (hp : ofJson config definition = .ok pipeline) :
    Step.AllKeepNames pipeline.steps := by
  have hsingle : ∀ {step : Step} {value : Json}, value.NamesDistinct →
      Step.ofJson config value = .ok step → Step.AllKeepNames [step] := by
    intro step value hv hs
    rw [Step.AllKeepNames, Step.AllKeepNames]
    exact ⟨Step.keepsNames_ofJson value hv hs, trivial⟩
  rw [ofJson.eq_def] at hp
  split at hp
  · rename_i items
    split at hp
    · obtain ⟨step, hs, rfl⟩ := map_eq_ok_iff.1 hp
      exact hsingle h hs
    · obtain ⟨steps, hs, rfl⟩ := map_eq_ok_iff.1 hp
      exact Step.keepsNames_ofJsonAll items (Json.namesDistinct_array_iff.1 h) hs
  · obtain ⟨step, hs, rfl⟩ := map_eq_ok_iff.1 hp
    exact hsingle h hs

/-- **What a pipeline makes of a document has distinct names**, if both are read from texts. -/
theorem Pipeline.namesDistinct_run {context : Context} {source text : String}
    {definition value : Json} {pipeline : Pipeline} {result : Document}
    (hsource : Json.read? source = some definition)
    (hp : ofJson config definition = .ok pipeline) (htext : Json.read? text = some value)
    (hr : pipeline.run context (.ofJson value) = .ok (some result)) :
    result.namesDistinct = true :=
  Step.namesDistinct_runAll pipeline.steps
    (allKeepNames_ofJson (Json.namesDistinct_of_read? hsource) hp)
    (Json.namesDistinct_of_read? htext) hr

/-! ## Documents that carry their condition -/

namespace WellNamed

/-- The document of a JSON text. -/
def ofText? (text : String) : Option WellNamed :=
  match h : Json.read? text with
  | none => none
  | some value => some ⟨.ofJson value, Json.namesDistinct_of_read? h⟩

/-- What a step that keeps names apart makes of a document. -/
def run (context : Context) (step : Step) (hk : step.KeepsNames) (source : WellNamed) :
    Outcome (Option WellNamed) :=
  match h : step.run context source.document with
  | .error error => .error error
  | .ok none => .ok none
  | .ok (some result) => .ok (some ⟨result, step.namesDistinct_run hk source.names h⟩)

/-- **The condition is carried along and changes nothing**: the same documents come out. -/
theorem map_document_run (context : Context) (step : Step) (hk : step.KeepsNames)
    (source : WellNamed) :
    (source.run context step hk).map (Option.map document) = step.run context source.document := by
  unfold run
  split
  all_goals
    rename_i h
    exact h.symm

end WellNamed

end PathDoc

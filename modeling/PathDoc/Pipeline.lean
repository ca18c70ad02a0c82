import PathDoc.Step.Resolve

/-!
# Pipelines

A pipeline is a list of steps. It is written in JSON as a list whose items are names of operations,
queries, lists and objects that give a name its arguments, and nested lists. A list that starts with
a name and cannot be a list of steps is a single step.
-/

set_option autoImplicit false

namespace PathDoc

/-- Steps that are carried out one after the other. -/
structure Pipeline where
  /-- The steps. -/
  steps : List Step

/-- The arguments of a JSON value: a list gives them by position, an object by name, null none and
anything else one. -/
def Arguments.ofJson : Json → Arguments
  | .null => .empty
  | .array items => ⟨Document.itemsOfJson items, []⟩
  | .object entries => ⟨[], Document.entriesOfJson entries⟩
  | value => ⟨[.ofJson value], []⟩

namespace Step

/-- The step of a text: the name of an operation, or a query. -/
def ofText (config : Config) (text : String) : Outcome Step :=
  match StepName.ofText? text with
  | some name => resolve config name .empty
  | none =>
    match ofQuery text with
    | .ok step => .ok step
    | .error error =>
      .error (.invalidStep
        ("'" ++ text ++ "' is neither a step name nor a query: " ++ error.message))

/-- The failure to build a step from a JSON value. -/
def unbuildable (value : Json) : Outcome Step :=
  .error (.invalidStep ("cannot build a step from " ++ value.compact))

mutual

/-- The step that a JSON value describes. -/
def ofJson (config : Config) : Json → Outcome Step
  | .string text => ofText config text
  | .array (.string name :: rest) => named config name (.ofJson (.array rest))
  | .array items => (ofJsonAll config items).map .chain
  | .object [(name, value)] => named config name (.ofJson value)
  | value => unbuildable value

/-- The steps that JSON values describe. -/
def ofJsonAll (config : Config) : List Json → Outcome (List Step)
  | [] => .ok []
  | item :: rest => do
    let step ← ofJson config item
    let steps ← ofJsonAll config rest
    .ok (step :: steps)

end

end Step

/-- Whether a JSON value is a text. -/
def Json.isText : Json → Bool
  | .string _ => true
  | _ => false

namespace Pipeline

/-- Whether an item of a list has the form of a step of its own. -/
def isStepForm : Json → Bool
  | .string name => (StepName.ofText? name).isSome
  | .array items => items.head?.any Json.isText
  | .object [(name, _)] => (StepName.ofText? name).isSome
  | _ => false

/-- Whether a list is a name with its arguments and not a list of steps. -/
def isSingle : List Json → Bool
  | .string _ :: item :: rest => !(item :: rest).all isStepForm
  | _ => false

/-- The pipeline that a JSON value describes; text patterns take their defaults from a
configuration. -/
def ofJson (config : Config) (definition : Json) : Outcome Pipeline :=
  match definition with
  | .array items =>
    if isSingle items then (Step.ofJson config definition).map fun step => ⟨[step]⟩
    else (Step.ofJsonAll config items).map fun steps => ⟨steps⟩
  | single => (Step.ofJson config single).map fun step => ⟨[step]⟩

/-- The pipeline as one step. -/
def toStep (pipeline : Pipeline) : Step :=
  .chain pipeline.steps

/-- The result of all steps; nothing if one drops the document. -/
def run (context : Context) (pipeline : Pipeline) (document : Document) :
    Outcome (Option Document) :=
  Step.runAll context pipeline.steps document

end Pipeline

end PathDoc

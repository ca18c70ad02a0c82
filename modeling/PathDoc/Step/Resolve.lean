import PathDoc.Query.Parser
import PathDoc.Step.Basic

/-!
# Steps from arguments

A step is built from a name and arguments. An argument is looked up by its name first, then by its
position; flags and counts have names only. All arguments are checked, and patterns and queries
compiled, before any document is touched.
-/

set_option autoImplicit false

namespace PathDoc

/-- The failure of an argument that is of the wrong kind. -/
def StepName.refuses {α : Type} (step : StepName) (argument expected : String)
    (found : Document) : Outcome α :=
  .error (.invalidStep (step.text ++ ": argument '" ++ argument ++ "' must be " ++ expected ++
    ", found " ++ found.kind.name))

namespace Arguments

/-- An argument by name, or else by position. -/
def get? (arguments : Arguments) (position : Nat) (name : String) : Option Document :=
  (arguments.named.get? name).or arguments.positional[position]?

/-- An argument that must be given. -/
def require (arguments : Arguments) (step : StepName) (position : Nat) (name : String) :
    Outcome Document :=
  match arguments.get? position name with
  | some value => .ok value
  | none => .error (.invalidStep (step.text ++ " requires argument '" ++ name ++ "'"))

/-- A text that must be given. -/
def text (arguments : Arguments) (step : StepName) (position : Nat) (name : String) :
    Outcome String := do
  let value ← arguments.require step position name
  match value.string? with
  | some text => .ok text
  | none => step.refuses name "a string" value

/-- A truth value by name. -/
def flag? (arguments : Arguments) (step : StepName) (name : String) : Outcome (Option Bool) :=
  match arguments.named.get? name with
  | none => .ok none
  | some value =>
    match value.bool? with
    | some b => .ok (some b)
    | none => step.refuses name "a bool" value

/-- A truth value by name, or a default. -/
def flag (arguments : Arguments) (step : StepName) (name : String) (default : Bool) :
    Outcome Bool :=
  (arguments.flag? step name).map (·.getD default)

/-- A count by name. -/
def count? (arguments : Arguments) (step : StepName) (name : String) : Outcome (Option Nat) :=
  match arguments.named.get? name with
  | none => .ok none
  | some value =>
    match value.int? with
    | some n =>
      if 0 ≤ n.toInt then .ok (some n.toInt.toNat)
      else step.refuses name "a non-negative integer" value
    | none => step.refuses name "a non-negative integer" value

/-- The token that an item of a list stands for. -/
def token (step : StepName) (name : String) : Document → Outcome Token
  | .scalar (.string key) => .ok (.key key)
  | .scalar (.int position) => .ok (.index position.toInt)
  | item => step.refuses name "a path token" item

/-- The path that an argument stands for: nothing for the root, a path text, a position or a list of
tokens. -/
def toPath (step : StepName) (name : String) : Document → Outcome Path
  | .scalar .null => .ok []
  | .scalar (.string text) => Path.parse text
  | .scalar (.int position) => .ok [.index position.toInt]
  | .sequence items => items.mapM (token step name)
  | value => step.refuses name "a path" value

/-- A path that must be given. -/
def path (arguments : Arguments) (step : StepName) (position : Nat) (name : String) :
    Outcome Path := do
  toPath step name (← arguments.require step position name)

/-- The names in a list of texts. -/
def names (step : StepName) (name : String) (value : Document) : Outcome (List String) :=
  match value with
  | .sequence items =>
    items.mapM fun item => match item.string? with
      | some text => .ok text
      | none => step.refuses name "a list of keys" item
  | value => step.refuses name "a list of keys" value

/-! ## Matchers -/

/-- The criterion of an argument: `not` over an argument negates it, a text is a pattern, all else
is a value. -/
def criterion : Document → Match.Criterion
  | .mapping [(name, inner)] =>
    if name = "not" then .negation (criterion inner) else .value (.mapping [(name, inner)])
  | .scalar (.string pattern) => .pattern pattern
  | value => .value value

/-- The criteria of an argument, one or a list. -/
def criteria : Document → List Match.Criterion
  | .sequence items => items.map criterion
  | value => [criterion value]

/-- The strategy named by an argument. -/
def strategy (arguments : Arguments) (step : StepName) : Outcome Match.Strategy :=
  match arguments.named.get? "strategy" with
  | none => .ok .contains
  | some value =>
    match value.string?.bind Match.Strategy.ofName? with
    | some strategy => .ok strategy
    | none => step.refuses "strategy" "a strategy name" value

/-- The similarity given by an argument, or a default. -/
def threshold (arguments : Arguments) (step : StepName) (default : Float) : Outcome Float :=
  match arguments.named.get? "threshold" with
  | none => .ok default
  | some value =>
    match value.number? with
    | some x => .ok x
    | none => step.refuses "threshold" "a number" value

/-- The matcher that arguments describe. -/
def matcher (arguments : Arguments) (step : StepName) (config : Config) :
    Outcome Match.ValueMatcher := do
  let sought ←
    match arguments.named.get? "targets" with
    | some targets => .ok targets
    | none => arguments.require step 0 "target"
  let strategy ← arguments.strategy step
  let ignoreCase ← arguments.flag step "ignore_case" config.ignoreCase
  let threshold ← arguments.threshold step config.fuzzyThreshold
  let group ← arguments.count? step "group"
  let maxDistance ← arguments.count? step "max_distance"
  let all ← arguments.flag step "find_all" false
  Match.ValueMatcher.compile (criteria sought) all
    ⟨strategy, ignoreCase, group, maxDistance, some threshold⟩

/-- What a search is to give back. -/
def wanted (arguments : Arguments) (step : StepName) : Outcome Wanted :=
  match arguments.named.get? "return" with
  | none => .ok .existence
  | some value =>
    match value.string?.bind Wanted.ofName? with
    | some wanted => .ok wanted
    | none =>
      step.refuses "return" "one of bool, values, matches, offsets, ranges, strings" value

end Arguments

/-! ## Operations -/

/-- The operation of a name with arguments. -/
def Action.resolve (config : Config) (arguments : Arguments) (step : StepName) :
    Outcome Action :=
  match step with
  | .get => do
    let path ← arguments.path step 0 "key"
    let keepPath ← arguments.flag step "keep_path" false
    .ok (.get path keepPath)
  | .set => do
    let path ← arguments.path step 0 "key"
    let value ← arguments.require step 1 "value"
    .ok (.set path (.value value))
  | .remove => do
    let path ← arguments.path step 0 "key"
    .ok (.remove path)
  | .move => do
    let source ← arguments.path step 0 "from"
    let target ← arguments.path step 1 "to"
    .ok (.move source target)
  | .rename => do
    let path ← arguments.path step 0 "key"
    let name ← arguments.text step 1 "name"
    .ok (.rename path name)
  | .reorder => do
    let order ← arguments.require step 1 "order"
    let names ← Arguments.names step "order" order
    let path ← arguments.path step 0 "key"
    .ok (.reorder path names)
  | .find => do
    let matcher ← arguments.matcher step config
    let wanted ← arguments.wanted step
    .ok (.find matcher wanted)
  | .findReplace => do
    let matcher ← arguments.matcher step config
    let replacement ← arguments.require step 1 "replacement"
    let changedOnly ← arguments.flag step "changed_only" false
    .ok (.findReplace matcher (.value replacement) changedOnly)
  | .findRemove => do
    let matcher ← arguments.matcher step config
    let changedOnly ← arguments.flag step "changed_only" false
    .ok (.findRemove matcher changedOnly)
  | .flatten => do
    let annotateAll ← arguments.flag step "annotate_all" false
    .ok (.flatten annotateAll)
  | .unflatten => .ok .unflatten
  | .query => do
    let source ← arguments.text step 0 "expr"
    let expr ← Query.parse source
    .ok (.query expr)
  | .filter => do
    let source ← arguments.text step 0 "expr"
    let expr ← Query.parse source
    .ok (.filter expr)
  | .dump => do
    let indented ← arguments.flag step "pretty" false
    .ok (.dump indented)

namespace Step

/-- The step of a name with arguments. -/
def resolve (config : Config) (name : StepName) (arguments : Arguments) : Outcome Step := do
  let skipMissing ← arguments.flag? name "skip_missing"
  let operation ← Action.resolve config arguments name
  .ok (.action operation skipMissing)

/-- The step of the text of a name with arguments. -/
def named (config : Config) (name : String) (arguments : Arguments) : Outcome Step :=
  match StepName.ofText? name with
  | some name => resolve config name arguments
  | none => .error (.invalidStep ("unknown step '" ++ name ++ "'"))

/-- The step that evaluates a query. -/
def ofQuery (source : String) : Outcome Step := do
  let expr ← Query.parse source
  .ok (.ofAction (.query expr))

/-- The step that keeps the documents for which a query is true. -/
def ofFilter (source : String) : Outcome Step := do
  let expr ← Query.parse source
  .ok (.ofAction (.filter expr))

end Step

end PathDoc

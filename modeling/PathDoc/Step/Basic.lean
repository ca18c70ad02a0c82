import PathDoc.Engine
import PathDoc.Flat.Encoding
import PathDoc.Flat.Unflatten
import PathDoc.Query.Eval
import PathDoc.Query.Parser

/-!
# Steps

A step turns a document into another one or drops it. It is one of the named operations, a function
of the caller or a chain of steps. Where missing paths are skipped, a named operation that runs into
one drops the document; errors of the caller's functions as steps always get through. `Step.run`
carries out a step.
-/

set_option autoImplicit false

namespace PathDoc

/-- The names of operations. -/
inductive StepName where
  /-- Reads a path. -/
  | get
  /-- Writes a path. -/
  | set
  /-- Removes a path. -/
  | remove
  /-- Moves a value from one path to another. -/
  | move
  /-- Renames an entry of a mapping. -/
  | rename
  /-- Reorders the entries of a mapping. -/
  | reorder
  /-- Searches for values. -/
  | find
  /-- Replaces values. -/
  | findReplace
  /-- Removes values. -/
  | findRemove
  /-- Lists a document by paths. -/
  | flatten
  /-- Rebuilds a document from its list. -/
  | unflatten
  /-- Evaluates a query. -/
  | query
  /-- Keeps the documents for which a query is true. -/
  | filter
  /-- Writes a document as JSON. -/
  | dump
  deriving DecidableEq

namespace StepName

/-- All names of operations. -/
def all : List StepName :=
  [get, set, remove, move, rename, reorder, find, findReplace, findRemove, flatten, unflatten,
    query, filter, dump]

/-- The text of a name. -/
def text : StepName → String
  | get => "get"
  | set => "set"
  | remove => "remove"
  | move => "move"
  | rename => "rename"
  | reorder => "reorder"
  | find => "find"
  | findReplace => "find_replace"
  | findRemove => "find_remove"
  | flatten => "flatten"
  | unflatten => "unflatten"
  | query => "query"
  | filter => "filter"
  | dump => "dump"

/-- The name with a text. -/
def ofText? (text : String) : Option StepName :=
  all.find? fun name => name.text == text

end StepName

/-- An operation with its arguments. -/
inductive Action where
  /-- Reads a path, on request wrapped in mappings along the path. -/
  | get (path : Path) (keepPath : Bool)
  /-- Writes a path. -/
  | set (path : Path) (replacement : Replacement)
  /-- Removes a path. -/
  | remove (path : Path)
  /-- Moves a value. -/
  | move (source target : Path)
  /-- Gives an entry of a mapping another name. -/
  | rename (path : Path) (name : String)
  /-- Puts entries of a mapping first. -/
  | reorder (path : Path) (names : List String)
  /-- Searches. -/
  | find (matcher : Match.ValueMatcher) (wanted : Wanted)
  /-- Replaces matches, and drops documents without any on request. -/
  | findReplace (matcher : Match.ValueMatcher) (replacement : Replacement) (changedOnly : Bool)
  /-- Removes matches, and drops documents without any on request. -/
  | findRemove (matcher : Match.ValueMatcher) (changedOnly : Bool)
  /-- Lists a document by paths. -/
  | flatten (annotateAll : Bool)
  /-- Rebuilds a document. -/
  | unflatten
  /-- Evaluates a query. -/
  | query (expr : Query.Expr)
  /-- Keeps documents for which a query is true. -/
  | filter (expr : Query.Expr)
  /-- Writes JSON, on request on indented lines. -/
  | dump (indented : Bool)

/-- The name of an operation. -/
def Action.name : Action → StepName
  | get .. => .get
  | set .. => .set
  | remove _ => .remove
  | move .. => .move
  | rename .. => .rename
  | reorder .. => .reorder
  | find .. => .find
  | findReplace .. => .findReplace
  | findRemove .. => .findRemove
  | flatten _ => .flatten
  | unflatten => .unflatten
  | query _ => .query
  | filter _ => .filter
  | dump _ => .dump

namespace Navigator

/-- The entries of the mapping at a path. -/
def mappingAt (navigator : Navigator) (document : Document) (path : Path) :
    Outcome (Entries Document) :=
  match navigator.get document path with
  | .error error => .error error
  | .ok (.mapping entries) => .ok entries
  | .ok node =>
    .error (.typeMismatch
      ("expected a mapping at '" ++ path.text ++ "', found " ++ node.kind.name))

/-- The failure to find a name in a mapping. -/
def missingEntry (path : Path) (name : String) : Error :=
  .navigation path.text name "key not found in mapping"

/-- The entries with one renamed in its place; another entry under the new name goes. -/
def renameEntry (entries : Entries Document) (old new : String) : Entries Document :=
  Entries.ofList ((entries.filter fun entry => entry.1 != new || entry.1 == old).map fun entry =>
    (if entry.1 = old then new else entry.1, entry.2))

/-- Gives the entry at a path another name. -/
def rename (navigator : Navigator) (document : Document) (path : Path) (name : String) :
    Outcome Document :=
  match path.getLast? with
  | none => .error (.typeMismatch "cannot rename the root")
  | some last => do
    let entries ← navigator.mappingAt document path.dropLast
    if Entries.contains entries last.text then
      navigator.set document path.dropLast
        (.value (.mapping (renameEntry entries last.text name)))
    else .error (missingEntry path last.text)

/-- The entries under some names, in the order of the names. -/
def pickEntries (path : Path) (entries : Entries Document) :
    List String → Outcome (Entries Document)
  | [] => .ok []
  | name :: rest =>
    match entries.get? name with
    | none => .error (missingEntry (path ++ [.key name]) name)
    | some value => (pickEntries path entries rest).map ((name, value) :: ·)

/-- The entries with the ones under some names put first, in the order of the names. -/
def reorderEntries (path : Path) (entries : Entries Document) (names : List String) :
    Outcome (Entries Document) :=
  (pickEntries path entries names).map fun first =>
    let first := Entries.ofList first
    first ++ entries.filter fun entry => !first.contains entry.1

/-- Puts the entries under some names first in the mapping at a path. -/
def reorder (navigator : Navigator) (document : Document) (path : Path) (names : List String) :
    Outcome Document := do
  let entries ← navigator.mappingAt document path
  let reordered ← reorderEntries path entries names
  navigator.set document path (.value (.mapping reordered))

/-- Moves the value at one path to another. -/
def move (navigator : Navigator) (document : Document) (source target : Path) :
    Outcome Document := do
  let (value, batch) ← (Batch.start navigator document).remove source
  let batch ← batch.set target (.value value)
  .ok batch.document

end Navigator

/-- The working document after a search, or nothing if it must have changed and did not. -/
def Batch.finished (changedOnly : Bool) : Except (Batch × Error) Batch →
    Outcome (Option Document)
  | .error (_, error) => .error error
  | .ok batch =>
    if changedOnly && !batch.grew 0 then .ok none else .ok (some batch.document)

namespace Context

/-- What a query sees of a document. -/
def scope (context : Context) (document : Document) : Query.Scope :=
  ⟨context.config.queryVariable, document, context.navigator⟩

/-- The options of a search that skips missing paths or not. -/
def search (context : Context) (skipMissing : Bool) : SearchOptions :=
  { context.config.search with skipMissing }

end Context

/-- The value of a query that is given as a text. -/
def Engine.query (engine : Engine) (document : Document) (source : String) :
    Outcome Document := do
  let expr ← Query.parse source
  expr.eval (engine.context.scope document)

/-- The result of an operation; nothing if it drops the document. -/
def Action.run (context : Context) (skipMissing : Bool) (document : Document) :
    Action → Outcome (Option Document)
  | get path keepPath =>
    if keepPath then (context.navigator.getKeepPath document path).map some
    else (context.navigator.get document path).map some
  | set path replacement => (context.navigator.set document path replacement).map some
  | remove path => (context.navigator.remove document path).map some
  | move source target => (context.navigator.move document source target).map some
  | rename path name => (context.navigator.rename document path name).map some
  | reorder path names => (context.navigator.reorder document path names).map some
  | find matcher wanted =>
    .ok (some (matcher.find document wanted (context.search skipMissing)).toDocument)
  | findReplace matcher replacement changedOnly =>
    Batch.finished changedOnly
      ((Batch.start context.navigator document).replaceMatches matcher replacement
        (context.search skipMissing))
  | findRemove matcher changedOnly =>
    Batch.finished changedOnly
      ((Batch.start context.navigator document).removeMatches matcher
        (context.search skipMissing))
  | flatten annotateAll =>
    .ok (some (document.flatten (context.config.flatten annotateAll)).toDocument)
  | unflatten => do
    let dict ← PathDict.ofDocument document
    dict.unflatten.map some
  | query expr => (expr.eval (context.scope document)).map some
  | filter expr =>
    (expr.isTrue (context.scope document)).map fun keep => if keep then some document else none
  | dump indented => .ok (some (.string (document.dump indented)))

/-- The arguments of a step, by position and by name. -/
structure Arguments where
  /-- The arguments by position. -/
  positional : List Document
  /-- The arguments by name. -/
  named : Entries Document

/-- No arguments. -/
def Arguments.empty : Arguments := ⟨[], []⟩

/-- A function of the caller: gives the new document, or nothing to drop it. -/
abbrev StepFunction := Document → Arguments → Outcome (Option Document)

/-- What is done with one document. -/
inductive Step where
  /-- An operation; whether it skips missing paths may be left to the configuration. -/
  | action (action : Action) (skipMissing : Option Bool)
  /-- A function of the caller with its arguments. -/
  | function (f : StepFunction) (arguments : Arguments)
  /-- Steps one after the other, until one drops the document. -/
  | chain (steps : List Step)
  /-- A step whose results are wanted as a plain list. -/
  | raw (step : Step)

namespace Step

/-- An operation that leaves missing paths to the configuration. -/
def ofAction (operation : Action) : Step := action operation none

/-- A function of the document alone, which drops nothing. -/
def map (f : Document → Outcome Document) : Step :=
  function (fun document _ => (f document).map some) .empty

/-- Whether the results are wanted as a plain list. -/
def isRaw : Step → Bool
  | raw _ => true
  | _ => false

/-- The name of a step that is an operation. -/
def name? : Step → Option StepName
  | action operation _ => some operation.name
  | raw step => step.name?
  | _ => none

mutual

/-- The step with missing paths skipped or not, in all its parts. -/
def skippingMissing (skip : Bool) : Step → Step
  | action operation _ => action operation (some skip)
  | function f arguments => function f arguments
  | chain steps => chain (skippingMissingAll skip steps)
  | raw step => raw (skippingMissing skip step)

/-- Steps with missing paths skipped or not. -/
def skippingMissingAll (skip : Bool) : List Step → List Step
  | [] => []
  | step :: rest => skippingMissing skip step :: skippingMissingAll skip rest

end

/-- Drops the document instead of failing on a missing path. -/
def dropMissing (skip : Bool) : Outcome (Option Document) → Outcome (Option Document)
  | .ok result => .ok result
  | .error error => if skip && error.isMissingPath then .ok none else .error error

mutual

/-- The result of a step; nothing if it drops the document. -/
def run (context : Context) : Step → Document → Outcome (Option Document)
  | action operation skipMissing, document =>
    let skip := skipMissing.getD context.config.skipMissing
    dropMissing skip (operation.run context skip document)
  | function f arguments, document => f document arguments
  | chain steps, document => runAll context steps document
  | raw step, document => run context step document

/-- The result of steps one after the other. -/
def runAll (context : Context) : List Step → Document → Outcome (Option Document)
  | [], document => .ok (some document)
  | step :: rest, document =>
    match run context step document with
    | .error error => .error error
    | .ok none => .ok none
    | .ok (some next) => runAll context rest next

end

end Step

end PathDoc

import PathDoc.Step.Basic

/-!
# Collections of documents

A collection is a list of documents with a flag that says whether it stands for a single document.
The flag is lost with the first change that leaves another number of documents than one. Steps are
applied to every document; documents are selected by position, slice, flags or positions; they are
folded as a whole or in groups of equal values at a path.

A step on many documents and the folds of several groups may run side by side in a pool. The results
do not depend on that, but if several tasks fail, which of the failures is reported is open: it is
the choice of a `Pool`. `Collection.applyIn` and `Collection.reduceGroupsIn` take any pool;
`Collection.apply` and `Collection.reduceGroups` run one task after the other, and so report the
first failure.
-/

set_option autoImplicit false

namespace PathDoc

/-- Documents in order. -/
structure Collection where
  /-- The documents. -/
  documents : List Document
  /-- Whether the collection stands for a single document. -/
  single : Bool

/-- Which documents are selected. -/
inductive Selector where
  /-- One position; negative ones count from the end. -/
  | position (position : Int)
  /-- The positions from one bound to before another with a stride. -/
  | slice (start stop : Option Int) (stride : Int)
  /-- The positions whose flag is set. -/
  | mask (flags : List Bool)
  /-- Some positions, in the order given. -/
  | positions (positions : List Int)

/-- The results of a step on a collection. -/
inductive Applied where
  /-- A collection of results. -/
  | collection (collection : Collection)
  /-- The results as a plain list. -/
  | raw (documents : List Document)

/-! ## Tasks -/

/-- The failure of an outcome. -/
def failure? {α : Type} : Outcome α → Option Error
  | .ok _ => none
  | .error error => some error

/-- A pool in which tasks run side by side. If tasks fail, the pool reports one of the failures;
which one may depend on when each task ends. -/
structure Pool where
  /-- The failure that is reported, out of a first one and the others in the order of the tasks. -/
  reported : Error → List Error → Error
  /-- It is one of them. -/
  reported_mem : ∀ first others, reported first others ∈ first :: others

/-- The pool that reports the first failure, as if tasks ran one after the other. -/
def Pool.inOrder : Pool := ⟨fun first _ => first, fun _ _ => List.mem_cons_self⟩

/-- The values of tasks, or the failure that is reported. Where tasks run one after the other that
is the first one. -/
def Pool.collect {α : Type} (pool : Pool) (sideBySide : Bool) (tasks : List (Outcome α)) :
    Outcome (List α) :=
  match tasks.filterMap failure? with
  | [] => .ok (tasks.filterMap Except.toOption)
  | first :: others => .error (if sideBySide then pool.reported first others else first)

namespace Collection

/-- A collection of documents. -/
def ofList (documents : List Document) : Collection := ⟨documents, false⟩

/-- A collection that stands for a single document. -/
def ofSingle (document : Document) : Collection := ⟨[document], true⟩

/-- The collection with other documents; it stands for a single document only as long as there is
exactly one. -/
def settle (collection : Collection) (documents : List Document) : Collection :=
  ⟨documents, collection.single && documents.length == 1⟩

/-- The number of documents. -/
def size (collection : Collection) : Nat := collection.documents.length

/-- Whether there are no documents. -/
def isEmpty (collection : Collection) : Bool := collection.documents.isEmpty

/-- The document at a position. -/
def get? (collection : Collection) (position : Nat) : Option Document :=
  collection.documents[position]?

/-- The failure of a position outside a collection of some size. -/
def outOfRange (position : Int) (size : Nat) : Error :=
  let digits := String.ofList (Decimal.intText position)
  .navigation ("[" ++ digits ++ "]") digits
    ("index out of range for collection of " ++ String.ofList (Decimal.natText size))

/-- A position counted from the start, if it lies in the collection. -/
def within (collection : Collection) (position : Int) : Outcome Nat :=
  match Position.within? position collection.size with
  | some i => .ok i
  | none => .error (outOfRange position collection.size)

/-! ## Changes -/

/-- Adds a document at the end. -/
def push (collection : Collection) (document : Document) : Collection :=
  collection.settle (collection.documents ++ [document])

/-- Puts a document before a position, or at the end; there is no place further on. -/
def insert? (collection : Collection) (position : Nat) (document : Document) :
    Option Collection :=
  if position ≤ collection.size then
    some (collection.settle (collection.documents.insertIdx position document))
  else none

/-- Adds documents at the end. -/
def extend (collection : Collection) (documents : List Document) : Collection :=
  collection.settle (collection.documents ++ documents)

/-- Takes the document at a position out. -/
def remove (collection : Collection) (position : Int) : Outcome (Document × Collection) := do
  let i ← collection.within position
  .ok ((collection.get? i).getD .null, collection.settle (collection.documents.eraseIdx i))

/-- Exchanges the document at a position and gives the old one. -/
def replace (collection : Collection) (position : Int) (document : Document) :
    Outcome (Document × Collection) := do
  let i ← collection.within position
  .ok ((collection.get? i).getD .null,
    { collection with documents := collection.documents.set i document })

/-! ## Selection -/

/-- A bound of a slice, counted from the start and moved into a range. -/
def bound (size : Nat) (low high : Int) (value : Int) : Int :=
  max low (min high (if value < 0 then value + size else value))

/-- Positions that go up by a stride up to before a bound; nothing if the stride leads beyond the
greatest word. -/
def upward (stride : Nat) (stop : Int) : Nat → Int → Option (List Nat)
  | 0, _ => some []
  | fuel + 1, i =>
    if i < stop then
      if i + stride < 0x8000000000000000 then (upward stride stop fuel (i + stride)).map (i.toNat :: ·)
      else none
    else some []

/-- Positions that go down by a stride up to before a bound. -/
def downward (stride : Nat) (stop : Int) : Nat → Int → List Nat
  | 0, _ => []
  | fuel + 1, i => if stop < i then i.toNat :: downward stride stop fuel (i - stride) else []

/-- The positions of a slice of `size` documents, at most that many; nothing if counting them leaves
the range of words. -/
def slicePositions (size : Nat) (start stop : Option Int) (stride : Int) :
    Outcome (Option (List Nat)) :=
  if stride = 0 then .error (.typeMismatch "slice step cannot be zero")
  else if 0 < stride then
    let first := (start.map (bound size 0 size)).getD 0
    let last := (stop.map (bound size 0 size)).getD size
    .ok (upward stride.natAbs last size first)
  else
    let first := (start.map (bound size (-1) (size - 1))).getD (size - 1)
    let last := (stop.map (bound size (-1) (size - 1))).getD (-1)
    .ok (some (downward stride.natAbs last size first))

/-- The documents whose flag is set. -/
def kept : List Document → List Bool → List Document
  | document :: documents, true :: flags => document :: kept documents flags
  | _ :: documents, false :: flags => kept documents flags
  | _, _ => []

/-- The selected documents; nothing if counting the positions of a slice leaves the range of
words. -/
def select (collection : Collection) : Selector → Outcome (Option Collection)
  | .position position => do
    let i ← collection.within position
    .ok (some (ofSingle ((collection.get? i).getD .null)))
  | .slice start stop stride => do
    let positions ← slicePositions collection.size start stop stride
    .ok (positions.map fun positions => ofList (positions.filterMap collection.get?))
  | .mask flags =>
    if flags.length = collection.size then
      .ok (some (ofList (kept collection.documents flags)))
    else
      .error (.typeMismatch ("mask of length " ++ String.ofList (Decimal.natText flags.length) ++
        " for collection of " ++ String.ofList (Decimal.natText collection.size)))
  | .positions positions => do
    let positions ← positions.mapM collection.within
    .ok (some (ofList (positions.filterMap collection.get?)))

/-! ## Steps -/

/-- The results of a step on one document after the other; dropped documents are left out. The
failure that is reported is the one of the first document that fails. -/
def applyAll (context : Context) (step : Step) : List Document → Outcome (List Document)
  | [] => .ok []
  | document :: rest => do
    let result ← step.run context document
    let results ← applyAll context step rest
    .ok (result.toList ++ results)

/-- Applies a step to one document after the other. -/
def apply (collection : Collection) (context : Context) (step : Step) : Outcome Applied := do
  let results ← applyAll context step collection.documents
  if step.isRaw then .ok (.raw results) else .ok (.collection (collection.settle results))

/-- Applies a step to every document, side by side if the configuration allows it and there are
enough documents. -/
def applyIn (pool : Pool) (collection : Collection) (context : Context) (step : Step) :
    Outcome Applied := do
  let sideBySide := context.config.parallel &&
    decide (context.config.parallelThreshold < collection.size)
  let results ← pool.collect sideBySide (collection.documents.map (step.run context))
  let kept := results.filterMap id
  if step.isRaw then .ok (.raw kept) else .ok (.collection (collection.settle kept))

end Collection

/-- The results of a step as a collection. -/
def Applied.toCollection : Applied → Collection
  | collection results => results
  | raw documents => .ofList documents

namespace Collection

/-- The collection of the results of a step. -/
def transform (collection : Collection) (context : Context) (step : Step) :
    Outcome Collection := do
  let applied ← collection.apply context step
  .ok applied.toCollection

/-! ## Folds -/

/-- A function that combines what was folded so far with a document. -/
abbrev Reducer := Document → Document → Outcome Document

/-- Folds documents from the left; without a start the first document is the start. -/
def fold (reduce : Reducer) : Option Document → List Document → Outcome (Option Document)
  | start, [] => .ok start
  | none, document :: rest => fold reduce (some document) rest
  | some current, document :: rest => do
    let next ← reduce current document
    fold reduce (some next) rest

/-- Folds all documents of a collection. -/
def reduce (collection : Collection) (reducer : Reducer) (start : Option Document) :
    Outcome (Option Document) :=
  fold reducer start collection.documents

/-- Each document with its value at a path; documents without one are left out if missing paths are
skipped. -/
def keyed (context : Context) (path : Path) : List Document → Outcome (List (Document × Document))
  | [] => .ok []
  | document :: rest =>
    match context.navigator.get document path with
    | .ok key => (keyed context path rest).map ((key, document) :: ·)
    | .error error =>
      if context.config.skipMissing && error.isMissingPath then keyed context path rest
      else .error error

/-- Adds a document to the first group of its key, or to a new group at the end. -/
def addToGroup (key document : Document) :
    List (Document × List Document) → List (Document × List Document)
  | [] => [(key, [document])]
  | (other, group) :: rest =>
    if other == key then (other, group ++ [document]) :: rest
    else (other, group) :: addToGroup key document rest

/-- Documents in groups of equal keys, in the order in which the keys first appear. -/
def groupAll (pairs : List (Document × Document)) : List (List Document) :=
  (pairs.foldl (fun groups pair => addToGroup pair.1 pair.2 groups) []).map Prod.snd

/-- Documents in runs of neighbours with equal keys; `key` is the key of the run at hand. -/
def groupRuns : Option (Document × List Document) → List (Document × Document) →
    List (List Document)
  | none, [] => []
  | some (_, run), [] => [run]
  | none, (key, document) :: rest => groupRuns (some (key, [document])) rest
  | some (last, run), (key, document) :: rest =>
    if last == key then groupRuns (some (key, run ++ [document])) rest
    else run :: groupRuns (some (key, [document])) rest

/-- Folds each group of documents with equal values at a path; on request only neighbours share a
group. If the configuration allows it several groups are folded side by side. -/
def reduceGroupsIn (pool : Pool) (collection : Collection) (context : Context) (reducer : Reducer)
    (start : Option Document) (path : Path) (neighboursOnly : Bool) : Outcome (List Document) := do
  let pairs ← keyed context path collection.documents
  let groups := if neighboursOnly then groupRuns none pairs else groupAll pairs
  let sideBySide := context.config.parallel && decide (1 < groups.length)
  let folded ← pool.collect sideBySide (groups.map (fold reducer start))
  .ok (folded.filterMap id)

/-- Folds one group of documents with equal values at a path after the other. -/
def reduceGroups (collection : Collection) (context : Context) (reducer : Reducer)
    (start : Option Document) (path : Path) (neighboursOnly : Bool) : Outcome (List Document) :=
  reduceGroupsIn .inOrder collection context reducer start path neighboursOnly

end Collection

end PathDoc

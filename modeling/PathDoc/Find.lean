import PathDoc.Batch
import PathDoc.Flat.Dict
import PathDoc.Match.Value
import PathDoc.Traversal

/-!
# Finding values

A search reports the topmost matches of a value matcher in a document, replaces them or removes
them. Replacing a text by a text changes only the matched stretches where there are any. Writes go
through a batch; a write that fails ends the search unless missing paths are skipped, and the batch
keeps the writes before it.
-/

set_option autoImplicit false

namespace PathDoc

/-- How a document is searched. -/
structure SearchOptions where
  /-- Whether matches whose path cannot be followed are left alone. -/
  skipMissing : Bool
  /-- The walk through the document. -/
  traversal : Traversal

/-- What a search gives back. -/
inductive Wanted where
  /-- Whether anything matches. -/
  | existence
  /-- The matching values by path. -/
  | values
  /-- A report on every match by path. -/
  | reports (shape : Match.Shape)

/-- What a search gives back under a name. -/
def Wanted.ofName? : String → Option Wanted
  | "bool" => some .existence
  | "values" => some .values
  | "matches" => some (.reports .found)
  | "offsets" => some (.reports .offsets)
  | "ranges" => some (.reports .ranges)
  | "strings" => some (.reports .texts)
  | _ => none

/-- What a search found. -/
inductive Findings where
  /-- Whether anything matches. -/
  | existence (found : Bool)
  /-- The matching values by path. -/
  | values (dict : PathDict)
  /-- A report on every match, in the order of paths. -/
  | reports (reports : List (Path × Match.Report))

namespace Findings

/-- Whether anything was found. -/
def found : Findings → Bool
  | existence b => b
  | values dict => !dict.entries.isEmpty
  | reports list => !list.isEmpty

/-- The document of a report. -/
def ofReport : Match.Report → Document
  | .found b => .bool b
  | .offsets list => .sequence (list.map fun n => .int (Int64.ofNat n))
  | .ranges list =>
    .sequence (list.map fun range =>
      .sequence [.int (Int64.ofNat range.1), .int (Int64.ofNat range.2)])
  | .texts list => .sequence (list.map .string)

/-- The document of an entry of a path dictionary; a marker becomes its text. -/
def ofEntry : Entry → Document
  | .value value => value
  | .marker marker => .string marker.text

/-- What was found as a document: a truth value, or a mapping from the texts of paths. -/
def toDocument : Findings → Document
  | existence b => .bool b
  | values dict => .ofPairs (dict.entries.map fun entry => (entry.1.text, ofEntry entry.2))
  | reports list => .ofPairs (list.map fun entry => (entry.1.text, ofReport entry.2))

end Findings

/-- Whether a path comes before another one or is the same. -/
def Path.le (a b : Path) : Bool :=
  (compare a b).isLE

namespace Match.ValueMatcher

/-- The topmost matches in a document with their paths. -/
def topmost (matcher : ValueMatcher) (document : Document) (options : SearchOptions) :
    List (Path × Document) :=
  options.traversal.findPaths matcher.isMatch document

/-- What a search finds in a document. -/
def find (matcher : ValueMatcher) (document : Document) (wanted : Wanted)
    (options : SearchOptions) : Findings :=
  match wanted with
  | .existence => .existence (options.traversal.contains matcher.isMatch document)
  | .values =>
    .values (.ofList ((matcher.topmost document options).map fun m => (m.1, .value m.2)))
  | .reports shape =>
    .reports (((matcher.topmost document options).map fun m =>
      (m.1, matcher.describe m.2 shape)).mergeSort fun a b => a.1.le b.1)

/-- What is stored in the place of a match. -/
def replacementFor (matcher : ValueMatcher) (replacement : Replacement) (value : Document) :
    Replacement :=
  match replacement, value with
  | .value (.scalar (.string replacementText)), .scalar (.string text) =>
    match matcher.replace? text.toList replacementText.toList with
    | some replaced => .value (.string (String.ofList replaced))
    | none => replacement
  | _, _ => replacement

end Match.ValueMatcher

namespace Batch

open Match

/-- Carries out a write for each item. A failure comes with the batch of the writes before it; a
missing path is passed over if asked for. -/
def writeEach {α : Type} (skipMissing : Bool) (write : Batch → α → Outcome Batch) :
    Batch → List α → Except (Batch × Error) Batch
  | batch, [] => .ok batch
  | batch, item :: rest =>
    match write batch item with
    | .ok batch => writeEach skipMissing write batch rest
    | .error error =>
      if skipMissing && error.isMissingPath then writeEach skipMissing write batch rest
      else .error (batch, error)

/-- Replaces every match in the working document. -/
def replaceMatches (batch : Batch) (matcher : ValueMatcher) (replacement : Replacement)
    (options : SearchOptions) : Except (Batch × Error) Batch :=
  writeEach options.skipMissing
    (fun batch (found : Path × Document) =>
      batch.set found.1 (matcher.replacementFor replacement found.2))
    batch (matcher.topmost batch.document options)

/-- Removes every match from the working document, later positions first. -/
def removeMatches (batch : Batch) (matcher : ValueMatcher) (options : SearchOptions) :
    Except (Batch × Error) Batch :=
  let paths := (matcher.topmost batch.document options).map Prod.fst
  writeEach options.skipMissing (fun batch path => (batch.remove path).map Prod.snd)
    batch (paths.mergeSort fun a b => b.le a)

end Batch

namespace Navigator

open Match

/-- The document with every match replaced. -/
def replaceMatches (navigator : Navigator) (document : Document) (matcher : ValueMatcher)
    (replacement : Replacement) (options : SearchOptions) : Outcome Document :=
  match (Batch.start navigator document).replaceMatches matcher replacement options with
  | .ok batch => .ok batch.document
  | .error (_, error) => .error error

/-- The document without its matches. -/
def removeMatches (navigator : Navigator) (document : Document) (matcher : ValueMatcher)
    (options : SearchOptions) : Outcome Document :=
  match (Batch.start navigator document).removeMatches matcher options with
  | .ok batch => .ok batch.document
  | .error (_, error) => .error error

end Navigator

end PathDoc

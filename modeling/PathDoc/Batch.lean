import PathDoc.Path.Surface
import PathDoc.Write

/-!
# Batches of writes

A batch carries a working document through several writes and remembers which paths it wrote. It
also counts the containers it had to copy: a container on the way of a write is copied the first
time the batch passes it, and never when it lies in a value that the batch itself stored. A write
that fails leaves the batch as it was.
-/

set_option autoImplicit false

namespace PathDoc

/-- A working document with the record of the writes made to it. -/
structure Batch where
  /-- How the batch follows paths. -/
  navigator : Navigator
  /-- The working document. -/
  document : Document
  /-- The paths whose containers are already the batch's own copies. -/
  touched : List Path
  /-- The paths at which the batch stored a value. -/
  stored : List Path
  /-- How many containers were copied. -/
  copies : Nat
  /-- The paths written so far, in order. -/
  written : List Path

namespace Batch

/-- A batch over a document, before any write. -/
def start (navigator : Navigator) (document : Document) : Batch :=
  ⟨navigator, document, [], [], 0, []⟩

/-- Whether the container at a path still belongs to the source document. -/
def isFresh (batch : Batch) (path : Path) : Bool :=
  !batch.touched.contains path && !batch.stored.any fun above => Path.startsWith path above

/-- All paths at or above a path, the root first. -/
def waypoints (path : Path) : List Path :=
  (List.range (path.length + 1)).map path.take

/-- How many containers a write copies: those on the way to the container of the last token, and
that container itself if it changed. -/
def copiesFor (batch : Batch) (path : Path) (changed : Bool) : Nat :=
  let containers := waypoints path.dropLast
  ((if changed then containers else containers.dropLast).filter batch.isFresh).length

/-- Enters a write that succeeded into the record. -/
def record (batch : Batch) (path : Path) (effect : Written) (storesValue : Bool) : Batch where
  navigator := batch.navigator
  document := effect.document
  touched := waypoints path ++ batch.touched
  stored := if storesValue && !path.isEmpty then path :: batch.stored else batch.stored
  copies := batch.copies + if path.isEmpty then 0 else batch.copiesFor path effect.changed
  written := batch.written ++ [path]

/-- Stores a value at a path. -/
def set (batch : Batch) (path : Path) (replacement : Replacement) : Outcome Batch :=
  (batch.navigator.write batch.document path (.set replacement)).map fun effect =>
    batch.record path effect true

/-- Removes the value at a path and gives it back. -/
def remove (batch : Batch) (path : Path) : Outcome (Document × Batch) :=
  (batch.navigator.write batch.document path .remove).map fun effect =>
    (effect.previous.getD .null, batch.record path effect false)

/-- The value at a path of the working document. -/
def get (batch : Batch) (path : Path) : Outcome Document :=
  batch.navigator.get batch.document path

/-- The number of writes so far. -/
def checkpoint (batch : Batch) : Nat :=
  batch.written.length

/-- Whether writes landed since a checkpoint. -/
def grew (batch : Batch) (checkpoint : Nat) : Bool :=
  checkpoint < batch.written.length

end Batch

end PathDoc

import PathDoc.Batch
import PathDoc.Proofs.Write.Sequences

/-!
# Writes in place

`Navigator.write` gives a new document or an error. Here a write is carried out on a document that
it changes: a cursor goes down along the tokens, the container it ends at is changed where it
stands, and whatever the cursor has reached when something fails is what the caller is left with
(`Navigator.edit`). On its way the write asks for every container whether it has to be copied first;
a batch answers from its record (`Batch.edit`), an owner of the document never copies
(`Navigator.editInPlace`).

The cursor never changes the document it goes through (`Cursor.whole_walk`), it comes out where
`Navigator.descend` does (`Cursor.descend_of_walk`), and it counts the copies that the batch records
(`Cursor.copies_walk`). So `Navigator.edit` is `Navigator.write`, whatever is to be copied, and a
run of writes gives the same answers and documents in a batch and in place, where a write that fails
changes nothing (`runEach_editInPlace_eq`).
-/

set_option autoImplicit false

namespace PathDoc

/-! ## Walking down -/

/-- A node that a write has reached. -/
structure Cursor where
  /-- The node. -/
  node : Document
  /-- The containers on the way with the slots gone through, the innermost first. -/
  around : List (Document × Slot)
  /-- The tokens followed so far. -/
  behind : Path
  /-- How many containers were copied on the way. -/
  copies : Nat

namespace Cursor

variable {navigator : Navigator} {isFresh : Path → Bool}

/-- At the root of a document. -/
def atRoot (document : Document) : Cursor := ⟨document, [], [], 0⟩

/-- The document with another value in place of the node. -/
def rebuild (cursor : Cursor) (value : Document) : Document :=
  cursor.around.foldl (fun inner frame => frame.1.put frame.2 inner) value

/-- The document that the cursor stands in. -/
def whole (cursor : Cursor) : Document :=
  cursor.rebuild cursor.node

/-- The effect on the document of a write to the node. -/
def finish (cursor : Cursor) (written : Written) : Written :=
  { written with document := cursor.rebuild written.document }

/-- Goes to the child that a token addresses, through a copy of the node if it is fresh. -/
def enter (navigator : Navigator) (isFresh : Path → Bool) (cursor : Cursor) (token : Token) :
    Except Miss Cursor :=
  (navigator.child cursor.node token).map fun found =>
    { node := found.2
      around := (cursor.node, found.1) :: cursor.around
      behind := cursor.behind ++ [token]
      copies := cursor.copies + if isFresh cursor.behind then 1 else 0 }

/-- Goes along tokens as far as they lead, and says where it came to and whether it got through. -/
def walk (navigator : Navigator) (isFresh : Path → Bool) (path : Path) :
    Cursor → List Token → Outcome Unit × Cursor
  | cursor, [] => (.ok (), cursor)
  | cursor, token :: rest =>
    match cursor.enter navigator isFresh token with
    | .error miss => (.error (miss.toError path token), cursor)
    | .ok next => walk navigator isFresh path next rest

theorem enter_eq_ok_iff {cursor next : Cursor} {token : Token} :
    cursor.enter navigator isFresh token = .ok next ↔
      ∃ slot child, navigator.child cursor.node token = .ok (slot, child) ∧
        next = ⟨child, (cursor.node, slot) :: cursor.around, cursor.behind ++ [token],
          cursor.copies + if isFresh cursor.behind then 1 else 0⟩ := by
  rw [enter]
  rcases navigator.child cursor.node token with miss | ⟨slot, child⟩
  · exact ⟨fun h => (nomatch h), fun ⟨_, _, h, _⟩ => (nomatch h)⟩
  · constructor
    · rintro h
      exact ⟨slot, child, rfl, (Except.ok.inj h).symm⟩
    · rintro ⟨_, _, h, rfl⟩
      cases h
      rfl

theorem enter_eq_error_iff {cursor : Cursor} {token : Token} {miss : Miss} :
    cursor.enter navigator isFresh token = .error miss ↔
      navigator.child cursor.node token = .error miss := by
  rw [enter]
  cases navigator.child cursor.node token <;> simp [Except.map]

/-- A walk gets through if it comes to the first child and gets through from there. -/
theorem walk_cons_eq_ok_iff {path : Path} {cursor reached : Cursor} {token : Token}
    {rest : List Token} :
    cursor.walk navigator isFresh path (token :: rest) = (.ok (), reached) ↔
      ∃ next, cursor.enter navigator isFresh token = .ok next ∧
        next.walk navigator isFresh path rest = (.ok (), reached) := by
  rw [walk]
  cases cursor.enter navigator isFresh token <;> simp

/-- A step down changes nothing. -/
theorem whole_enter {cursor next : Cursor} {token : Token}
    (h : cursor.enter navigator isFresh token = .ok next) : next.whole = cursor.whole := by
  obtain ⟨slot, child, hc, rfl⟩ := enter_eq_ok_iff.1 h
  obtain ⟨-, ha⟩ := Navigator.child_eq_ok_iff.1 hc
  change cursor.rebuild (cursor.node.put slot child) = cursor.whole
  rw [Document.put_self ha]
  rfl

/-- **A walk changes nothing, wherever it stops.** -/
theorem whole_walk (path : Path) (cursor : Cursor) (tokens : List Token) :
    (cursor.walk navigator isFresh path tokens).2.whole = cursor.whole := by
  induction tokens generalizing cursor with
  | nil => rfl
  | cons token rest ih =>
      rw [walk]
      cases he : cursor.enter navigator isFresh token with
      | error miss => rfl
      | ok next => exact (ih next).trans (whole_enter he)

/-- A walk that stops fails the way down. -/
theorem descend_of_walk_error {path : Path} {cursor reached : Cursor} {tokens : List Token}
    {error : Error} (h : cursor.walk navigator isFresh path tokens = (.error error, reached))
    (change : Document → Outcome Written) :
    navigator.descend path change cursor.node tokens = .error error := by
  induction tokens generalizing cursor with
  | nil => cases h
  | cons token rest ih =>
      rw [walk] at h
      rw [Navigator.descend]
      -- the cursor and the way down enter a child with the same step
      cases he : cursor.enter navigator isFresh token with
      | error miss =>
          rw [he] at h
          cases h
          rw [enter_eq_error_iff.1 he]
      | ok next =>
          rw [he] at h
          obtain ⟨slot, child, hc, rfl⟩ := enter_eq_ok_iff.1 he
          simp only [hc]
          rw [ih h]
          rfl

/-- **A change at the end of a walk is a change on the way down**, in the document around it. -/
theorem descend_of_walk {path : Path} {cursor reached : Cursor} {tokens : List Token}
    (h : cursor.walk navigator isFresh path tokens = (.ok (), reached))
    (change : Document → Outcome Written) :
    (navigator.descend path change cursor.node tokens).map cursor.finish =
      (change reached.node).map reached.finish := by
  -- induction on the tokens; the child is put back by the frame that the step down leaves
  induction tokens generalizing cursor with
  | nil =>
      cases h
      rfl
  | cons token rest ih =>
      obtain ⟨next, he, hrest⟩ := walk_cons_eq_ok_iff.1 h
      obtain ⟨slot, child, hc, rfl⟩ := enter_eq_ok_iff.1 he
      rw [← ih hrest, Navigator.descend]
      simp only [hc]
      cases navigator.descend path change child rest <;> rfl

/-- A path that is walked along has been walked along. -/
theorem behind_walk {path : Path} {cursor reached : Cursor} {tokens : List Token}
    (h : cursor.walk navigator isFresh path tokens = (.ok (), reached)) :
    reached.behind = cursor.behind ++ tokens := by
  induction tokens generalizing cursor with
  | nil =>
      cases h
      exact (List.append_nil _).symm
  | cons token rest ih =>
      obtain ⟨next, he, hrest⟩ := walk_cons_eq_ok_iff.1 h
      obtain ⟨slot, child, -, rfl⟩ := enter_eq_ok_iff.1 he
      rw [ih hrest, List.append_assoc]
      rfl

end Cursor

namespace Batch

/-- The paths at or above a path that has a first token. -/
theorem waypoints_cons (token : Token) (rest : Path) :
    waypoints (token :: rest) = [] :: (waypoints rest).map (token :: ·) := by
  rw [waypoints, waypoints, List.length_cons, List.range_succ_eq_map, List.map_cons, List.map_map,
    List.map_map]
  rfl

theorem waypoints_ne_nil (path : Path) : waypoints path ≠ [] := by
  simp [waypoints]

/-- The last path at or above a path is the path. -/
theorem waypoints_eq_concat (path : Path) :
    waypoints path = (waypoints path).dropLast ++ [path] := by
  rw [waypoints, List.range_succ, List.map_append, List.map_singleton, List.take_length,
    List.dropLast_concat]

/-- The containers on the way and the last one, if it changed. -/
theorem length_filter_waypoints (isFresh : Path → Bool) (path : Path) (changed : Bool) :
    ((waypoints path).dropLast.filter isFresh).length +
        (if changed && isFresh path then 1 else 0) =
      ((if changed then waypoints path else (waypoints path).dropLast).filter isFresh).length := by
  cases changed with
  | false => rfl
  | true =>
      rw [if_pos rfl]
      conv_rhs => rw [waypoints_eq_concat]
      rw [List.filter_append, List.length_append]
      cases hf : isFresh path <;> simp [hf]

end Batch

namespace Cursor

variable {navigator : Navigator} {isFresh : Path → Bool}

/-- **A walk copies the fresh containers on its way once each.** -/
theorem copies_walk {path : Path} {cursor reached : Cursor} {tokens : List Token}
    (h : cursor.walk navigator isFresh path tokens = (.ok (), reached)) :
    reached.copies = cursor.copies +
      ((Batch.waypoints tokens).dropLast.filter fun above =>
        isFresh (cursor.behind ++ above)).length := by
  induction tokens generalizing cursor with
  | nil =>
      cases h
      rfl
  | cons token rest ih =>
      obtain ⟨next, he, hrest⟩ := walk_cons_eq_ok_iff.1 h
      have hcopies := ih hrest
      obtain ⟨slot, child, -, rfl⟩ := enter_eq_ok_iff.1 he
      simp only [List.append_assoc, List.singleton_append] at hcopies
      -- the container left behind is the first of the waypoints, and the others lie below it
      have hne : (Batch.waypoints rest).map (token :: ·) ≠ [] := by
        simpa using Batch.waypoints_ne_nil rest
      rw [Batch.waypoints_cons, List.dropLast_cons_of_ne_nil hne, ← List.map_dropLast,
        List.filter_cons, List.filter_map, hcopies, List.append_nil]
      cases hf : isFresh cursor.behind with
      | false =>
          simp only [List.length_map, Function.comp_def, Bool.false_eq_true, if_false]
          rfl
      | true =>
          simp only [List.length_map, List.length_cons, Function.comp_def, if_true]
          exact Nat.add_right_comm ..

end Cursor

/-! ## One write -/

/-- What a write leaves behind. -/
structure Edited where
  /-- The value that was replaced or removed, or why the write failed. -/
  result : Outcome (Option Document)
  /-- The document, changed or not. -/
  document : Document
  /-- How many containers were copied. -/
  copies : Nat

namespace Navigator

/-- Carries out an operation at a path on a document that it changes, and copies a container on the
way if it is fresh. -/
def edit (navigator : Navigator) (isFresh : Path → Bool) (document : Document) (path : Path)
    (operation : Operation) : Edited :=
  match path.getLast? with
  | none =>
    match applyRoot document operation with
    | .error error => ⟨.error error, document, 0⟩
    | .ok written => ⟨.ok written.previous, written.document, 0⟩
  | some last =>
    match (Cursor.atRoot document).walk navigator isFresh path path.dropLast with
    | (.error error, reached) => ⟨.error error, reached.whole, reached.copies⟩
    | (.ok (), reached) =>
      match navigator.applyLast path last reached.node operation with
      | .error error => ⟨.error error, reached.whole, reached.copies⟩
      | .ok written =>
        ⟨.ok written.previous, reached.rebuild written.document,
          reached.copies + if written.changed && isFresh reached.behind then 1 else 0⟩

variable {navigator : Navigator} {isFresh : Path → Bool} {document : Document} {path : Path}
  {operation : Operation}

/-- A write with tokens to follow, when the walk along them stops. -/
theorem write_of_walk_error {last : Token} {reached : Cursor} {error : Error}
    (hl : path.getLast? = some last)
    (hw : (Cursor.atRoot document).walk navigator isFresh path path.dropLast =
      (.error error, reached)) :
    navigator.write document path operation = .error error := by
  rw [write, hl]
  exact Cursor.descend_of_walk_error hw _

/-- A write with tokens to follow, when the walk along them gets through. -/
theorem write_of_walk {last : Token} {reached : Cursor} (hl : path.getLast? = some last)
    (hw : (Cursor.atRoot document).walk navigator isFresh path path.dropLast = (.ok (), reached)) :
    navigator.write document path operation =
      (navigator.applyLast path last reached.node operation).map reached.finish := by
  rw [write, hl]
  rw [← Cursor.descend_of_walk hw fun node => navigator.applyLast path last node operation]
  exact (congrFun Except.map_id _).symm

/-- **A write in place fails as the write does, and then the document is as it was.** -/
theorem edit_of_error (isFresh : Path → Bool) {error : Error}
    (h : navigator.write document path operation = .error error) :
    ∃ copies,
      navigator.edit isFresh document path operation = ⟨.error error, document, copies⟩ := by
  rw [edit]
  cases hl : path.getLast? with
  | none =>
      rw [write, hl] at h
      simp only [h]
      exact ⟨0, rfl⟩
  | some last =>
      have hwhole : ((Cursor.atRoot document).walk navigator isFresh path path.dropLast).2.whole =
          (Cursor.atRoot document).whole := Cursor.whole_walk path _ path.dropLast
      -- the walk stops, or the operation on the last token fails; the document is whole either way
      rcases hw : (Cursor.atRoot document).walk navigator isFresh path path.dropLast with
        ⟨failure | _, reached⟩
      · cases (write_of_walk_error hl hw).symm.trans h
        rw [hw] at hwhole
        exact ⟨reached.copies, congrArg (Edited.mk _ · _) hwhole⟩
      · rw [write_of_walk hl hw] at h
        rw [hw] at hwhole
        cases ha : navigator.applyLast path last reached.node operation with
        | error failure =>
            rw [ha] at h
            cases h
            refine ⟨reached.copies, ?_⟩
            simp only [ha]
            exact congrArg (Edited.mk _ · _) hwhole
        | ok written =>
            rw [ha] at h
            cases h

/-- **A write in place leaves the document that the write gives**, and copies the fresh containers
on the way, the last of them only if it changed. -/
theorem edit_of_ok (isFresh : Path → Bool) {written : Written}
    (h : navigator.write document path operation = .ok written) :
    navigator.edit isFresh document path operation =
      ⟨.ok written.previous, written.document,
        if path.isEmpty then 0
        else
          ((if written.changed then Batch.waypoints path.dropLast
            else (Batch.waypoints path.dropLast).dropLast).filter isFresh).length⟩ := by
  rw [edit]
  cases hl : path.getLast? with
  | none =>
      -- the root is replaced without any walk
      rw [write, hl] at h
      rw [List.getLast?_eq_none_iff.1 hl]
      simp only [h]
      rfl
  | some last =>
      have hne : path.isEmpty = false := by
        cases path with
        | nil => cases hl
        | cons token rest => rfl
      rcases hw : (Cursor.atRoot document).walk navigator isFresh path path.dropLast with
        ⟨failure | _, reached⟩
      · cases (write_of_walk_error hl hw).symm.trans h
      · rw [write_of_walk hl hw] at h
        cases ha : navigator.applyLast path last reached.node operation with
        | error failure =>
            rw [ha] at h
            cases h
        | ok effect =>
            rw [ha] at h
            cases h
            -- the walk has copied the fresh ones of all waypoints but the last
            have hcopies : reached.copies =
                ((Batch.waypoints path.dropLast).dropLast.filter isFresh).length := by
              simpa [Cursor.atRoot] using Cursor.copies_walk hw
            have hbehind : reached.behind = path.dropLast := by
              simpa [Cursor.atRoot] using Cursor.behind_walk hw
            simp only [hne, ha, hcopies, hbehind, Batch.length_filter_waypoints]
            rfl

end Navigator

/-! ## Operations with an answer -/

namespace Operation

/-- What the caller of an operation is told: a removal gives the value that was removed. -/
def answer : Operation → Option Document → Option Document
  | .set _, _ => none
  | .remove, previous => some (previous.getD .null)

/-- Whether an operation stores a value. -/
def storesValue : Operation → Bool
  | .set _ => true
  | .remove => false

end Operation

namespace Navigator

/-- Carries out an operation on a document of the caller's own, of which nothing is shared. -/
def editInPlace (navigator : Navigator) (document : Document) (write : Path × Operation) :
    Outcome (Option Document) × Document :=
  let edited := navigator.edit (fun _ => false) document write.1 write.2
  (edited.result.map write.2.answer, edited.document)

/-- Carries out an operation through the functions that give a new document. -/
def perform (navigator : Navigator) (document : Document) :
    Path × Operation → Outcome (Option Document) × Document
  | (path, .set replacement) =>
    match navigator.set document path replacement with
    | .error error => (.error error, document)
    | .ok next => (.ok none, next)
  | (path, .remove) =>
    match navigator.take document path with
    | .error error => (.error error, document)
    | .ok (removed, next) => (.ok (some removed), next)

theorem perform_eq (navigator : Navigator) (document : Document) (path : Path)
    (operation : Operation) :
    navigator.perform document (path, operation) =
      match navigator.write document path operation with
      | .error error => (.error error, document)
      | .ok written => (.ok (operation.answer written.previous), written.document) := by
  cases operation with
  | set replacement =>
      rw [perform, Navigator.set]
      cases navigator.write document path (.set replacement) <;> rfl
  | remove =>
      rw [perform, Navigator.take]
      cases navigator.write document path .remove <;> rfl

/-- **A write on a document of one's own is the write that gives a new document.** -/
theorem editInPlace_eq_perform (navigator : Navigator) (document : Document)
    (write : Path × Operation) :
    navigator.editInPlace document write = navigator.perform document write := by
  obtain ⟨path, operation⟩ := write
  rw [editInPlace, perform_eq]
  cases hw : navigator.write document path operation with
  | error error =>
      obtain ⟨copies, he⟩ := edit_of_error (fun _ => false) hw
      simp only [he]
      rfl
  | ok written =>
      simp only [edit_of_ok (fun _ => false) hw]
      rfl

end Navigator

namespace Batch

/-- Carries out an operation on the working document of a batch. What was copied and written is
entered into the record only if nothing failed. -/
def edit (batch : Batch) (write : Path × Operation) : Outcome (Option Document) × Batch :=
  let edited := batch.navigator.edit batch.isFresh batch.document write.1 write.2
  match edited.result with
  | .error error => (.error error, { batch with document := edited.document })
  | .ok previous =>
    (.ok (write.2.answer previous),
      { navigator := batch.navigator
        document := edited.document
        touched := waypoints write.1 ++ batch.touched
        stored :=
          if write.2.storesValue && !write.1.isEmpty then write.1 :: batch.stored else batch.stored
        copies := batch.copies + edited.copies
        written := batch.written ++ [write.1] })

/-- Carries out an operation through the functions that give a new batch. -/
def perform (batch : Batch) : Path × Operation → Outcome (Option Document) × Batch
  | (path, .set replacement) =>
    match batch.set path replacement with
    | .error error => (.error error, batch)
    | .ok next => (.ok none, next)
  | (path, .remove) =>
    match batch.remove path with
    | .error error => (.error error, batch)
    | .ok (removed, next) => (.ok (some removed), next)

theorem perform_eq (batch : Batch) (path : Path) (operation : Operation) :
    batch.perform (path, operation) =
      match batch.navigator.write batch.document path operation with
      | .error error => (.error error, batch)
      | .ok written =>
        (.ok (operation.answer written.previous),
          batch.record path written operation.storesValue) := by
  cases operation with
  | set replacement =>
      rw [perform, Batch.set]
      cases batch.navigator.write batch.document path (.set replacement) <;> rfl
  | remove =>
      rw [perform, Batch.remove]
      cases batch.navigator.write batch.document path .remove <;> rfl

/-- **A write on the working document is the write that gives a new batch.** -/
theorem edit_eq_perform (batch : Batch) (write : Path × Operation) :
    batch.edit write = batch.perform write := by
  obtain ⟨path, operation⟩ := write
  rw [edit, perform_eq]
  cases hw : batch.navigator.write batch.document path operation with
  | error error =>
      obtain ⟨copies, he⟩ := Navigator.edit_of_error batch.isFresh hw
      simp only [he]
  | ok written =>
      simp only [Navigator.edit_of_ok batch.isFresh hw]
      rfl

/-- **What a batch remembers does not affect what its writes do.** -/
theorem edit_document (batch : Batch) (write : Path × Operation) :
    ((batch.edit write).1, (batch.edit write).2.document) =
      batch.navigator.editInPlace batch.document write := by
  obtain ⟨path, operation⟩ := write
  rw [edit_eq_perform, perform_eq, Navigator.editInPlace_eq_perform, Navigator.perform_eq]
  cases batch.navigator.write batch.document path operation <;> rfl

theorem navigator_edit (batch : Batch) (write : Path × Operation) :
    (batch.edit write).2.navigator = batch.navigator := by
  obtain ⟨path, operation⟩ := write
  rw [edit_eq_perform, perform_eq]
  cases batch.navigator.write batch.document path operation <;> rfl

/-- **A write that fails leaves the whole batch as it was.** -/
theorem edit_of_error {batch : Batch} {write : Path × Operation} {error : Error}
    (h : (batch.edit write).1 = .error error) : (batch.edit write).2 = batch := by
  obtain ⟨path, operation⟩ := write
  rw [edit_eq_perform, perform_eq] at h ⊢
  cases hw : batch.navigator.write batch.document path operation with
  | error failure => rfl
  | ok written =>
      rw [hw] at h
      cases h

end Batch

/-! ## Runs -/

/-- One operation of a run, with what it was answered. -/
structure Edit (State : Type) where
  /-- The state before the operation. -/
  before : State
  /-- What the caller was told. -/
  answer : Outcome (Option Document)
  /-- The state after the operation. -/
  after : State

/-- An operation seen through a view of the state. -/
def Edit.map {State View : Type} (view : State → View) (edit : Edit State) : Edit View :=
  ⟨view edit.before, edit.answer, view edit.after⟩

/-- Carries out operations one after the other, each on the state that the one before it left. -/
def runEach {State : Type}
    (execute : State → Path × Operation → Outcome (Option Document) × State) :
    State → List (Path × Operation) → List (Edit State)
  | _, [] => []
  | state, write :: rest =>
    ⟨state, (execute state write).1, (execute state write).2⟩ ::
      runEach execute (execute state write).2 rest

/-- A run of a batch, seen through its working document, is a run in place. -/
theorem map_runEach_edit (batch : Batch) (operations : List (Path × Operation)) :
    (runEach Batch.edit batch operations).map (Edit.map Batch.document) =
      runEach batch.navigator.editInPlace batch.document operations := by
  induction operations generalizing batch with
  | nil => rfl
  | cons write rest ih =>
      have hrest := ih (batch.edit write).2
      rw [Batch.navigator_edit] at hrest
      rw [runEach, runEach, List.map_cons, hrest, ← Batch.edit_document]
      rfl

/-- A property of single operations holds throughout a run. -/
theorem forall_mem_runEach {State : Type}
    {execute : State → Path × Operation → Outcome (Option Document) × State}
    {P : Edit State → Prop}
    (h : ∀ state write, P ⟨state, (execute state write).1, (execute state write).2⟩)
    (state : State) (operations : List (Path × Operation)) :
    ∀ edit ∈ runEach execute state operations, P edit := by
  induction operations generalizing state with
  | nil => exact fun _ hm => nomatch hm
  | cons write rest ih => exact List.forall_mem_cons.2 ⟨h state write, ih _⟩

/-- **A batch and a document of one's own go the same way.** Through any run of writes and removals,
of fixed values and of functions, along any paths and with any failures, each operation gives the
same answer or error on both and leaves the same document. One that fails leaves the batch as it
was, its document, its written paths and its count of copies included. Both runs, which change the
document step by step and may stop halfway, are the runs of the functions that give a new batch and
a new document. -/
theorem runEach_editInPlace_eq (navigator : Navigator) (document : Document)
    (operations : List (Path × Operation)) :
    let batch := Batch.start navigator document
    runEach navigator.editInPlace document operations =
        (runEach Batch.edit batch operations).map (Edit.map Batch.document) ∧
      (∀ edit ∈ runEach Batch.edit batch operations, ∀ error,
        edit.answer = .error error → edit.after = edit.before) ∧
      runEach Batch.edit batch operations = runEach Batch.perform batch operations ∧
      runEach navigator.editInPlace document operations =
        runEach navigator.perform document operations := by
  intro batch
  have hbatch : Batch.edit = Batch.perform := by
    funext state write
    exact state.edit_eq_perform write
  have halone : navigator.editInPlace = navigator.perform := by
    funext state write
    exact navigator.editInPlace_eq_perform state write
  refine ⟨(map_runEach_edit batch operations).symm, ?_, by rw [hbatch], by rw [halone]⟩
  exact forall_mem_runEach (fun state write error h => Batch.edit_of_error h) batch operations

end PathDoc

import PathDoc.Write

/-!
# The walk to a container

`Navigator.descend` reads its way to a container, makes a change there and puts what the change
gives into the place of the container. `descend_eq` says so in terms of `Navigator.follow`, which
reads, and `Navigator.replaceAt`, which replaces. So a walk succeeds exactly if reading does and
then the change (`exists_descend_iff`), and fails as they fail (`descend_eq_error_iff`).
-/

set_option autoImplicit false

namespace PathDoc.Navigator

variable {navigator : Navigator} {path : Path} {node child value : Document} {token : Token}
  {slot : Slot}

/-! ## Reading along tokens -/

theorem follow_cons_of_child (h : navigator.child node token = .ok (slot, child))
    (rest : List Token) :
    navigator.follow path node (token :: rest) = navigator.follow path child rest := by
  rw [follow, h]

theorem follow_cons_eq_ok_iff {rest : List Token} :
    navigator.follow path node (token :: rest) = .ok value ↔
      ∃ slot child, navigator.child node token = .ok (slot, child) ∧
        navigator.follow path child rest = .ok value := by
  rw [follow]
  cases navigator.child node token with
  | error miss => simp
  | ok found =>
      obtain ⟨slot, child⟩ := found
      constructor
      · exact fun h => ⟨slot, child, rfl, h⟩
      · rintro ⟨_, _, ⟨⟩, h⟩
        exact h

/-- The path that errors name does not matter where there is none. -/
theorem follow_path {p q : Path} {tokens : List Token}
    (h : navigator.follow p node tokens = .ok value) :
    navigator.follow q node tokens = .ok value := by
  induction tokens generalizing node with
  | nil => exact h
  | cons token rest ih =>
      obtain ⟨slot, child, hc, hrest⟩ := follow_cons_eq_ok_iff.1 h
      exact follow_cons_eq_ok_iff.2 ⟨slot, child, hc, ih hrest⟩

/-- Reading along tokens is reading along the first ones and then along the others. -/
theorem follow_append (node : Document) (above below : List Token) :
    navigator.follow path node (above ++ below) =
      navigator.follow path node above >>= fun inner => navigator.follow path inner below := by
  induction above generalizing node with
  | nil => rfl
  | cons token rest ih =>
      rw [List.cons_append, follow, follow]
      cases navigator.child node token with
      | error miss => rfl
      | ok found => exact ih found.2

/-- Reading to the end is reading to the container and then its child. -/
theorem follow_concat {parents : List Token} {last : Token} :
    navigator.follow path node (parents ++ [last]) = .ok value ↔
      ∃ container, navigator.follow path node parents = .ok container ∧
        ∃ slot, navigator.child container last = .ok (slot, value) := by
  rw [follow_append, bind_eq_ok_iff]
  refine exists_congr fun container => and_congr_right fun _ => ?_
  rw [follow_cons_eq_ok_iff]
  simp [follow]

/-! ## Changing a container -/

/-- The document with another value in place of the one that a path leads to. -/
def replaceAt (navigator : Navigator) : Document → Path → Document → Document
  | _, [], value => value
  | node, token :: rest, value =>
    match navigator.child node token with
    | .error _ => node
    | .ok (slot, child) => node.put slot (navigator.replaceAt child rest value)

theorem replaceAt_cons (hc : navigator.child node token = .ok (slot, child)) (rest : Path)
    (value : Document) :
    navigator.replaceAt node (token :: rest) value =
      node.put slot (navigator.replaceAt child rest value) := by
  rw [replaceAt, hc]

variable {change : Document → Outcome Written} {parents : List Token}

theorem descend_cons_eq_ok_iff {rest : List Token} {written : Written} :
    navigator.descend path change node (token :: rest) = .ok written ↔
      ∃ slot child inner, navigator.child node token = .ok (slot, child) ∧
        navigator.descend path change child rest = .ok inner ∧
        { inner with document := node.put slot inner.document } = written := by
  rw [descend]
  cases navigator.child node token with
  | error miss => simp
  | ok found =>
      obtain ⟨slot, child⟩ := found
      simp only [map_eq_ok_iff]
      constructor
      · rintro ⟨inner, hinner, he⟩
        exact ⟨slot, child, inner, rfl, hinner, he⟩
      · rintro ⟨_, _, inner, ⟨⟩, hinner, he⟩
        exact ⟨inner, hinner, he⟩

/-- **A walk with a change at its end** reads to the container, makes the change there and puts what
it gives into the place of the container. -/
theorem descend_eq (change : Document → Outcome Written) (node : Document)
    (parents : List Token) :
    navigator.descend path change node parents =
      navigator.follow path node parents >>= fun container =>
        (change container).map fun written =>
          { written with document := navigator.replaceAt node parents written.document } := by
  induction parents generalizing node with
  | nil =>
      rw [descend, follow]
      change _ = (change node).map id
      cases change node <;> rfl
  | cons token rest ih =>
      cases hc : navigator.child node token with
      | error miss =>
          rw [descend, follow, hc]
          rfl
      | ok found =>
          obtain ⟨slot, child⟩ := found
          -- what the walk makes of the child is put back into its slot
          simp only [descend, hc, ih child, follow_cons_of_child hc, replaceAt_cons hc]
          cases navigator.follow path child rest with
          | error error => rfl
          | ok container =>
              simp only [bind, Except.bind]
              cases change container <;> rfl

/-- **A walk with a change at its end replaces the container by what the change makes of it.** -/
theorem descend_eq_ok_iff {written : Written} :
    navigator.descend path change node parents = .ok written ↔
      ∃ container inner, navigator.get node parents = .ok container ∧
        change container = .ok inner ∧
        { inner with document := navigator.replaceAt node parents inner.document } = written := by
  simp only [descend_eq, bind_eq_ok_iff, map_eq_ok_iff]
  refine exists_congr fun container => ?_
  constructor
  · rintro ⟨hfollow, inner, hinner, he⟩
    exact ⟨inner, follow_path hfollow, hinner, he⟩
  · rintro ⟨inner, hget, hinner, he⟩
    exact ⟨follow_path hget, inner, hinner, he⟩

/-- **A walk with a change at its end succeeds** exactly if reading does and then the change. -/
theorem exists_descend_iff :
    (∃ written, navigator.descend path change node parents = .ok written) ↔
      ∃ container, navigator.follow path node parents = .ok container ∧
        ∃ written, change container = .ok written := by
  simp only [descend_eq, bind_eq_ok_iff, map_eq_ok_iff]
  constructor
  · rintro ⟨_, container, hfollow, inner, hinner, -⟩
    exact ⟨container, hfollow, inner, hinner⟩
  · rintro ⟨container, hfollow, inner, hinner⟩
    exact ⟨_, container, hfollow, inner, hinner, rfl⟩

/-- **A walk with a change at its end fails** as reading fails, or else as the change does. -/
theorem descend_eq_error_iff {error : Error} :
    navigator.descend path change node parents = .error error ↔
      navigator.follow path node parents = .error error ∨
        ∃ container, navigator.follow path node parents = .ok container ∧
          change container = .error error := by
  simp only [descend_eq, bind_eq_error_iff, map_eq_error_iff]

end PathDoc.Navigator

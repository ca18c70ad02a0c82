/-!
# Positions counted from either end

A negative position counts from the end. `Position.within?` gives the position from the start, if it
lies inside the list.
-/

set_option autoImplicit false

namespace PathDoc.Position

/-- The position from the start that a position of either sign stands for. -/
def within? (position : Int) (length : Nat) : Option Nat :=
  let fromStart := if position < 0 then position + length else position
  if 0 ≤ fromStart ∧ fromStart < length then some fromStart.toNat else none

/-- **A position that is found is the one meant, and lies inside the list.** -/
theorem within?_eq_some_iff {position : Int} {length i : Nat} :
    within? position length = some i ↔
      (i : Int) = (if position < 0 then position + length else position) ∧ i < length := by
  unfold within?
  generalize (if position < 0 then position + length else position) = fromStart
  simp only [Option.ite_none_right_eq_some, Option.some.injEq]
  omega

/-- A position from the start stands for itself. -/
theorem within?_natCast {i length : Nat} (h : i < length) : within? i length = some i := by
  unfold within?
  have hneg : ¬ (i : Int) < 0 := by omega
  simp [hneg, h]

/-- A position from the start beyond the end stands for nothing. -/
theorem within?_eq_none {i length : Nat} (h : length ≤ i) : within? i length = none := by
  unfold within?
  have hneg : ¬ (i : Int) < 0 := by omega
  have hend : ¬ (0 ≤ (i : Int) ∧ (i : Int) < length) := by omega
  rw [if_neg hneg, if_neg hend]

end PathDoc.Position

import PathDoc.Proofs.Match.Edits

/-!
# Rows of alignments

A cell is right if it holds the least cost of an alignment of the part of the pattern read so far
with a stretch that ends where the text has been read to, and the start of a stretch that costs no
more (`Best`). On a tie a pair of characters is preferred, so the stretch is not empty unless the
pattern or the text is. One step of the computation keeps cells right (`Best.step`), so every row is
right (`isRow_lastRow`), whether stretches start anywhere or at the start of the text only. The last
cell of the row for stretches from the start holds the distance of the two texts
(`isLeast_editDistance`).
-/

set_option autoImplicit false

namespace PathDoc.Match

/-- **A right cell.** What was read of the pattern and of the text is given from its end. A stretch
is the last part of the text read so far; what stands before it is empty unless stretches may start
anywhere. -/
structure Best (anywhere : Prop) (done seen : List Char) (cell : Cell) : Prop where
  /-- Some stretch has the distance and the start of the cell. -/
  aligned : ∃ stretch before, seen = stretch ++ before ∧ (before = [] ∨ anywhere) ∧
    before.length = cell.start ∧ Aligns done stretch cell.distance
  /-- No stretch has a smaller distance. -/
  least : ∀ stretch before n, seen = stretch ++ before → before = [] ∨ anywhere →
    Aligns done stretch n → cell.distance ≤ n
  /-- The stretch is empty only if the pattern or the text is. -/
  proper : done ≠ [] → seen ≠ [] → cell.start < seen.length

/-- **A right row** for the part of the pattern read so far: a cell for the text up to a place, and
one for each character after it. -/
inductive IsRow (anywhere : Prop) (done : List Char) :
    List Char → List Char → List Cell → Prop where
  | last {seen : List Char} {cell : Cell} :
      Best anywhere done seen cell → IsRow anywhere done seen [] [cell]
  | cons {seen rest : List Char} {c : Char} {cell : Cell} {row : List Cell} :
      Best anywhere done seen cell → IsRow anywhere done (c :: seen) rest row →
        IsRow anywhere done seen (c :: rest) (cell :: row)

variable {anywhere : Prop} {done seen rest pattern text : List Char} {p c : Char}

/-! ## One cell -/

/-- The best alignment for one character more of the pattern and of the text, if it costs so much to
pair them. -/
def Cell.next (cost : Nat) (diagonal above left : Cell) : Cell :=
  ((diagonal.worse cost).orBetter (above.worse 1)).orBetter (left.worse 1)

theorem Cell.orBetter_cases (a b : Cell) :
    a.orBetter b = a ∨ a.orBetter b = b ∧ b.distance < a.distance := by
  rw [Cell.orBetter]
  split
  · exact Or.inr ⟨rfl, by assumption⟩
  · exact Or.inl rfl

theorem Cell.orBetter_distance (a b : Cell) :
    (a.orBetter b).distance = min a.distance b.distance := by
  rw [Cell.orBetter]
  split <;> omega

theorem Cell.next_distance (cost : Nat) (diagonal above left : Cell) :
    (Cell.next cost diagonal above left).distance =
      min (min (diagonal.distance + cost) (above.distance + 1)) (left.distance + 1) := by
  rw [Cell.next, Cell.orBetter_distance, Cell.orBetter_distance]
  rfl

/-- The last characters are paired, or the one of the pattern is passed over because that is better,
or the one of the text is passed over. -/
theorem Cell.next_cases (cost : Nat) (diagonal above left : Cell) :
    Cell.next cost diagonal above left = diagonal.worse cost ∨
      Cell.next cost diagonal above left = above.worse 1 ∧
        above.distance + 1 < diagonal.distance + cost ∨
      Cell.next cost diagonal above left = left.worse 1 := by
  rw [Cell.next]
  rcases Cell.orBetter_cases ((diagonal.worse cost).orBetter (above.worse 1)) (left.worse 1) with
    h | ⟨h, -⟩
  · rw [h]
    rcases Cell.orBetter_cases (diagonal.worse cost) (above.worse 1) with h | ⟨h, hbetter⟩
    · exact Or.inl h
    · exact Or.inr (Or.inl ⟨h, hbetter⟩)
  · exact Or.inr (Or.inr h)

theorem Best.start_le {cell : Cell} (h : Best anywhere done seen cell) :
    cell.start ≤ seen.length := by
  obtain ⟨stretch, before, rfl, -, hstart, -⟩ := h.aligned
  rw [List.length_append, hstart]
  omega

/-- An empty stretch is passed over by no better alignment: then the last character of the pattern
can be paired at no greater cost. -/
theorem Best.start_lt_of_better {diagonal above : Cell} {cost : Nat} (hcost : cost ≤ 1)
    (hdiagonal : Best anywhere done seen diagonal) (habove : Best anywhere done (c :: seen) above)
    (hbetter : above.distance + 1 < diagonal.distance + cost) :
    above.start < (c :: seen).length := by
  obtain ⟨stretch, before, hseen, hbefore, hstart, haligns⟩ := habove.aligned
  cases stretch with
  | cons d stretch =>
      rw [hseen, List.length_append, List.length_cons, hstart]
      omega
  | nil =>
      -- the whole of the pattern is passed over, which is also possible one character earlier
      rw [List.nil_append] at hseen
      have hany : anywhere := by
        rcases hbefore with rfl | hany
        · cases hseen
        · exact hany
      have hle := hdiagonal.least [] seen _ rfl (Or.inr hany) haligns
      omega

/-- **One step keeps cells right.** -/
theorem Best.step {diagonal above left : Cell} (hdiagonal : Best anywhere done seen diagonal)
    (habove : Best anywhere done (c :: seen) above) (hleft : Best anywhere (p :: done) seen left) :
    Best anywhere (p :: done) (c :: seen)
      (Cell.next (if p = c then 0 else 1) diagonal above left) := by
  constructor
  · -- the alignment of the neighbour that was best, with one more pair or character
    rcases Cell.next_cases (if p = c then 0 else 1) diagonal above left with h | ⟨h, -⟩ | h <;> rw [h]
    · obtain ⟨stretch, before, rfl, hbefore, hstart, haligns⟩ := hdiagonal.aligned
      exact ⟨c :: stretch, before, rfl, hbefore, hstart, haligns.pair p c⟩
    · obtain ⟨stretch, before, hseen, hbefore, hstart, haligns⟩ := habove.aligned
      exact ⟨stretch, before, hseen, hbefore, hstart, haligns.passLeft p⟩
    · obtain ⟨stretch, before, rfl, hbefore, hstart, haligns⟩ := hleft.aligned
      exact ⟨c :: stretch, before, rfl, hbefore, hstart, haligns.passRight c⟩
  · intro stretch before n hseen hbefore haligns
    rw [Cell.next_distance]
    -- an alignment ends with a pair or a passed character, so it continues one of a neighbour
    cases haligns with
    | @pair _ stretch n _ d h =>
        obtain ⟨rfl, hrest⟩ := List.cons.inj hseen
        have hle := hdiagonal.least stretch before n hrest hbefore h
        omega
    | passLeft _ h =>
        have hle := habove.least stretch before _ hseen hbefore h
        omega
    | @passRight _ stretch n d h =>
        obtain ⟨rfl, hrest⟩ := List.cons.inj hseen
        have hle := hleft.least stretch before n hrest hbefore h
        omega
  · intro _ _
    -- the cell above is taken only if it is better, and then its own stretch is not empty
    rcases Cell.next_cases (if p = c then 0 else 1) diagonal above left with
      h | ⟨h, hbetter⟩ | h <;> rw [h]
    · exact Nat.lt_succ_of_le hdiagonal.start_le
    · apply hdiagonal.start_lt_of_better _ habove hbetter
      split <;> omega
    · exact Nat.lt_succ_of_le hleft.start_le

/-- The first cell of a row: all of the pattern is passed over. -/
theorem Best.head {first : Cell} (h : Best anywhere done [] first) :
    Best anywhere (p :: done) [] ⟨first.distance + 1, 0⟩ := by
  constructor
  · obtain ⟨stretch, before, hseen, -, -, haligns⟩ := h.aligned
    obtain ⟨rfl, rfl⟩ := List.append_eq_nil_iff.1 hseen.symm
    exact ⟨[], [], rfl, Or.inl rfl, rfl, haligns.passLeft p⟩
  · intro stretch before n hseen hbefore haligns
    obtain ⟨rfl, rfl⟩ := List.append_eq_nil_iff.1 hseen.symm
    cases haligns with
    | @passLeft _ _ n _ haligns => exact Nat.succ_le_succ (h.least [] [] n rfl hbefore haligns)
  · intro _ hseen
    exact absurd rfl hseen

/-! ## One row -/

theorem IsRow.cells {left diagonal : Cell} {row : List Cell}
    (hleft : Best anywhere (p :: done) seen left)
    (hrow : IsRow anywhere done seen rest (diagonal :: row)) :
    IsRow anywhere (p :: done) seen rest (left :: Alignment.cells p left diagonal row rest) := by
  induction rest generalizing seen left diagonal row with
  | nil =>
      cases hrow with
      | last _ => exact IsRow.last hleft
  | cons c rest ih =>
      cases hrow with
      | cons hdiagonal hrow =>
          cases row with
          | nil => cases hrow
          | cons above row =>
              have habove : Best anywhere done (c :: seen) above := by
                cases hrow with
                | last h => exact h
                | cons h _ => exact h
              exact IsRow.cons hleft (ih (hdiagonal.step habove hleft) hrow)

theorem IsRow.nextRow {row : List Cell} (h : IsRow anywhere done [] text row) (p : Char) :
    IsRow anywhere (p :: done) [] text (Alignment.nextRow text row p) := by
  cases row with
  | nil => cases h
  | cons first row =>
      have hfirst : Best anywhere done [] first := by
        cases h with
        | last h => exact h
        | cons h _ => exact h
      exact IsRow.cells hfirst.head h

/-- **The last row is right** if the first one is. -/
theorem isRow_lastRow {row : List Cell} (h : IsRow anywhere done [] text row)
    (pattern : List Char) :
    IsRow anywhere (pattern.reverse ++ done) [] text (Alignment.lastRow row pattern text) := by
  induction pattern generalizing done row with
  | nil => exact h
  | cons p pattern ih =>
      have hrest := ih (h.nextRow p)
      rw [List.reverse_cons, List.append_assoc]
      exact hrest

/-! ## The first row -/

theorem isRow_map_range {cellAt : Nat → Cell}
    (h : ∀ seen : List Char, Best anywhere [] seen (cellAt seen.length)) (seen rest : List Char) :
    IsRow anywhere [] seen rest ((List.range' seen.length (rest.length + 1)).map cellAt) := by
  induction rest generalizing seen with
  | nil => exact IsRow.last (h seen)
  | cons c rest ih => exact IsRow.cons (h seen) (ih (c :: seen))

theorem isRow_freeRow (text : List Char) : IsRow True [] [] text (Alignment.freeRow text) := by
  rw [Alignment.freeRow, List.range_eq_range']
  apply isRow_map_range (fun seen => ?_) []
  constructor
  · exact ⟨[], seen, rfl, Or.inr trivial, rfl, Aligns.nil⟩
  · intro _ _ n _ _ _
    exact Nat.zero_le n
  · intro hdone
    exact absurd rfl hdone

theorem isRow_fixedRow (text : List Char) : IsRow False [] [] text (Alignment.fixedRow text) := by
  rw [Alignment.fixedRow, List.range_eq_range']
  apply isRow_map_range (fun seen => ?_) []
  constructor
  · exact ⟨seen, [], (List.append_nil seen).symm, Or.inl rfl, rfl, aligns_nil_left.2 rfl⟩
  · intro stretch before n hseen hbefore haligns
    obtain rfl := hbefore.resolve_right id
    rw [hseen, List.append_nil, ← aligns_nil_left.1 haligns]
  · intro hdone
    exact absurd rfl hdone

/-! ## Single cells of a row -/

/-- The cell at a place of a right row. -/
theorem IsRow.best {row : List Cell} (h : IsRow anywhere done seen rest row) {j : Nat} {cell : Cell}
    (hj : row[j]? = some cell) : Best anywhere done ((rest.take j).reverse ++ seen) cell := by
  induction h generalizing j with
  | last hbest =>
      cases j with
      | zero =>
          cases hj
          exact hbest
      | succ j => cases hj
  | @cons seen rest c _ _ hbest _ ih =>
      cases j with
      | zero =>
          cases hj
          exact hbest
      | succ j =>
          rw [List.take_succ_cons, List.reverse_cons, List.append_assoc]
          exact ih hj

theorem IsRow.length {row : List Cell} (h : IsRow anywhere done seen rest row) :
    row.length = rest.length + 1 := by
  induction h with
  | last _ => rfl
  | cons _ _ ih => rw [List.length_cons, List.length_cons, ih]

/-- **The edit distance is the least number of edits.** -/
theorem isLeast_editDistance (a b : List Char) :
    IsLeast {n | Edits n a b} (editDistance a b) := by
  have hrow := isRow_lastRow (isRow_fixedRow b) a
  rw [List.append_nil] at hrow
  have hlength := hrow.length
  -- the last cell of the row is the one behind the whole text
  have hlast : (Alignment.lastRow (Alignment.fixedRow b) a b).getLast? =
      (Alignment.lastRow (Alignment.fixedRow b) a b)[b.length]? := by
    rw [List.getLast?_eq_getElem?, hlength, Nat.add_sub_cancel]
  obtain ⟨cell, hcell⟩ : ∃ cell,
      (Alignment.lastRow (Alignment.fixedRow b) a b)[b.length]? = some cell :=
    ⟨_, List.getElem?_eq_getElem (by omega)⟩
  have hbest := hrow.best hcell
  rw [List.take_length, List.append_nil] at hbest
  rw [editDistance, hlast, hcell]
  obtain ⟨stretch, before, hseen, hbefore, -, haligns⟩ := hbest.aligned
  -- a match of the whole text has nothing in front
  obtain rfl := hbefore.resolve_right id
  rw [List.append_nil] at hseen
  apply isLeast_edits
  · rw [hseen]
    exact haligns
  · intro n
    exact hbest.least b.reverse [] n (List.append_nil _).symm (Or.inl rfl)

end PathDoc.Match

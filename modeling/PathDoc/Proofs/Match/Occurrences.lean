import PathDoc.Match.Text
import PathDoc.Proofs.Match.Rows

/-!
# Approximate occurrences

The last row of the search tells for every place the least distance of a stretch that ends there
(`searchCells_best`). Every run of places within the distance keeps its best end
(`forall_mem_bestEnds`), and a kept stretch is reported unless it starts before the last reported
one ends. Neither step loses the only occurrence (`occurrences_ne_nil`): on a tie the last
characters are paired, so no stretch is empty, and nothing overlaps the first one.
`occurrences_least` says what this comes to.
-/

set_option autoImplicit false

namespace PathDoc.Match

open Text

variable {maxDistance : Nat}

/-! ## The best end of every run -/

/-- The best end of a run that goes on to a cell, or starts there. -/
def runTo (run : Option (Nat × Cell)) (stop : Nat) (cell : Cell) : Nat × Cell :=
  match run with
  | some held => if held.2.distance ≤ cell.distance then held else (stop, cell)
  | none => (stop, cell)

theorem runTo_cases (run : Option (Nat × Cell)) (stop : Nat) (cell : Cell) :
    run = some (runTo run stop cell) ∨ runTo run stop cell = (stop, cell) := by
  cases run with
  | none => exact Or.inr rfl
  | some held =>
      rw [runTo]
      split
      · exact Or.inl rfl
      · exact Or.inr rfl

theorem bestEnds_cons (run : Option (Nat × Cell)) (stop : Nat) (cell : Cell) (cells : List Cell) :
    bestEnds maxDistance run stop (cell :: cells) =
      if cell.distance ≤ maxDistance then
        bestEnds maxDistance (some (runTo run stop cell)) (stop + 1) cells
      else run.toList ++ bestEnds maxDistance none (stop + 1) cells := by
  cases run with
  | none => rfl
  | some held =>
      rw [bestEnds, runTo]
      split
      · split <;> rfl
      · rfl

/-- What holds of the ends within the distance holds of those that are kept. -/
theorem forall_mem_bestEnds {P : Nat → Cell → Prop} {run : Option (Nat × Cell)} {stop : Nat}
    {cells : List Cell} (hrun : ∀ held ∈ run, P held.1 held.2)
    (hcells : ∀ i cell, cells[i]? = some cell → cell.distance ≤ maxDistance → P (stop + i) cell) :
    ∀ kept ∈ bestEnds maxDistance run stop cells, P kept.1 kept.2 := by
  induction cells generalizing run stop with
  | nil =>
      intro kept hm
      exact hrun kept (Option.mem_toList.1 hm)
  | cons cell cells ih =>
      have hrest : ∀ i cell, cells[i]? = some cell → cell.distance ≤ maxDistance →
          P (stop + 1 + i) cell := by
        intro i other hi hle
        rw [Nat.add_assoc, Nat.add_comm 1 i]
        exact hcells (i + 1) other hi hle
      rw [bestEnds_cons]
      split
      · rename_i hle
        -- a run goes on: its best end is the old one or this one
        apply ih _ hrest
        rintro held ⟨⟩
        rcases runTo_cases run stop cell with h | h
        · exact hrun _ h
        · rw [h]
          exact hcells 0 cell rfl hle
      · -- the run ends here and the next one has not begun
        intro kept hm
        rcases List.mem_append.1 hm with hm | hm
        · exact hrun kept (Option.mem_toList.1 hm)
        · refine ih ?_ hrest kept hm
          intro held hnone
          cases hnone

/-- An end is kept exactly if there is one within the distance. -/
theorem bestEnds_ne_nil_iff {run : Option (Nat × Cell)} {stop : Nat} {cells : List Cell} :
    bestEnds maxDistance run stop cells ≠ [] ↔
      run ≠ none ∨ ∃ cell ∈ cells, cell.distance ≤ maxDistance := by
  induction cells generalizing run stop with
  | nil => cases run <;> simp [bestEnds]
  | cons cell cells ih =>
      rw [bestEnds_cons]
      split
      · rename_i hle
        -- a run goes on or starts here
        refine iff_of_true (ih.2 (Or.inl (Option.some_ne_none _))) (Or.inr ?_)
        exact ⟨cell, List.mem_cons_self, hle⟩
      · rename_i hgt
        have hrest : bestEnds maxDistance none (stop + 1) cells ≠ [] ↔
            ∃ other ∈ cells, other.distance ≤ maxDistance :=
          ih.trans (or_iff_right fun h => h rfl)
        have hcells : (∃ other ∈ cell :: cells, other.distance ≤ maxDistance) ↔
            ∃ other ∈ cells, other.distance ≤ maxDistance := by
          simp [hgt]
        rw [Ne, List.append_eq_nil_iff, not_and_or, ← Ne, ← Ne, hrest, hcells]
        cases run <;> simp

/-! ## Stretches without overlap -/

section

variable {ends : List (Nat × Cell)} {free : Nat}

/-- What is reported is one of the ends and starts where it may. -/
theorem mem_disjoint (h : ∀ found ∈ ends, found.2.start < found.1) {found : Occurrence}
    (hm : found ∈ disjoint free ends) :
    free ≤ found.span.start ∧ (found.span.stop, ⟨found.distance, found.span.start⟩) ∈ ends := by
  induction ends generalizing free with
  | nil => cases hm
  | cons first rest ih =>
      obtain ⟨stop, cell⟩ := first
      obtain ⟨hfirst, hrest⟩ := List.forall_mem_cons.1 h
      rw [disjoint] at hm
      split at hm
      · obtain ⟨hfree, hmem⟩ := ih hrest hm
        exact ⟨hfree, List.mem_cons_of_mem _ hmem⟩
      · rename_i hkept
        rcases List.mem_cons.1 hm with rfl | hm
        · exact ⟨Nat.le_of_not_lt (not_or.1 hkept).2, List.mem_cons_self⟩
        · obtain ⟨hfree, hmem⟩ := ih hrest hm
          have hlt : cell.start < stop := hfirst
          exact ⟨by omega, List.mem_cons_of_mem _ hmem⟩

/-- **Reported stretches follow one another without overlap.** -/
theorem pairwise_disjoint (h : ∀ found ∈ ends, found.2.start < found.1) :
    (disjoint free ends).Pairwise fun a b => a.span.stop ≤ b.span.start := by
  induction ends generalizing free with
  | nil => exact List.Pairwise.nil
  | cons first rest ih =>
      obtain ⟨hfirst, hrest⟩ := List.forall_mem_cons.1 h
      rw [disjoint]
      split
      · exact ih hrest
      · apply List.Pairwise.cons _ (ih hrest)
        intro found hm
        exact (mem_disjoint hrest hm).1

/-- Something is reported if there is an end: nothing overlaps the first one. -/
theorem disjoint_ne_nil_iff (h : ∀ found ∈ ends, found.2.start < found.1) :
    disjoint 0 ends ≠ [] ↔ ends ≠ [] := by
  cases ends with
  | nil => exact iff_of_false (fun h => h rfl) (fun h => h rfl)
  | cons first rest =>
      obtain ⟨stop, cell⟩ := first
      have hlt : cell.start < stop := h (stop, cell) List.mem_cons_self
      rw [disjoint, if_neg (by omega)]
      exact iff_of_true (List.cons_ne_nil _ _) (List.cons_ne_nil _ _)

end

/-! ## The ends in a text -/

variable {ignoreCase : Bool} {pattern text : List Char}

/-- The cells of a search for a pattern in a text, one for every place after the first. -/
def searchCells (pattern text : List Char) : List Cell :=
  (Alignment.lastRow (Alignment.freeRow text) pattern text).tail

theorem searchCells_best (hp : pattern ≠ []) {i : Nat} {cell : Cell}
    (h : (searchCells pattern text)[i]? = some cell) :
    1 + i ≤ text.length ∧ cell.start < 1 + i ∧
      Best True pattern.reverse (text.take (1 + i)).reverse cell := by
  have hrow := isRow_lastRow (isRow_freeRow text) pattern
  rw [List.append_nil] at hrow
  rw [searchCells, List.getElem?_tail] at h
  have hlength := (List.getElem?_eq_some_iff.1 h).1
  rw [hrow.length] at hlength
  have hbest := hrow.best h
  rw [List.append_nil, Nat.add_comm] at hbest
  -- the pattern is not empty, so the stretch behind the start of the cell is not either
  have hseen : (text.take (1 + i)).reverse.length = 1 + i := by
    rw [List.length_reverse, List.length_take]
    omega
  refine ⟨by omega, ?_, hbest⟩
  rw [← hseen]
  apply hbest.proper
  · rwa [Ne, List.reverse_eq_nil_iff]
  · intro hnil
    rw [hnil, List.length_nil] at hseen
    omega

/-- The distance of a cell is the least number of edits between the pattern and the stretch. -/
theorem Best.isLeast {stop : Nat} {cell : Cell}
    (h : Best True pattern.reverse (text.take stop).reverse cell) :
    IsLeast {n | Edits n pattern ((text.take stop).drop cell.start)} cell.distance := by
  obtain ⟨stretch, before, hseen, -, hstart, haligns⟩ := h.aligned
  have htaken : text.take stop = before.reverse ++ stretch.reverse := by
    rw [← List.reverse_append, ← hseen, List.reverse_reverse]
  have hstretch : (text.take stop).drop cell.start = stretch.reverse := by
    rw [htaken, ← hstart, ← List.length_reverse, List.drop_left]
  rw [hstretch]
  apply isLeast_edits
  · rwa [List.reverse_reverse]
  · intro n hn
    rw [List.reverse_reverse] at hn
    exact h.least stretch before n hseen (Or.inr trivial) hn

/-- A stretch that is not empty is within a distance only if the cell at its end is. -/
theorem exists_mem_searchCells {before middle after : List Char} {n : Nat} (hm : middle ≠ [])
    (h : Edits n pattern middle) :
    ∃ cell ∈ searchCells pattern (before ++ middle ++ after), cell.distance ≤ n := by
  have hrow := isRow_lastRow (isRow_freeRow (before ++ middle ++ after)) pattern
  rw [List.append_nil] at hrow
  -- the stretch ends behind its last character, which has a cell
  obtain ⟨k, hk⟩ : ∃ k, (before ++ middle).length = k + 1 := by
    have hpos : 0 < middle.length := List.length_pos_iff.2 hm
    exact ⟨before.length + middle.length - 1, by rw [List.length_append]; omega⟩
  have hlt : k < (searchCells pattern (before ++ middle ++ after)).length := by
    rw [searchCells, List.length_tail, hrow.length, List.length_append, hk]
    omega
  obtain ⟨cell, hcell⟩ : ∃ cell,
      (searchCells pattern (before ++ middle ++ after))[k]? = some cell :=
    ⟨_, List.getElem?_eq_getElem hlt⟩
  refine ⟨cell, List.mem_of_getElem? hcell, ?_⟩
  rw [searchCells, List.getElem?_tail, ← hk] at hcell
  have hbest := hrow.best hcell
  rw [List.append_nil, List.take_left, List.reverse_append] at hbest
  -- its edits align it, so the best cell there is no worse
  obtain ⟨least, hle, haligns⟩ := h.reverse.exists_aligns
  exact (hbest.least middle.reverse before.reverse least rfl (Or.inr trivial) haligns).trans hle

/-! ## What is reported -/

theorem prepare_append (ignoreCase : Bool) (a b : List Char) :
    prepare ignoreCase (a ++ b) = prepare ignoreCase a ++ prepare ignoreCase b := by
  cases ignoreCase with
  | false => rfl
  | true => exact List.map_append

theorem length_prepare (ignoreCase : Bool) (text : List Char) :
    (prepare ignoreCase text).length = text.length := by
  cases ignoreCase with
  | false => rfl
  | true => exact List.length_map _

theorem prepare_excerpt (ignoreCase : Bool) (text : List Char) (span : Span) :
    prepare ignoreCase (excerpt text span) = excerpt (prepare ignoreCase text) span := by
  cases ignoreCase with
  | false => rfl
  | true => simp [prepare, excerpt, List.map_drop, List.map_take]

theorem prepare_eq_nil_iff {ignoreCase : Bool} {text : List Char} :
    prepare ignoreCase text = [] ↔ text = [] := by
  rw [← List.length_eq_zero_iff, length_prepare, List.length_eq_zero_iff]

/-- **The ends that are kept** are ends of stretches that are not empty and lie within the
distance. -/
theorem best_of_mem_bestEnds (maxDistance : Nat) (text : List Char) (hp : pattern ≠ []) :
    ∀ found ∈ bestEnds maxDistance none 1 (searchCells pattern text),
      found.1 ≤ text.length ∧ found.2.start < found.1 ∧ found.2.distance ≤ maxDistance ∧
        Best True pattern.reverse (text.take found.1).reverse found.2 := by
  apply forall_mem_bestEnds (P := fun stop cell => stop ≤ text.length ∧ cell.start < stop ∧
    cell.distance ≤ maxDistance ∧ Best True pattern.reverse (text.take stop).reverse cell)
  · intro held hnone
    cases hnone
  · intro i cell hi hle
    obtain ⟨hstop, hstart, hbest⟩ := searchCells_best hp hi
    exact ⟨hstop, hstart, hle, hbest⟩

theorem occurrences_eq (hp : pattern ≠ []) :
    occurrences ignoreCase maxDistance pattern text =
      disjoint 0 (bestEnds maxDistance none 1
        (searchCells (prepare ignoreCase pattern) (prepare ignoreCase text))) := by
  rw [occurrences, if_neg (by rwa [List.isEmpty_iff])]
  rfl

theorem occurrences_nil (ignoreCase : Bool) (maxDistance : Nat) (text : List Char) :
    occurrences ignoreCase maxDistance [] text = [] :=
  rfl

theorem ne_nil_of_mem_occurrences {found : Occurrence}
    (hm : found ∈ occurrences ignoreCase maxDistance pattern text) : pattern ≠ [] := by
  rintro rfl
  cases hm

theorem prepare_ne_nil (ignoreCase : Bool) (hp : pattern ≠ []) : prepare ignoreCase pattern ≠ [] :=
  fun h => hp (prepare_eq_nil_iff.1 h)

/-- **A reported stretch is not empty, and its distance is the least number of edits** between the
pattern and the stretch. -/
theorem isLeast_of_mem_occurrences {found : Occurrence}
    (hm : found ∈ occurrences ignoreCase maxDistance pattern text) :
    found.span.start < found.span.stop ∧ found.span.stop ≤ text.length ∧
      found.distance ≤ maxDistance ∧
      IsLeast {n | Edits n (prepare ignoreCase pattern)
        (prepare ignoreCase (excerpt text found.span))} found.distance := by
  have hp := ne_nil_of_mem_occurrences hm
  have hends := best_of_mem_bestEnds maxDistance (prepare ignoreCase text)
    (prepare_ne_nil ignoreCase hp)
  rw [occurrences_eq hp] at hm
  have hend := (mem_disjoint (fun kept h => (hends kept h).2.1) hm).2
  obtain ⟨hstop, hstart, hle, hbest⟩ := hends _ hend
  rw [length_prepare] at hstop
  rw [prepare_excerpt]
  exact ⟨hstart, hstop, hle, hbest.isLeast⟩

/-- **Reported stretches do not overlap.** -/
theorem pairwise_occurrences : (occurrences ignoreCase maxDistance pattern text).Pairwise
    fun a b => a.span.stop ≤ b.span.start := by
  by_cases hp : pattern = []
  · rw [hp, occurrences_nil]
    exact List.Pairwise.nil
  · rw [occurrences_eq hp]
    apply pairwise_disjoint
    intro kept h
    exact (best_of_mem_bestEnds _ _ (prepare_ne_nil _ hp) kept h).2.1

/-- **A stretch within the distance is enough for something to be reported.** -/
theorem occurrences_ne_nil {before middle after : List Char} {n : Nat} (hp : pattern ≠ [])
    (hm : middle ≠ []) (hn : n ≤ maxDistance)
    (h : Edits n (prepare ignoreCase pattern) (prepare ignoreCase middle)) :
    occurrences ignoreCase maxDistance pattern (before ++ middle ++ after) ≠ [] := by
  have hends := best_of_mem_bestEnds maxDistance (prepare ignoreCase (before ++ middle ++ after))
    (prepare_ne_nil ignoreCase hp)
  rw [occurrences_eq hp]
  apply (disjoint_ne_nil_iff fun kept h => (hends kept h).2.1).2
  apply bestEnds_ne_nil_iff.2
  right
  rw [prepare_append, prepare_append]
  obtain ⟨cell, hcell, hle⟩ := exists_mem_searchCells (prepare_ne_nil _ hm) h
  exact ⟨cell, hcell, hle.trans hn⟩

/-! ## In bytes -/

theorem byteSize_take_le (text : List Char) {i j : Nat} (h : i ≤ j) :
    byteSize (text.take i) ≤ byteSize (text.take j) := by
  have hsplit : text.take j = text.take i ++ (text.take j).drop i := by
    conv_lhs => rw [← List.take_append_drop i (text.take j), List.take_take, Nat.min_eq_left h]
  rw [hsplit, byteSize_append]
  exact Nat.le_add_right _ _

theorem byteSize_pos {text : List Char} (h : text ≠ []) : 0 < byteSize text := by
  cases text with
  | nil => exact absurd rfl h
  | cons c rest => exact Nat.add_pos_left (Char.utf8Size_pos c) _

/-- What stands before the end of a stretch is what stands before its start, and the stretch. -/
theorem take_stop_eq (text : List Char) {span : Span} (h : span.start ≤ span.stop) :
    text.take span.stop = text.take span.start ++ excerpt text span := by
  have htake : (text.take span.stop).take span.start = text.take span.start := by
    rw [List.take_take, Nat.min_eq_left h]
  rw [excerpt, ← htake, List.take_append_drop]

/-- A stretch cuts a text into three parts, at the boundaries of characters. -/
theorem exists_split (text : List Char) {span : Span} (hlt : span.start < span.stop)
    (hle : span.stop ≤ text.length) :
    ∃ before middle after, text = before ++ middle ++ after ∧ middle ≠ [] ∧
      excerpt text span = middle ∧
      byteRange text span = (byteSize before, byteSize (before ++ middle)) := by
  have hsplit := take_stop_eq text hlt.le
  refine ⟨text.take span.start, excerpt text span, text.drop span.stop, ?_, ?_, rfl, ?_⟩
  · rw [← hsplit, List.take_append_drop]
  · intro hnil
    have hlength := congrArg List.length hnil
    rw [excerpt, List.length_drop, List.length_take, List.length_nil] at hlength
    omega
  · rw [byteRange, hsplit]

/-- **Approximate occurrences.** Each is a stretch between boundaries of characters that is not
empty; its distance lies within the bound and is the least number of edits between the pattern and
the stretch, as compared. The stretches follow one another without overlap. Nothing is reported
only if no stretch of the text, the empty one apart, lies within the bound. -/
theorem occurrences_least (ignoreCase : Bool) (maxDistance : Nat) (pattern text : List Char) :
    let found := occurrences ignoreCase maxDistance pattern text
    (∀ occurrence ∈ found, ∃ before middle after, text = before ++ middle ++ after ∧ middle ≠ [] ∧
      excerpt text occurrence.span = middle ∧
      byteRange text occurrence.span = (byteSize before, byteSize (before ++ middle)) ∧
      occurrence.distance ≤ maxDistance ∧
      IsLeast {n | Edits n (prepare ignoreCase pattern) (prepare ignoreCase middle)}
        occurrence.distance ∧
      occurrence.distance =
        editDistance (prepare ignoreCase pattern) (prepare ignoreCase middle)) ∧
    found.Pairwise (fun a b =>
      (byteRange text a.span).1 < (byteRange text b.span).1 ∧
        (byteRange text a.span).2 ≤ (byteRange text b.span).1) ∧
    (found ≠ [] ↔ pattern ≠ [] ∧ ∃ before middle after n, text = before ++ middle ++ after ∧
      middle ≠ [] ∧ n ≤ maxDistance ∧
      Edits n (prepare ignoreCase pattern) (prepare ignoreCase middle)) := by
  intro found
  refine ⟨?_, ?_, ?_, ?_⟩
  · -- one occurrence: a stretch and its distance, which no other number of edits undercuts
    intro occurrence hm
    obtain ⟨hlt, hstop, hle, hleast⟩ := isLeast_of_mem_occurrences hm
    obtain ⟨before, middle, after, hsplit, hne, rfl, hbytes⟩ := exists_split text hlt hstop
    exact ⟨before, _, after, hsplit, hne, rfl, hbytes, hle, hleast,
      hleast.unique (isLeast_editDistance _ _)⟩
  · apply pairwise_occurrences.imp_of_mem
    intro a b ha _ hafter
    obtain ⟨hlt, hstop, -⟩ := isLeast_of_mem_occurrences ha
    obtain ⟨before, middle, after, -, hne, -, hbytes⟩ := exists_split text hlt hstop
    have hpos := byteSize_pos hne
    -- the next one starts where this one has stopped or later, and this one is not empty
    have hnext : (byteRange text a.span).2 ≤ (byteRange text b.span).1 :=
      byteSize_take_le text hafter
    refine ⟨lt_of_lt_of_le ?_ hnext, hnext⟩
    rw [hbytes, byteSize_append]
    exact Nat.lt_add_of_pos_right hpos
  · intro hfound
    obtain ⟨occurrence, hm⟩ := List.exists_mem_of_ne_nil _ hfound
    obtain ⟨hlt, hstop, hle, hleast⟩ := isLeast_of_mem_occurrences hm
    obtain ⟨before, middle, after, hsplit, hne, rfl, -⟩ := exists_split text hlt hstop
    exact ⟨ne_nil_of_mem_occurrences hm, before, _, after, _, hsplit, hne, hle, hleast.1⟩
  · rintro ⟨hp, before, middle, after, n, rfl, hne, hle, hedits⟩
    exact occurrences_ne_nil hp hne hle hedits

end PathDoc.Match

import PathDoc.Proofs.Match.Rows

/-!
# The edit distance is a metric

Chains of edits can be put one after the other (`Edits.trans`) and run backwards (`Edits.symm`), and
a text is turned into any other one by at most as many edits as the longer of them has characters
(`exists_edits_le_max`). Since the computed distance is the length of a shortest chain
(`isLeast_editDistance`), this makes it a metric that the length of the longer text bounds
(`editDistance_metric`), so a similarity is computed from the number of characters that are kept.
-/

set_option autoImplicit false

namespace PathDoc.Match

variable {a b c : List Char} {m n : Nat}

/-! ## Chains -/

theorem edits_zero_iff : Edits 0 a b ↔ a = b := by
  constructor
  · intro h
    cases h
    rfl
  · rintro rfl
    exact Edits.none a

theorem Edits.trans (hab : Edits m a b) (hbc : Edits n b c) : Edits (m + n) a c := by
  induction hbc with
  | none b => exact hab
  | step _ hedit ih => exact (ih hab).step hedit

/-- Every edit can be undone by one. -/
theorem Edit.symm (h : Edit a b) : Edit b a := by
  cases h with
  | insert before c after => exact Edit.delete before c after
  | delete before c after => exact Edit.insert before c after
  | exchange before c d after => exact Edit.exchange before d c after

theorem Edits.symm (h : Edits n a b) : Edits n b a := by
  induction h with
  | none a => exact Edits.none a
  | step _ hedit ih =>
      rw [Nat.add_comm]
      exact ((Edits.none _).step hedit.symm).trans ih

/-- **A chain of edits is long enough at the length of the longer text**: characters at the same
place are exchanged, and those that are left over inserted or deleted. -/
theorem exists_edits_le_max (a b : List Char) : ∃ n ≤ max a.length b.length, Edits n a b := by
  suffices ∃ n ≤ max a.length b.length, Aligns a b n by
    obtain ⟨n, hle, haligns⟩ := this
    exact ⟨n, hle, haligns.edits⟩
  induction a generalizing b with
  | nil => exact ⟨b.length, le_max_right _ _, aligns_nil_left.2 rfl⟩
  | cons c a ih =>
      cases b with
      | nil =>
          obtain ⟨n, hle, haligns⟩ := ih []
          refine ⟨n + 1, ?_, haligns.passLeft c⟩
          simpa using hle
      | cons d b =>
          obtain ⟨n, hle, haligns⟩ := ih b
          refine ⟨_, ?_, haligns.pair c d⟩
          have hmax : max (c :: a).length (d :: b).length = max a.length b.length + 1 :=
            Nat.add_max_add_right a.length b.length 1
          rw [hmax]
          split <;> omega

/-! ## The distance -/

theorem edits_editDistance (a b : List Char) : Edits (editDistance a b) a b :=
  (isLeast_editDistance a b).1

theorem editDistance_le (h : Edits n a b) : editDistance a b ≤ n :=
  (isLeast_editDistance a b).2 h

theorem editDistance_eq_zero_iff : editDistance a b = 0 ↔ a = b := by
  constructor
  · intro h
    exact edits_zero_iff.1 (h ▸ edits_editDistance a b)
  · intro h
    exact Nat.le_zero.1 (editDistance_le (edits_zero_iff.2 h))

theorem editDistance_comm (a b : List Char) : editDistance a b = editDistance b a := by
  apply le_antisymm
  · exact editDistance_le (edits_editDistance b a).symm
  · exact editDistance_le (edits_editDistance a b).symm

theorem editDistance_triangle (a b c : List Char) :
    editDistance a c ≤ editDistance a b + editDistance b c :=
  editDistance_le ((edits_editDistance a b).trans (edits_editDistance b c))

theorem editDistance_le_max (a b : List Char) : editDistance a b ≤ max a.length b.length := by
  obtain ⟨n, hle, hedits⟩ := exists_edits_le_max a b
  exact (editDistance_le hedits).trans hle

/-- **The edit distance is a metric.** It is the least number of characters that have to be
inserted, deleted or exchanged to turn one text into the other. So only equal texts have no
distance, it is the same in both directions, a detour is no shorter, and it is at most the length of
the longer text: the similarity is the share of the characters of the longer text that the distance
leaves, and there is nothing to cut off below zero. -/
theorem editDistance_metric (a b c : List Char) :
    IsLeast {n | Edits n a b} (editDistance a b) ∧
    (editDistance a b = 0 ↔ a = b) ∧
    editDistance a b = editDistance b a ∧
    editDistance a c ≤ editDistance a b + editDistance b c ∧
    editDistance a b ≤ max a.length b.length ∧
    ∃ kept, editDistance a b + kept = max a.length b.length ∧
      similarity a b = if max a.length b.length = 0 then 100.0
        else 100.0 * Float.ofNat kept / Float.ofNat (max a.length b.length) := by
  have hle := editDistance_le_max a b
  refine ⟨isLeast_editDistance a b, editDistance_eq_zero_iff, editDistance_comm a b,
    editDistance_triangle a b c, hle, ?_⟩
  exact ⟨max a.length b.length - editDistance a b, Nat.add_sub_cancel' hle, rfl⟩

example : editDistance "kitten".toList "sitting".toList = 3 := by decide

end PathDoc.Match

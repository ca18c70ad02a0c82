import Mathlib.Order.Bounds.Basic
import PathDoc.Match.Approximate

/-!
# Edits and alignments

An edit inserts, deletes or exchanges one character of a text (`Edit`), and `Edits n` chains `n` of
them. An alignment reads two texts from their starts: it pairs a character of one with a character
of the other or passes over a character of one of them, and costs as many edits as it pairs
different characters or passes over one. Every alignment can be carried out by edits
(`Aligns.edits`), and every chain of edits is at least as long as some alignment costs
(`Edits.exists_aligns`), because alignments compose (`Aligns.trans`). So the least cost of an
alignment is the least number of edits (`isLeast_edits`).
-/

set_option autoImplicit false

namespace PathDoc.Match

/-- One character of a text is inserted, deleted or exchanged for another one. -/
inductive Edit : List Char → List Char → Prop where
  | insert (before : List Char) (c : Char) (after : List Char) :
      Edit (before ++ after) (before ++ c :: after)
  | delete (before : List Char) (c : Char) (after : List Char) :
      Edit (before ++ c :: after) (before ++ after)
  | exchange (before : List Char) (c d : Char) (after : List Char) :
      Edit (before ++ c :: after) (before ++ d :: after)

/-- A number of edits, one after the other. -/
inductive Edits : Nat → List Char → List Char → Prop where
  | none (a : List Char) : Edits 0 a a
  | step {n : Nat} {a b c : List Char} : Edits n a b → Edit b c → Edits (n + 1) a c

/-- An alignment of two texts and its cost. -/
inductive Aligns : List Char → List Char → Nat → Prop where
  | nil : Aligns [] [] 0
  | pair {a b : List Char} {n : Nat} (c d : Char) :
      Aligns a b n → Aligns (c :: a) (d :: b) (n + if c = d then 0 else 1)
  | passLeft {a b : List Char} {n : Nat} (c : Char) : Aligns a b n → Aligns (c :: a) b (n + 1)
  | passRight {a b : List Char} {n : Nat} (d : Char) : Aligns a b n → Aligns a (d :: b) (n + 1)

/-! ## Chains of edits -/

theorem Edit.cons {a b : List Char} (c : Char) (h : Edit a b) : Edit (c :: a) (c :: b) := by
  cases h with
  | insert before d after => exact Edit.insert (c :: before) d after
  | delete before d after => exact Edit.delete (c :: before) d after
  | exchange before d e after => exact Edit.exchange (c :: before) d e after

theorem Edit.reverse {a b : List Char} (h : Edit a b) : Edit a.reverse b.reverse := by
  cases h with
  | insert before c after =>
      rw [List.reverse_append, List.reverse_append, List.reverse_cons, List.append_assoc]
      exact Edit.insert after.reverse c before.reverse
  | delete before c after =>
      rw [List.reverse_append, List.reverse_append, List.reverse_cons, List.append_assoc]
      exact Edit.delete after.reverse c before.reverse
  | exchange before c d after =>
      rw [List.reverse_append, List.reverse_append, List.reverse_cons, List.reverse_cons,
        List.append_assoc, List.append_assoc]
      exact Edit.exchange after.reverse c d before.reverse

theorem Edits.cons {n : Nat} {a b : List Char} (c : Char) (h : Edits n a b) :
    Edits n (c :: a) (c :: b) := by
  induction h with
  | none a => exact Edits.none (c :: a)
  | step _ hedit ih => exact ih.step (hedit.cons c)

theorem Edits.reverse {n : Nat} {a b : List Char} (h : Edits n a b) :
    Edits n a.reverse b.reverse := by
  induction h with
  | none a => exact Edits.none a.reverse
  | step _ hedit ih => exact ih.step hedit.reverse

/-! ## Alignments -/

theorem Aligns.refl (a : List Char) : Aligns a a 0 := by
  induction a with
  | nil => exact Aligns.nil
  | cons c a ih =>
      have h := ih.pair c c
      rw [if_pos rfl] at h
      exact h

/-- What two texts start with in common does not add to the cost. -/
theorem Aligns.under {a b : List Char} {n : Nat} (before : List Char) (h : Aligns a b n) :
    Aligns (before ++ a) (before ++ b) n := by
  induction before with
  | nil => exact h
  | cons c before ih =>
      have hpair := ih.pair c c
      rw [if_pos rfl] at hpair
      exact hpair

/-- The empty text is aligned by passing over all of the other one. -/
theorem aligns_nil_left {b : List Char} {n : Nat} : Aligns [] b n ↔ n = b.length := by
  induction b generalizing n with
  | nil =>
      constructor
      · intro h
        cases h
        rfl
      · rintro rfl
        exact Aligns.nil
  | cons d b ih =>
      constructor
      · intro h
        cases h with
        | passRight _ h => rw [ih.1 h, List.length_cons]
      · rintro rfl
        exact (ih.2 rfl).passRight d

/-- An edit is an alignment that costs one at most. -/
theorem Edit.exists_aligns {a b : List Char} (h : Edit a b) : ∃ n ≤ 1, Aligns a b n := by
  cases h with
  | insert before c after => exact ⟨1, le_rfl, ((Aligns.refl after).passRight c).under before⟩
  | delete before c after => exact ⟨1, le_rfl, ((Aligns.refl after).passLeft c).under before⟩
  | exchange before c d after =>
      refine ⟨_, ?_, ((Aligns.refl after).pair c d).under before⟩
      split <;> omega

/-- **Alignments compose.** The composite costs as much as both together, or less. -/
theorem Aligns.trans {a b c : List Char} {m n : Nat} (hab : Aligns a b m) (hbc : Aligns b c n) :
    ∃ k ≤ m + n, Aligns a c k := by
  -- induction on the first alignment; where it ends with a character of the middle text, the second
  -- one may pass over characters of the last text before it gets there
  induction hab generalizing c n with
  | nil => exact ⟨n, by omega, hbc⟩
  | @passLeft a b m x _ ih =>
      obtain ⟨k, hk, h⟩ := ih hbc
      exact ⟨k + 1, by omega, h.passLeft x⟩
  | @passRight a b m y hab ih =>
      generalize hy : y :: b = middle at hbc
      induction hbc with
      | nil => cases hy
      | pair _ z h _ =>
          cases hy
          obtain ⟨k, hk, h⟩ := ih h
          exact ⟨k + 1, by omega, h.passRight z⟩
      | passLeft _ h _ =>
          cases hy
          obtain ⟨k, hk, h⟩ := ih h
          exact ⟨k, by omega, h⟩
      | passRight z _ ihc =>
          obtain ⟨k, hk, h⟩ := ihc hy
          exact ⟨k + 1, by omega, h.passRight z⟩
  | @pair a b m x y hab ih =>
      generalize hy : y :: b = middle at hbc
      induction hbc with
      | nil => cases hy
      | pair _ z h _ =>
          cases hy
          obtain ⟨k, hk, h⟩ := ih h
          refine ⟨_, ?_, h.pair x z⟩
          -- two characters that differ cannot both equal a third one
          by_cases hxy : x = y
          · rw [hxy]
            omega
          · rw [if_neg hxy]
            split <;> split <;> omega
      | passLeft _ h _ =>
          cases hy
          obtain ⟨k, hk, h⟩ := ih h
          exact ⟨k + 1, by omega, h.passLeft x⟩
      | passRight z _ ihc =>
          obtain ⟨k, hk, h⟩ := ihc hy
          exact ⟨k + 1, by omega, h.passRight z⟩

/-! ## The least number of edits -/

/-- **An alignment can be carried out.** -/
theorem Aligns.edits {a b : List Char} {n : Nat} (h : Aligns a b n) : Edits n a b := by
  induction h with
  | nil => exact Edits.none []
  | @pair a b n c d _ ih =>
      by_cases hcd : c = d
      · rw [if_pos hcd, hcd]
        exact ih.cons d
      · rw [if_neg hcd]
        exact (ih.cons c).step (Edit.exchange [] c d b)
  | @passLeft a b n c _ ih => exact (ih.cons c).step (Edit.delete [] c b)
  | @passRight a b n d _ ih => exact ih.step (Edit.insert [] d b)

/-- **Edits are at least as many as some alignment costs.** -/
theorem Edits.exists_aligns {a b : List Char} {n : Nat} (h : Edits n a b) :
    ∃ k ≤ n, Aligns a b k := by
  induction h with
  | none a => exact ⟨0, le_rfl, Aligns.refl a⟩
  | step _ hedit ih =>
      obtain ⟨k, hk, hab⟩ := ih
      obtain ⟨l, hl, hbc⟩ := hedit.exists_aligns
      obtain ⟨total, htotal, hac⟩ := hab.trans hbc
      exact ⟨total, by omega, hac⟩

/-- **The least cost of an alignment is the least number of edits**, also if both texts are read
from their ends. -/
theorem isLeast_edits {a b : List Char} {d : Nat} (haligns : Aligns a.reverse b.reverse d)
    (hleast : ∀ n, Aligns a.reverse b.reverse n → d ≤ n) : IsLeast {n | Edits n a b} d := by
  constructor
  · have h := haligns.edits.reverse
    rw [List.reverse_reverse, List.reverse_reverse] at h
    exact h
  · intro n h
    obtain ⟨k, hk, hn⟩ := (Edits.reverse h).exists_aligns
    exact (hleast k hn).trans hk

end PathDoc.Match

/-!
# Sets of characters given by ranges

A set of code points is a list of ranges in rising order that neither overlap nor touch
(`isRising`). `insert` adds a range to such a list and keeps its form (`isRising_insert`). `holds`
decides membership and `holds_iff` reads it back as a statement about one range of the list.
-/

set_option autoImplicit false

namespace PathDoc.Text

/-- Ranges of code points, both ends included. -/
abbrev Ranges := List (Nat × Nat)

namespace Ranges

/-- Whether a code point lies in one of the ranges. -/
def holds (ranges : Ranges) (code : Nat) : Bool :=
  ranges.any fun range => range.1 ≤ code && code ≤ range.2

/-- Adds the code points from `low` to `high`. -/
def insert (low high : Nat) : Ranges → Ranges
  | [] => [(low, high)]
  | range :: rest =>
    if high + 1 < range.1 then (low, high) :: range :: rest
    else if range.2 + 1 < low then range :: insert low high rest
    else insert (low.min range.1) (high.max range.2) rest

/-- Whether no range is empty, and each one ends before the code point in front of the next. -/
def isRising : Ranges → Bool
  | [] => true
  | [range] => range.1 ≤ range.2
  | range :: next :: rest =>
    range.1 ≤ range.2 && range.2 + 1 < next.1 && isRising (next :: rest)

/-- The code points of both sets. -/
def intersection (a b : Ranges) : Ranges :=
  a.flatMap fun r => b.filterMap fun s =>
    if r.1.max s.1 ≤ r.2.min s.2 then some (r.1.max s.1, r.2.min s.2) else none

/-- The code point of a character that comes after one, past the gap of the surrogates. -/
def succ (code : Nat) : Nat :=
  if code = 0xd7ff then 0xe000 else code + 1

/-- The code point of a character that comes before one. -/
def pred (code : Nat) : Nat :=
  if code = 0xe000 then 0xd7ff else code - 1

/-- The greatest code point. -/
def last : Nat := 0x10ffff

/-- The characters from a code point on that a set lacks. -/
def gaps (start : Nat) : Ranges → Ranges
  | [] => if start ≤ last then [(start, last)] else []
  | range :: rest =>
    if start < range.1 then (start, pred range.1) :: gaps (succ range.2) rest
    else gaps (succ range.2) rest

/-- The characters outside a set. -/
def complement (a : Ranges) : Ranges :=
  a.gaps 0

theorem isRising_cons_iff {range : Nat × Nat} {rest : Ranges} :
    isRising (range :: rest) = true ↔
      range.1 ≤ range.2 ∧ (∀ next ∈ rest.head?, range.2 + 1 < next.1) ∧
        isRising rest = true := by
  cases rest with
  | nil => simp [isRising]
  | cons next rest => simp [isRising, and_assoc]

/-- No range of a rising list is empty. -/
theorem le_of_isRising {ranges : Ranges} (h : ranges.isRising = true) :
    ∀ range ∈ ranges, range.1 ≤ range.2 := by
  induction ranges with
  | nil => simp
  | cons range rest ih =>
    obtain ⟨hrange, -, hrest⟩ := isRising_cons_iff.1 h
    exact List.forall_mem_cons.2 ⟨hrange, ih hrest⟩

/-- What lies below a rising list and below a range lies below both joined. -/
theorem lt_head?_insert {bound low high : Nat} {ranges : Ranges} (h : ranges.isRising = true)
    (hlow : bound < low) (hhead : ∀ first ∈ ranges.head?, bound < first.1) :
    ∀ first ∈ (ranges.insert low high).head?, bound < first.1 := by
  induction ranges generalizing low high with
  | nil => simpa [insert] using hlow
  | cons range rest ih =>
    obtain ⟨hrange, hnext, hrest⟩ := isRising_cons_iff.1 h
    have hfirst : bound < range.1 := hhead range rfl
    rw [insert]
    split
    · simpa using hlow
    · split
      · simpa using hfirst
      · have hmin : bound < low.min range.1 := Nat.lt_min.2 ⟨hlow, hfirst⟩
        refine ih hrest hmin fun next hm => ?_
        have hgap := hnext next hm
        omega

/-- **Inserting a range keeps a list rising.** -/
theorem isRising_insert {low high : Nat} {ranges : Ranges} (h : ranges.isRising = true)
    (hle : low ≤ high) : (ranges.insert low high).isRising = true := by
  induction ranges generalizing low high with
  | nil => simpa [insert, isRising] using hle
  | cons range rest ih =>
    obtain ⟨hrange, hnext, hrest⟩ := isRising_cons_iff.1 h
    rw [insert]
    split
    · rename_i hbelow
      exact isRising_cons_iff.2 ⟨hle, by simpa using hbelow, h⟩
    · split
      · rename_i habove
        exact isRising_cons_iff.2 ⟨hrange, lt_head?_insert hrest habove hnext, ih hrest hle⟩
      · -- the two ranges touch or overlap, so they are joined
        have hjoined : low.min range.1 ≤ high.max range.2 :=
          Nat.le_trans (Nat.min_le_left _ _) (Nat.le_trans hle (Nat.le_max_left _ _))
        exact ih hrest hjoined

/-- **Membership in a list of ranges is membership in one of them.** -/
theorem holds_iff (ranges : Ranges) (code : Nat) :
    ranges.holds code = true ↔ ∃ range ∈ ranges, range.1 ≤ code ∧ code ≤ range.2 := by
  simp [holds]

/-- **Inserting a range adds its code points and no others.** -/
theorem holds_insert (low high : Nat) (ranges : Ranges) (code : Nat) (h : low ≤ high)
    (ordered : ∀ range ∈ ranges, range.1 ≤ range.2) :
    (ranges.insert low high).holds code = true ↔
      (low ≤ code ∧ code ≤ high) ∨ ranges.holds code = true := by
  induction ranges generalizing low high with
  | nil => simp [insert, holds]
  | cons range rest ih =>
    have hr := ordered range (List.mem_cons_self ..)
    have ho : ∀ r ∈ rest, r.1 ≤ r.2 := fun r hr => ordered r (List.mem_cons_of_mem _ hr)
    have cons_iff (r : Nat × Nat) (s : Ranges) :
        holds (r :: s) code = true ↔ (r.1 ≤ code ∧ code ≤ r.2) ∨ s.holds code = true := by
      simp [holds]
    rw [insert]
    split
    · -- the new range stands in front, or further behind, or is joined to the first one
      rw [cons_iff, cons_iff]
    · split
      · rw [cons_iff, cons_iff, ih low high h ho]
        exact or_left_comm
      · have hmin : low.min range.1 ≤ high.max range.2 := by
          unfold Nat.min Nat.max
          omega
        rw [ih _ _ hmin ho, cons_iff, ← or_assoc]
        refine or_congr_left ?_
        unfold Nat.min Nat.max
        omega

/-- **A code point lies in an intersection when it lies in both sets.** -/
theorem holds_intersection (a b : Ranges) (code : Nat) :
    (a.intersection b).holds code = (a.holds code && b.holds code) := by
  rw [Bool.eq_iff_iff, Bool.and_eq_true, holds_iff, holds_iff, holds_iff]
  constructor
  · rintro ⟨range, hmem, hlow, hhigh⟩
    obtain ⟨r, hr, hrange⟩ := List.mem_flatMap.1 hmem
    obtain ⟨s, hs, heq⟩ := List.mem_filterMap.1 hrange
    split at heq
    · cases heq
      dsimp only [Nat.min, Nat.max] at hlow hhigh
      exact ⟨⟨r, hr, by omega⟩, ⟨s, hs, by omega⟩⟩
    · exact nomatch heq
  · rintro ⟨⟨r, hr, hrl, hrh⟩, ⟨s, hs, hsl, hsh⟩⟩
    have hmem : r.1.max s.1 ≤ code ∧ code ≤ r.2.min s.2 := by
      unfold Nat.min Nat.max
      omega
    exact ⟨_, List.mem_flatMap.2 ⟨r, hr, List.mem_filterMap.2
      ⟨s, hs, if_pos (Nat.le_trans hmem.1 hmem.2)⟩⟩, hmem⟩

end Ranges

end PathDoc.Text

import Mathlib.Data.List.Nodup
import Mathlib.Tactic.Positivity
import Mathlib.Tactic.Ring
import PathDoc.Collection
import PathDoc.Proofs.Path.Grammar

/-!
# Slices of collections

A slice is described by the places that its stride leads to from its first bound (`Slice.place`) and
by the bound that they must come before in the direction of the stride (`Slice.Before`). Counting up
and counting down list exactly these places (`getElem?_upward`, `getElem?_downward`), unless the
stride leads from one of them beyond the greatest word, which only a counter that goes up can come
to (`upward_eq_none_iff`). Hence a stride that is small enough selects the documents of the slice,
each at most once (`select_slice`), and counting stays within words exactly if no place of the slice
lies within one stride of the end of the words (`slicesInWords_iff`).
-/

set_option autoImplicit false

namespace PathDoc

open PathDoc.Path (FitsWord)

/-- A slice of a list: the length of the list, the bounds if there are any, and the stride. -/
structure Slice where
  /-- The length of the list. -/
  size : Nat
  /-- The bound to begin at. -/
  start : Option Int
  /-- The bound to stop before. -/
  stop : Option Int
  /-- The distance from one place to the next, downwards if it is negative. -/
  stride : Int

namespace Slice

variable (slice : Slice)

/-- A bound counted from the start of the list; negative bounds count from its end. -/
def fromStart (bound : Int) : Int :=
  if bound < 0 then bound + slice.size else bound

/-- The least place for a bound: the first position, or the place before it on the way down. -/
def lowest : Int :=
  if 0 < slice.stride then 0 else -1

/-- The greatest place for a bound: the place after the last position, or that position on the way
down. -/
def highest : Int :=
  if 0 < slice.stride then slice.size else slice.size - 1

/-- A bound moved to the nearest place for bounds. -/
def clamped (bound : Int) : Int :=
  if slice.fromStart bound < slice.lowest then slice.lowest
  else if slice.highest < slice.fromStart bound then slice.highest
  else slice.fromStart bound

/-- The place to begin at: without a bound, the end of the list that the stride leads away from. -/
def first : Int :=
  match slice.start with
  | some bound => slice.clamped bound
  | none => if 0 < slice.stride then slice.lowest else slice.highest

/-- The place to stop before: without a bound, the end of the list that the stride leads to. -/
def last : Int :=
  match slice.stop with
  | some bound => slice.clamped bound
  | none => if 0 < slice.stride then slice.highest else slice.lowest

/-- The place after some strides. -/
def place (strides : Nat) : Int :=
  slice.first + strides * slice.stride

/-- Whether a place comes strictly before the stop in the direction of the stride. -/
def Before (place : Int) : Prop :=
  if 0 < slice.stride then place < slice.last else slice.last < place

instance (place : Int) : Decidable (slice.Before place) :=
  inferInstanceAs (Decidable (if 0 < slice.stride then _ else _))

/-- Whether a list holds the places of the slice, in order: its entry after some strides is the
place after these strides, as long as that comes before the stop. -/
def Lists (places : List Int) : Prop :=
  ∀ k : Nat, places[k]? = if slice.Before (slice.place k) then some (slice.place k) else none

/-- Whether the stride leads from a place of the slice beyond the greatest word. -/
def Overruns : Prop :=
  ∃ k : Nat, slice.Before (slice.place k) ∧ 0x8000000000000000 ≤ slice.place k + slice.stride

/-! ## Bounds -/

variable {slice}

theorem lowest_le_highest : slice.lowest ≤ slice.highest := by
  unfold lowest highest
  split <;> omega

theorem clamped_mem (bound : Int) :
    slice.lowest ≤ slice.clamped bound ∧ slice.clamped bound ≤ slice.highest := by
  have h := slice.lowest_le_highest
  unfold clamped
  split
  · omega
  · split <;> omega

theorem first_mem : slice.lowest ≤ slice.first ∧ slice.first ≤ slice.highest := by
  have h := slice.lowest_le_highest
  unfold first
  split
  · exact clamped_mem _
  · split <;> omega

theorem last_mem : slice.lowest ≤ slice.last ∧ slice.last ≤ slice.highest := by
  have h := slice.lowest_le_highest
  unfold last
  split
  · exact clamped_mem _
  · split <;> omega

/-- **Counting a bound from the start of the list stays within words.** -/
theorem fitsWord_fromStart (hsize : FitsWord slice.size) {bound : Int} (h : FitsWord bound) :
    FitsWord (slice.fromStart bound) := by
  unfold FitsWord at *
  unfold fromStart
  split <;> omega

theorem fitsWord_of_mem (hsize : FitsWord slice.size) {place : Int}
    (h : slice.lowest ≤ place ∧ place ≤ slice.highest) : FitsWord place := by
  unfold lowest highest at h
  unfold FitsWord at *
  split at h <;> omega

/-! ## Places -/

theorem place_succ (k : Nat) : slice.place (k + 1) = slice.place k + slice.stride := by
  unfold place
  push_cast
  ring

/-- Places before the stop are positions of the list. -/
theorem mem_range_of_before {k : Nat} (h : slice.Before (slice.place k)) :
    0 ≤ slice.place k ∧ slice.place k < slice.size := by
  obtain ⟨hfirst, hfirst'⟩ := slice.first_mem
  obtain ⟨hlast, hlast'⟩ := slice.last_mem
  unfold Before at h
  unfold lowest highest at *
  by_cases hup : 0 < slice.stride
  · have hk : 0 ≤ (k : Int) * slice.stride := mul_nonneg (Int.natCast_nonneg k) hup.le
    simp only [if_pos hup] at *
    unfold place at *
    omega
  · have hk : (k : Int) * slice.stride ≤ 0 :=
      mul_nonpos_of_nonneg_of_nonpos (Int.natCast_nonneg k) (not_lt.1 hup)
    simp only [if_neg hup] at *
    unfold place at *
    omega

theorem place_inj (hstride : slice.stride ≠ 0) {j k : Nat} (h : slice.place j = slice.place k) :
    j = k := by
  have hproduct : (j : Int) * slice.stride = k * slice.stride := by
    unfold place at h
    omega
  exact Int.ofNat_inj.1 (mul_right_cancel₀ hstride hproduct)

theorem Lists.mem_range {places : List Int} (h : slice.Lists places) :
    ∀ place ∈ places, 0 ≤ place ∧ place < slice.size := by
  intro place hm
  obtain ⟨k, hk⟩ := List.mem_iff_getElem?.1 hm
  rw [h k, Option.ite_none_right_eq_some, Option.some_inj] at hk
  obtain ⟨hbefore, rfl⟩ := hk
  exact mem_range_of_before hbefore

/-- **No place is listed twice.** -/
theorem Lists.nodup {places : List Int} (h : slice.Lists places) (hstride : slice.stride ≠ 0) :
    places.Nodup := by
  rw [List.nodup_iff_getElem?_ne_getElem?]
  intro j k hjk hk he
  have hplace : places[k]? = some (slice.place k) := by
    have hk' := h k
    rw [List.getElem?_eq_getElem hk] at hk' ⊢
    split at hk'
    · exact hk'
    · cases hk'
  rw [hplace, h j, Option.ite_none_right_eq_some, Option.some_inj] at he
  exact hjk.ne (place_inj hstride he.2)

/-- Small strides do not lead beyond the greatest word. -/
theorem not_overruns (h : FitsWord (slice.size + slice.stride.natAbs)) : ¬ slice.Overruns := by
  rintro ⟨k, hk, hk'⟩
  have hplace := mem_range_of_before hk
  unfold FitsWord at h
  omega

end Slice

namespace Collection

/-! ## Counting -/

section

variable {stride : Nat} {stop : Int}

/-- The place after one stride more is that place from the next one on. -/
theorem add_succ_strides (i : Int) (stride k : Nat) :
    i + (k + 1 : Nat) * stride = i + stride + k * stride := by
  push_cast
  ring

/-- **A counter that goes up overflows exactly where a stride leads beyond the greatest word** from
a place that comes before the stop. -/
theorem upward_eq_none_iff {fuel : Nat} {i : Int} (hfuel : stop - i ≤ fuel)
    (hstride : 0 < stride) :
    upward stride stop fuel i = none ↔
      ∃ k : Nat, i + k * stride < stop ∧ 0x8000000000000000 ≤ i + k * stride + stride := by
  induction fuel generalizing i with
  | zero =>
      refine ⟨fun h => (nomatch h), ?_⟩
      rintro ⟨k, hk, -⟩
      have hpos : 0 ≤ (k : Int) * stride := by positivity
      omega
  | succ fuel ih =>
      rw [upward]
      split
      · split
        · rename_i hstop hword
          rw [Option.map_eq_none_iff, ih (by omega)]
          -- the first place does not lead too far, so the places from the next on decide
          constructor
          · rintro ⟨k, hk, hk'⟩
            rw [← add_succ_strides] at hk hk'
            exact ⟨k + 1, hk, hk'⟩
          · rintro ⟨k, hk, hk'⟩
            cases k with
            | zero => simp at hk'; omega
            | succ k =>
                rw [add_succ_strides] at hk hk'
                exact ⟨k, hk, hk'⟩
        · rename_i hstop hword
          exact ⟨fun _ => ⟨0, by simpa using hstop, by simpa using not_lt.1 hword⟩, fun _ => rfl⟩
      · rename_i hstop
        refine ⟨fun h => (nomatch h), ?_⟩
        rintro ⟨k, hk, -⟩
        have hpos : 0 ≤ (k : Int) * stride := by positivity
        omega

/-- **A counter that goes up lists the places before the stop.** -/
theorem getElem?_upward {fuel : Nat} {i : Int} (hi : 0 ≤ i) (hfuel : stop - i ≤ fuel)
    (hstride : 0 < stride) {positions : List Nat}
    (h : upward stride stop fuel i = some positions) (k : Nat) :
    positions[k]?.map Int.ofNat =
      if i + k * stride < stop then some (i + k * stride) else none := by
  have hpos : 0 ≤ (k : Int) * stride := by positivity
  -- induction on the fuel: the counter is moved by one stride, and the place asked for comes closer
  induction fuel generalizing i positions k with
  | zero =>
      cases h
      rw [if_neg (by omega)]
      rfl
  | succ fuel ih =>
      rw [upward] at h
      split at h
      · split at h
        · rename_i hstop hword
          obtain ⟨rest, hrest, rfl⟩ := Option.map_eq_some_iff.1 h
          cases k with
          | zero => simp [hstop, hi]
          | succ k =>
              rw [List.getElem?_cons_succ, add_succ_strides]
              exact ih (by omega) (by omega) hrest k (by positivity)
        · cases h
      · rename_i hstop
        cases h
        rw [if_neg (by omega)]
        rfl

/-- **A counter that goes down lists the places before the stop.** -/
theorem getElem?_downward (hstop : -1 ≤ stop) {fuel : Nat} {i : Int} (hfuel : i - stop ≤ fuel)
    (hstride : 0 < stride) (k : Nat) :
    (downward stride stop fuel i)[k]?.map Int.ofNat =
      if stop < i - k * stride then some (i - k * stride) else none := by
  have hpos : 0 ≤ (k : Int) * stride := by positivity
  -- induction on the fuel, as for a counter that goes up
  induction fuel generalizing i k with
  | zero =>
      rw [if_neg (by omega)]
      rfl
  | succ fuel ih =>
      rw [downward]
      split
      · rename_i hi
        cases k with
        | zero => simp [hi]; omega
        | succ k =>
            have hplace : i - (k + 1 : Nat) * stride = i - stride - k * stride := by
              push_cast
              ring
            rw [List.getElem?_cons_succ, hplace]
            exact ih (by omega) k (by positivity)
      · rw [if_neg (by omega)]
        rfl

end

/-! ## Positions -/

section

variable {slice : Slice}

theorem bound_eq_clamped (bound : Int) :
    Collection.bound slice.size slice.lowest slice.highest bound = slice.clamped bound := by
  have h := slice.lowest_le_highest
  unfold Collection.bound Slice.clamped Slice.fromStart
  split <;> omega

/-- With a positive stride the positions are counted up. -/
theorem slicePositions_of_pos (h : 0 < slice.stride) :
    slicePositions slice.size slice.start slice.stop slice.stride =
      .ok (upward slice.stride.natAbs slice.last slice.size slice.first) := by
  have hlow : slice.lowest = 0 := if_pos h
  have hhigh : slice.highest = slice.size := if_pos h
  have hbound : ∀ bound, Collection.bound slice.size 0 slice.size bound = slice.clamped bound := by
    intro bound
    rw [← bound_eq_clamped, hlow, hhigh]
  have hfirst : (slice.start.map (Collection.bound slice.size 0 slice.size)).getD 0 =
      slice.first := by
    unfold Slice.first
    cases slice.start <;> simp [h, hlow, hbound]
  have hlast : (slice.stop.map (Collection.bound slice.size 0 slice.size)).getD slice.size =
      slice.last := by
    unfold Slice.last
    cases slice.stop <;> simp [h, hhigh, hbound]
  rw [slicePositions, if_neg h.ne', if_pos h, hfirst, hlast]

/-- With a negative stride the positions are counted down. -/
theorem slicePositions_of_neg (h : slice.stride < 0) :
    slicePositions slice.size slice.start slice.stop slice.stride =
      .ok (some (downward slice.stride.natAbs slice.last slice.size slice.first)) := by
  have hneg : ¬ 0 < slice.stride := not_lt.2 h.le
  have hlow : slice.lowest = -1 := if_neg hneg
  have hhigh : slice.highest = slice.size - 1 := if_neg hneg
  have hbound : ∀ bound,
      Collection.bound slice.size (-1) (slice.size - 1) bound = slice.clamped bound := by
    intro bound
    rw [← bound_eq_clamped, hlow, hhigh]
  have hfirst : (slice.start.map (Collection.bound slice.size (-1) (slice.size - 1))).getD
      (slice.size - 1) = slice.first := by
    unfold Slice.first
    cases slice.start <;> simp [hneg, hhigh, hbound]
  have hlast : (slice.stop.map (Collection.bound slice.size (-1) (slice.size - 1))).getD (-1) =
      slice.last := by
    unfold Slice.last
    cases slice.stop <;> simp [hneg, hlow, hbound]
  rw [slicePositions, if_neg h.ne, if_neg hneg, hfirst, hlast]

/-- **Counting leaves the range of words exactly if a stride leads beyond the greatest word.** -/
theorem slicePositions_eq_none_iff (slice : Slice) (hsize : FitsWord slice.size)
    (hstride : slice.stride ≠ 0) :
    slicePositions slice.size slice.start slice.stop slice.stride = .ok none ↔
      slice.Overruns := by
  rcases lt_or_gt_of_ne hstride with hneg | hpos
  · rw [slicePositions_of_neg hneg]
    refine ⟨fun h => by simp at h, ?_⟩
    -- on the way down every place is smaller than the list is long
    rintro ⟨k, hk, hk'⟩
    have hplace := Slice.mem_range_of_before hk
    unfold FitsWord at hsize
    omega
  · have hfirst := slice.first_mem
    have hlast := slice.last_mem
    rw [Slice.lowest, if_pos hpos, Slice.highest, if_pos hpos] at hfirst hlast
    have hcast : (slice.stride.natAbs : Int) = slice.stride := Int.natAbs_of_nonneg hpos.le
    rw [slicePositions_of_pos hpos, Except.ok.injEq,
      upward_eq_none_iff (by omega) (Int.natAbs_pos.2 hstride), hcast]
    simp only [Slice.Overruns, Slice.Before, if_pos hpos, Slice.place]

/-- **The positions that are counted are the places of the slice.** -/
theorem lists_of_slicePositions (slice : Slice) (hstride : slice.stride ≠ 0) {positions : List Nat}
    (h : slicePositions slice.size slice.start slice.stop slice.stride = .ok (some positions)) :
    slice.Lists (positions.map Int.ofNat) := by
  intro k
  have hfirst := slice.first_mem
  have hlast := slice.last_mem
  rw [List.getElem?_map]
  rcases lt_or_gt_of_ne hstride with hneg | hpos
  · -- down: the stride is counted by its size and taken off
    have hnot : ¬ 0 < slice.stride := not_lt.2 hneg.le
    rw [Slice.lowest, if_neg hnot, Slice.highest, if_neg hnot] at hfirst hlast
    rw [slicePositions_of_neg hneg, Except.ok.injEq, Option.some_inj] at h
    subst h
    have hplace : slice.first - k * slice.stride.natAbs = slice.place k := by
      rw [Int.ofNat_natAbs_of_nonpos hneg.le, Slice.place]
      ring
    rw [getElem?_downward hlast.1 (by omega) (Int.natAbs_pos.2 hstride), hplace]
    simp only [Slice.Before, if_neg hnot]
  · -- up: the stride is added as it is
    rw [Slice.lowest, if_pos hpos, Slice.highest, if_pos hpos] at hfirst hlast
    rw [slicePositions_of_pos hpos, Except.ok.injEq] at h
    have hcast : (slice.stride.natAbs : Int) = slice.stride := Int.natAbs_of_nonneg hpos.le
    rw [getElem?_upward hfirst.1 (by omega) (Int.natAbs_pos.2 hstride) h, hcast]
    simp only [Slice.Before, if_pos hpos, Slice.place]

end

/-! ## Selection -/

/-- Positions of documents pick the documents that stand there. -/
theorem filterMap_positions {documents : List Document} (chosen : List (Fin documents.length)) :
    (chosen.map Fin.val).filterMap (documents[·]?) = chosen.map documents.get := by
  have hget : (documents[·]?) ∘ Fin.val = some ∘ documents.get :=
    funext fun i => List.getElem?_eq_getElem i.isLt
  rw [List.filterMap_map, hget, List.filterMap_eq_map]

/-- The places of a slice of a collection. -/
abbrev slice (collection : Collection) (start stop : Option Int) (stride : Int) : Slice :=
  ⟨collection.size, start, stop, stride⟩

/-- **A slice selects the documents at its places,** unless counting leaves the range of words. -/
theorem select_slice_cases (collection : Collection) (start stop : Option Int) {stride : Int}
    (hsize : FitsWord collection.size) (hstride : stride ≠ 0) :
    ((collection.slice start stop stride).Overruns ∧
        collection.select (.slice start stop stride) = .ok none) ∨
      (¬ (collection.slice start stop stride).Overruns ∧
        ∃ chosen : List (Fin collection.documents.length),
          collection.select (.slice start stop stride) =
              .ok (some (ofList (chosen.map collection.documents.get))) ∧
            (collection.slice start stop stride).Lists (chosen.map fun i => (i.val : Int))) := by
  have hnone := slicePositions_eq_none_iff (collection.slice start stop stride) hsize hstride
  have hselect : collection.select (.slice start stop stride) =
      (slicePositions collection.size start stop stride).map fun found =>
        found.map fun positions => ofList (positions.filterMap collection.get?) := by
    rw [select]
    cases slicePositions collection.size start stop stride <;> rfl
  rw [hselect]
  cases hfound : slicePositions collection.size start stop stride with
  | error error =>
      -- only the stride zero is refused
      rw [slicePositions, if_neg hstride] at hfound
      split at hfound <;> cases hfound
  | ok found =>
      cases found with
      | none => exact Or.inl ⟨hnone.1 hfound, rfl⟩
      | some positions =>
          refine Or.inr ⟨fun hover => ?_, ?_⟩
          · cases hfound.symm.trans (hnone.2 hover)
          · have hplaces :=
              lists_of_slicePositions (collection.slice start stop stride) hstride hfound
            have hlt : ∀ i ∈ positions, i < collection.documents.length := fun i hi =>
              Int.ofNat_lt.1 (hplaces.mem_range _ (List.mem_map_of_mem hi)).2
            lift positions to List (Fin collection.documents.length) using hlt with chosen
            rw [List.map_map] at hplaces
            exact ⟨chosen, congrArg (fun documents => Except.ok (some (ofList documents)))
              (filterMap_positions chosen), hplaces⟩

/-- Counting down from the last position by one lists all positions. -/
theorem downward_one (size : Nat) :
    downward 1 (-1) size (size - 1) = (List.range size).reverse := by
  induction size with
  | zero => rfl
  | succ size ih =>
      have hlast : ((size + 1 : Nat) : Int) - 1 = size := by omega
      have hstop : (-1 : Int) < size := by omega
      rw [hlast, downward, if_pos hstop, List.range_succ, List.reverse_append, Int.toNat_natCast]
      exact congrArg (size :: ·) ih

/-- **A slice without bounds and with the stride minus one is the reversal.** -/
theorem select_reverse (collection : Collection) :
    collection.select (.slice none none (-1)) =
      .ok (some (ofList collection.documents.reverse)) := by
  have hall : (List.range collection.size).filterMap collection.get? = collection.documents := by
    rw [← List.map_coe_finRange_eq_range]
    exact (filterMap_positions _).trans (List.map_get_finRange _)
  have hdown : slicePositions collection.size none none (-1) =
      .ok (some (List.range collection.size).reverse) := by
    rw [← downward_one]
    rfl
  rw [select, hdown]
  change Except.ok (some (ofList (List.filterMap collection.get? _))) = _
  rw [List.filterMap_reverse, hall]

/-- **A slice selects by the usual rule.** Bounds count from the end if they are negative and are
moved into the list, and the places from the first bound on by the stride, as long as they come
before the other bound, are positions of the list, each at most once; the documents at these
positions are selected. In particular a slice without bounds reverses the documents if its stride is
minus one. -/
theorem select_slice (collection : Collection) (start stop : Option Int) {stride : Int}
    (hstride : stride ≠ 0) (hfits : FitsWord (collection.size + stride.natAbs)) :
    (∃ chosen : List (Fin collection.documents.length),
      collection.select (.slice start stop stride) =
          .ok (some (ofList (chosen.map collection.documents.get))) ∧
        (collection.slice start stop stride).Lists (chosen.map fun i => (i.val : Int)) ∧
        chosen.Nodup) ∧
      collection.select (.slice none none (-1)) =
        .ok (some (ofList collection.documents.reverse)) := by
  refine ⟨?_, select_reverse collection⟩
  have hsize : FitsWord collection.size := by
    unfold FitsWord at *
    omega
  rcases select_slice_cases collection start stop hsize hstride with
    ⟨hover, -⟩ | ⟨-, chosen, hselect, hlists⟩
  · exact absurd hover (Slice.not_overruns hfits)
  · exact ⟨chosen, hselect, hlists, List.Nodup.of_map _ (hlists.nodup hstride)⟩

/-- Every second document from the end down to a bound that counts from the end: the last and the
second. -/
theorem select_slice_every_second :
    let collection := ofList [.int 0, .int 1, .int 2, .int 3]
    (-2 : Int) ≠ 0 ∧ FitsWord (collection.size + (-2 : Int).natAbs) ∧
      collection.select (.slice none (some (-4)) (-2)) = .ok (some (ofList [.int 3, .int 1])) ∧
      (collection.slice none (some (-4)) (-2)).Lists [3, 1] ∧
      collection.select (.slice none none (-1)) =
        .ok (some (ofList [.int 3, .int 2, .int 1, .int 0])) := by
  intro collection
  have hstride : (-2 : Int) ≠ 0 := by decide
  have hfits : FitsWord (collection.size + (-2 : Int).natAbs) := by
    unfold FitsWord
    decide
  have hselect : collection.select (.slice none (some (-4)) (-2)) =
      .ok (some (ofList [.int 3, .int 1])) := rfl
  obtain ⟨⟨chosen, hchosen, hlists, -⟩, hreverse⟩ :=
    select_slice collection none (some (-4)) hstride hfits
  have hdocuments : chosen.map collection.documents.get = [.int 3, .int 1] := by
    rw [hselect] at hchosen
    exact (congrArg documents (Option.some.inj (Except.ok.inj hchosen))).symm
  -- the documents differ, so they say which positions were chosen
  have hinjective : Function.Injective collection.documents.get := by
    apply List.nodup_iff_injective_get.1
    simp [collection, ofList, Document.int]
  have hpositions : chosen = [⟨3, by decide⟩, ⟨1, by decide⟩] :=
    List.map_injective_iff.2 hinjective hdocuments
  rw [hpositions] at hlists
  exact ⟨hstride, hfits, hselect, hlists, hreverse⟩

/-! ## Words -/

/-- Counting a slice of a collection stays in the range of words and gives positions of the
collection. -/
structure SlicesInWords (collection : Collection) (start stop : Option Int) (stride : Int) :
    Prop where
  /-- The bounds are words when they are counted from the start of the list. -/
  counted : ∀ bound : Int, bound ∈ start ∨ bound ∈ stop →
    FitsWord ((collection.slice start stop stride).fromStart bound)
  /-- So is the greatest place for a bound. -/
  highest : FitsWord (collection.slice start stop stride).highest
  /-- So is the place to begin at. -/
  first : FitsWord (collection.slice start stop stride).first
  /-- So is the place to stop before. -/
  last : FitsWord (collection.slice start stop stride).last
  /-- So is the place one stride behind a place that comes before the stop. -/
  reached : ∀ k : Nat,
    (collection.slice start stop stride).Before ((collection.slice start stop stride).place k) →
      FitsWord ((collection.slice start stop stride).place (k + 1))
  /-- The documents at positions of the collection are selected. -/
  selected : ∃ chosen : List (Fin collection.documents.length),
    collection.select (.slice start stop stride) =
      .ok (some (ofList (chosen.map collection.documents.get)))

theorem fitsWord_toInt (word : Int64) : FitsWord word.toInt :=
  ⟨word.le_toInt, word.toInt_lt⟩

/-- **Counting a slice stays in the range of words exactly if no stride overruns it,** that is, if
no place before the stop lies within one stride of the end of the words; a stride that goes down
never does. Everything else that is computed is a word in any case. A slice that does overrun
selects nothing. -/
theorem slicesInWords_iff (collection : Collection) (hsize : FitsWord collection.size)
    (start stop : Option Int64) {stride : Int64} (hstride : stride ≠ 0) :
    (SlicesInWords collection (start.map Int64.toInt) (stop.map Int64.toInt) stride.toInt ↔
        ¬ (collection.slice (start.map Int64.toInt) (stop.map Int64.toInt) stride.toInt).Overruns) ∧
      (¬ SlicesInWords collection (start.map Int64.toInt) (stop.map Int64.toInt) stride.toInt →
        collection.select
          (.slice (start.map Int64.toInt) (stop.map Int64.toInt) stride.toInt) = .ok none) := by
  have hne : stride.toInt ≠ 0 := fun h => hstride (Int64.toInt_inj.1 h)
  have hword := fitsWord_toInt stride
  have hwords : ∀ bound : Int, bound ∈ start.map Int64.toInt ∨ bound ∈ stop.map Int64.toInt →
      FitsWord bound := by
    rintro bound (h | h) <;>
    · obtain ⟨word, -, rfl⟩ := Option.map_eq_some_iff.1 h
      exact fitsWord_toInt word
  -- from here on the bounds and the stride are integers that fit words
  generalize start.map Int64.toInt = opening, stop.map Int64.toInt = closing,
    stride.toInt = stride at hne hword hwords ⊢
  have hcases := select_slice_cases collection opening closing hsize hne
  have hiff : SlicesInWords collection opening closing stride ↔
      ¬ (collection.slice opening closing stride).Overruns := by
    constructor
    · -- a place that overruns would be followed by one outside the words
      rintro h ⟨k, hk, hk'⟩
      have hreached := h.reached k hk
      rw [Slice.place_succ] at hreached
      exact absurd hreached.2 (not_lt.2 hk')
    · intro hover
      -- without overrunning the slice selects something, and all that is computed fits
      rcases hcases with ⟨h, -⟩ | ⟨-, chosen, hselect, -⟩
      · exact absurd h hover
      · exact {
          counted := fun bound hb => Slice.fitsWord_fromStart hsize (hwords bound hb)
          highest := Slice.fitsWord_of_mem hsize ⟨Slice.lowest_le_highest, le_rfl⟩
          first := Slice.fitsWord_of_mem hsize Slice.first_mem
          last := Slice.fitsWord_of_mem hsize Slice.last_mem
          reached := fun k hk => by
            have hplace := Slice.mem_range_of_before hk
            have hinside := not_le.1 fun h => hover ⟨k, hk, h⟩
            rw [Slice.place_succ]
            exact ⟨le_trans hword.1 (le_add_of_nonneg_left hplace.1), hinside⟩
          selected := ⟨chosen, hselect⟩ }
  refine ⟨hiff, fun h => ?_⟩
  rcases hcases with ⟨-, hselect⟩ | ⟨hover, -⟩
  · exact hselect
  · exact absurd (hiff.2 hover) h

/-- The greatest stride from the first position stays in the range of words and selects one
document. -/
theorem slicesInWords_greatest_stride :
    let collection := ofList [.int 0, .int 1]
    FitsWord collection.size ∧ (0x7FFFFFFFFFFFFFFF : Int64) ≠ 0 ∧
      SlicesInWords collection (some 0) none 0x7FFFFFFFFFFFFFFF ∧
      ¬ (collection.slice (some 0) none 0x7FFFFFFFFFFFFFFF).Overruns ∧
      collection.select (.slice (some 0) none 0x7FFFFFFFFFFFFFFF) =
        .ok (some (ofList [.int 0])) := by
  intro collection
  have hsize : FitsWord collection.size := by
    unfold FitsWord
    decide
  have hstride : (0x7FFFFFFFFFFFFFFF : Int64) ≠ 0 := by decide
  have hgreatest : (0x7FFFFFFFFFFFFFFF : Int64).toInt = 0x7FFFFFFFFFFFFFFF := by decide
  have hselect : collection.select (.slice (some 0) none 0x7FFFFFFFFFFFFFFF) =
      .ok (some (ofList [.int 0])) := rfl
  obtain ⟨hiff, hnone⟩ := slicesInWords_iff collection hsize (some 0) none hstride
  rw [hgreatest] at hiff hnone
  -- a slice that leaves the words would select nothing
  have hwords : SlicesInWords collection (some 0) none 0x7FFFFFFFFFFFFFFF := by
    by_contra h
    cases hselect.symm.trans (hnone h)
  exact ⟨hsize, hstride, hwords, hiff.1 hwords, hselect⟩

/-- **The greatest stride from the second position leads beyond the words.** -/
theorem not_slicesInWords_greatest_stride :
    ¬ SlicesInWords (ofList [.int 0, .int 1]) (some 1) none 0x7FFFFFFFFFFFFFFF := by
  intro h
  obtain ⟨chosen, hselect⟩ := h.selected
  have hnone : select (ofList [.int 0, .int 1]) (.slice (some 1) none 0x7FFFFFFFFFFFFFFF) =
      .ok none := rfl
  cases hnone.symm.trans hselect

end Collection

end PathDoc

import PathDoc.Text.Scan

/-!
# Searching a text

A search looks at every place of a text that the last hit does not cover. What it reports was found
at a place (`Finder.exists_place_of_mem_scan`), its hits start one after the other
(`Finder.pairwise_scan_start`), and a hit that is not empty is reported or starts inside a reported
one (`Finder.exists_mem_scan_covering`). Looking for the first hit only gives the same answer as
looking for all of them (`Finder.hits_eq`).

What may be relied on in a searcher, however it comes by its answers, is `Searcher.Lawful`; trying a
proper finder at one place after the other is lawful (`Finder.Proper.lawful`).
-/

set_option autoImplicit false

namespace PathDoc.Text

/-- A stretch inside another one. -/
def Span.Inside (inner outer : Span) : Prop :=
  outer.start ≤ inner.start ∧ inner.start ≤ inner.stop ∧ inner.stop ≤ outer.stop

/-- The place between two parts of a text. -/
def Place.between (read rest : List Char) : Place :=
  ⟨read.length, read.getLast?, rest⟩

/-- The stretch from a place to the end of the text. -/
def Place.ahead (place : Place) : Span :=
  ⟨place.position, place.position + place.rest.length⟩

/-- A finder whose hits start where it looks and end in the text, with their groups inside. -/
def Finder.Proper (find : Finder) : Prop :=
  ∀ place hit, find place = some hit → hit.span.start = place.position ∧
    hit.span.Inside place.ahead ∧ ∀ group ∈ hit.groups, group.2.Inside hit.span

/-- The stretch of a group lies in its hit if the stretches of its numbered groups do. -/
theorem Hit.inside_of_group? {hit : Hit} (hspan : hit.span.start ≤ hit.span.stop)
    (hgroups : ∀ group ∈ hit.groups, group.2.Inside hit.span) {index : Nat} {span : Span}
    (hg : hit.group? index = some span) : span.Inside hit.span := by
  cases index with
  | zero =>
      cases hg
      exact ⟨Nat.le_refl _, hspan, Nat.le_refl _⟩
  | succ index =>
      obtain ⟨before, after, hsplit, -⟩ := List.lookup_eq_some_iff.1 hg
      exact hgroups (index + 1, span) (by rw [hsplit]; simp)

/-- What can be relied on in a searcher: its hits lie in the text with their groups inside, they
start one after the other and do not overlap, and it says that there is a hit exactly if it reports
one. -/
structure Searcher.Lawful (searcher : Searcher) : Prop where
  /-- Hits lie in the text. -/
  inside : ∀ text, ∀ hit ∈ searcher.all text, hit.span.Inside ⟨0, text.length⟩
  /-- Groups lie in their hit. -/
  groups : ∀ text, ∀ hit ∈ searcher.all text, ∀ group ∈ hit.groups, group.2.Inside hit.span
  /-- Hits come from left to right. -/
  leftToRight : ∀ text, (searcher.all text).Pairwise fun a b => a.span.start < b.span.start
  /-- Hits do not overlap. -/
  apart : ∀ text, (searcher.all text).Pairwise fun a b => a.span.stop ≤ b.span.start
  /-- There is a hit exactly if one is reported. -/
  hits_iff : ∀ text, searcher.hits text = true ↔ searcher.all text ≠ []

namespace Finder

variable {find : Finder}

theorem Proper.anchored (h : find.Proper) : find.Anchored := by
  intro place hit hf
  obtain ⟨hstart, ⟨-, hle, -⟩, -⟩ := h place hit hf
  exact ⟨hstart, hstart ▸ hle⟩

/-! ## One place after the other -/

/-- What is reported from a place on, before a character `c`. -/
theorem scan_cons (last : Option Nat) (read : List Char) (c : Char) (rest : List Char) :
    find.scan last read.length read.getLast? (c :: rest) =
      let found := scan.probe find last read.length read.getLast? (c :: rest)
      found.toList ++ find.scan (found.elim last (some ·.span.stop)) (read ++ [c]).length
        (read ++ [c]).getLast? rest := by
  rw [scan, List.length_append, List.getLast?_concat]
  cases scan.probe find last read.length read.getLast? (c :: rest) <;> rfl

theorem eq_some_of_probe {last : Option Nat} {position : Nat} {before : Option Char}
    {rest : List Char} {hit : Hit} (h : scan.probe find last position before rest = some hit) :
    find ⟨position, before, rest⟩ = some hit := by
  rw [scan.probe] at h
  split at h
  · cases h
  · exact (Option.filter_eq_some_iff.1 h).1

/-- A hit that is not empty is reported unless the last one covers its start. -/
theorem probe_eq_some {last : Option Nat} {position : Nat} {before : Option Char}
    {rest : List Char} {hit : Hit} (h : find ⟨position, before, rest⟩ = some hit)
    (hlt : position < hit.span.stop) (hfree : last.any (position < ·) = false) :
    scan.probe find last position before rest = some hit := by
  have hne : (hit.span.stop == position) = false := beq_false_of_ne (Nat.ne_of_gt hlt)
  rw [scan.probe, hfree, if_neg Bool.false_ne_true, h, Option.filter_some, hne, Bool.and_false]
  rfl

/-! ## What is reported -/

/-- **A reported hit was found at a place of the text.** -/
theorem exists_place_of_mem_scan {last : Option Nat} {read text : List Char} {hit : Hit}
    (hm : hit ∈ find.scan last read.length read.getLast? text) :
    ∃ between rest, text = between ++ rest ∧
      find (.between (read ++ between) rest) = some hit := by
  induction text generalizing last read with
  | nil =>
      have hp := eq_some_of_probe (Option.mem_toList.1 hm)
      refine ⟨[], [], rfl, ?_⟩
      rw [List.append_nil]
      exact hp
  | cons c rest ih =>
      rw [scan_cons] at hm
      rcases List.mem_append.1 hm with hm | hm
      · refine ⟨[], c :: rest, rfl, ?_⟩
        rw [List.append_nil]
        exact eq_some_of_probe (Option.mem_toList.1 hm)
      · obtain ⟨between, rest, rfl, hf⟩ := ih hm
        refine ⟨c :: between, rest, rfl, ?_⟩
        rwa [List.append_cons]

/-- **Hits start one after the other.** -/
theorem pairwise_scan_start (anchored : find.Anchored) (last : Option Nat)
    (read text : List Char) :
    (find.scan last read.length read.getLast? text).Pairwise
      fun a b => a.span.start < b.span.start := by
  induction text generalizing last read with
  | nil =>
      rw [scan]
      cases scan.probe find last read.length read.getLast? [] with
      | none => exact List.Pairwise.nil
      | some hit => exact List.pairwise_singleton _ hit
  | cons c rest ih =>
      rw [scan_cons]
      apply List.pairwise_append.2
      -- at most one hit starts here, all others further on
      refine ⟨?_, ih _ _, ?_⟩
      · cases scan.probe find last read.length read.getLast? (c :: rest) with
        | none => exact List.Pairwise.nil
        | some hit => exact List.pairwise_singleton _ hit
      · intro a ha b hb
        have hstart := (probe_spec anchored (Option.mem_toList.1 ha)).1
        have hnext := ((scan_chain anchored _ _ _ _).2 b hb).1
        rw [List.length_append, List.length_singleton] at hnext
        omega

/-- **A hit that is not empty starts inside a reported one**, unless the last one covers its
start. -/
theorem exists_mem_scan_covering (anchored : find.Anchored) {last : Option Nat}
    {read between rest : List Char} {hit : Hit}
    (h : find (.between (read ++ between) rest) = some hit)
    (hlt : (read ++ between).length < hit.span.stop)
    (hfree : last.any ((read ++ between).length < ·) = false) :
    ∃ found ∈ find.scan last read.length read.getLast? (between ++ rest),
      found.span.start ≤ (read ++ between).length ∧
        (read ++ between).length < found.span.stop := by
  induction between generalizing last read with
  | nil =>
      rw [List.append_nil] at *
      have hp := probe_eq_some h hlt hfree
      refine ⟨hit, ?_, Nat.le_of_eq (anchored _ _ h).1, hlt⟩
      cases rest with
      | nil =>
          rw [List.nil_append, scan, hp]
          exact List.mem_singleton_self hit
      | cons c rest =>
          rw [List.nil_append, scan_cons, hp]
          exact List.mem_cons_self
  | cons c between ih =>
      rw [List.append_cons] at *
      rw [List.cons_append, scan_cons]
      cases hp : scan.probe find last read.length read.getLast? (c :: (between ++ rest)) with
      | none =>
          obtain ⟨found, hm, hcover⟩ := ih h hlt hfree
          exact ⟨found, hm, hcover⟩
      | some first =>
          obtain ⟨hstart, -⟩ := probe_spec anchored hp
          by_cases hcover : (read ++ [c] ++ between).length < first.span.stop
          · refine ⟨first, List.mem_cons_self, ?_, hcover⟩
            rw [hstart, List.length_append, List.length_append]
            omega
          · -- the hit at the first place ends before
            have hpassed : (some first.span.stop).any ((read ++ [c] ++ between).length < ·) = false :=
              decide_eq_false hcover
            obtain ⟨found, hm, hbounds⟩ := ih h hlt hpassed
            exact ⟨found, List.mem_cons_of_mem _ hm, hbounds⟩

/-! ## In a whole text -/

theorem exists_place_of_mem_all {text : List Char} {hit : Hit} (hm : hit ∈ find.all text) :
    ∃ before rest, text = before ++ rest ∧ find (.between before rest) = some hit := by
  have hread : hit ∈ find.scan none ([] : List Char).length ([] : List Char).getLast? text := hm
  exact exists_place_of_mem_scan hread

theorem exists_mem_all_covering (anchored : find.Anchored) {before rest : List Char} {hit : Hit}
    (h : find (.between before rest) = some hit) (hlt : before.length < hit.span.stop) :
    ∃ found ∈ find.all (before ++ rest),
      found.span.start ≤ before.length ∧ before.length < found.span.stop := by
  have hread : find (.between ([] ++ before) rest) = some hit := h
  exact exists_mem_scan_covering anchored hread hlt rfl

theorem hitsFrom_iff {read text : List Char} :
    find.hitsFrom read.length read.getLast? text = true ↔ ∃ between rest,
      text = between ++ rest ∧ (find (.between (read ++ between) rest)).isSome = true := by
  induction text generalizing read with
  | nil =>
      rw [hitsFrom]
      constructor
      · intro h
        refine ⟨[], [], rfl, ?_⟩
        rwa [List.append_nil]
      · rintro ⟨between, rest, hsplit, h⟩
        obtain ⟨rfl, rfl⟩ := List.append_eq_nil_iff.1 hsplit.symm
        rwa [List.append_nil] at h
  | cons c rest ih =>
      -- the rest of the text with one more character read
      have hnext : find.hitsFrom (read.length + 1) (some c) rest = true ↔ ∃ between after,
          rest = between ++ after ∧
            (find (.between (read ++ c :: between) after)).isSome = true := by
        have hread := @ih (read ++ [c])
        simp only [List.length_append, List.length_singleton, List.getLast?_concat,
          List.append_assoc, List.singleton_append] at hread
        exact hread
      rw [hitsFrom, Bool.or_eq_true, hnext]
      constructor
      · rintro (h | ⟨between, after, rfl, h⟩)
        · refine ⟨[], c :: rest, rfl, ?_⟩
          rwa [List.append_nil]
        · exact ⟨c :: between, after, rfl, h⟩
      · rintro ⟨between, after, hsplit, h⟩
        cases between with
        | nil =>
            rw [List.append_nil, ← List.nil_append after, ← hsplit] at h
            exact Or.inl h
        | cons d between =>
            obtain ⟨rfl, rfl⟩ := List.cons.inj hsplit
            exact Or.inr ⟨between, after, rfl, h⟩

/-- There is a hit in a text exactly if there is one at a place of it. -/
theorem hits_iff {text : List Char} :
    find.hits text = true ↔ ∃ before rest, text = before ++ rest ∧
      (find (.between before rest)).isSome = true :=
  @hitsFrom_iff find [] text

/-- **There is a hit exactly if one is reported.** -/
theorem hits_eq (find : Finder) (text : List Char) :
    find.hits text = !(find.all text).isEmpty := by
  -- as long as there was no hit, a probe reports all that is found
  have hprobe : ∀ position before rest,
      scan.probe find none position before rest = find ⟨position, before, rest⟩ := by
    intro position before rest
    rw [scan.probe, Option.any_none, if_neg Bool.false_ne_true]
    cases find ⟨position, before, rest⟩ <;> rfl
  rw [hits, all]
  generalize (0 : Nat) = position
  generalize (none : Option Char) = before
  induction text generalizing position before with
  | nil =>
      rw [hitsFrom, scan, hprobe]
      cases find ⟨position, before, []⟩ <;> rfl
  | cons c rest ih =>
      rw [hitsFrom, scan, hprobe]
      cases find ⟨position, before, c :: rest⟩ with
      | none => exact ih _ _
      | some hit => rfl

/-- **Trying a proper finder at one place after the other is lawful.** -/
theorem Proper.lawful (h : find.Proper) : find.searcher.Lawful where
  inside := by
    intro text hit hm
    obtain ⟨before, rest, rfl, hf⟩ := exists_place_of_mem_all hm
    obtain ⟨-, ⟨-, hspan, hstop⟩, -⟩ := h _ hit hf
    rw [List.length_append]
    exact ⟨Nat.zero_le _, hspan, hstop⟩
  groups := by
    intro text hit hm
    obtain ⟨before, rest, rfl, hf⟩ := exists_place_of_mem_all hm
    exact (h _ hit hf).2.2
  leftToRight := pairwise_scan_start h.anchored none []
  apart := fun text => (scan_chain h.anchored none 0 none text).1
  hits_iff := by
    intro text
    have hsame : find.searcher.hits text = !(find.searcher.all text).isEmpty := hits_eq find text
    rw [hsame, Bool.not_eq_true', List.isEmpty_eq_false_iff]

end Finder

end PathDoc.Text

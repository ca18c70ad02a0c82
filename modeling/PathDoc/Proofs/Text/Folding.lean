import PathDoc.Regex.CharSet

/-!
# Case variants

Simple case folding sends a code point along the run that covers it. No two runs disagree about a
code point (`agreeing_foldRuns`) and none goes on from where another one ends
(`settled_foldRuns`), so folding twice is folding once (`foldCode_foldCode`), and the case variants
of a code point are the code points that fold alike (`mem_caseVariants_iff`). The set of these code
points holds them and no others (`CharSet.holds_variants`).
-/

set_option autoImplicit false

namespace PathDoc.Text

/-! ## The runs -/

/-- Whether two runs never move the same code point to different ones, if the first run starts
first. -/
def CaseRun.agrees (a b : CaseRun) : Bool :=
  Nat.blt a.last b.first || a.distance == b.distance

/-- Whether every run agrees with those after it. -/
def agreeing : List CaseRun → Bool
  | [] => true
  | run :: runs => runs.all run.agrees && agreeing runs

/-- Whether a run covers none of the code points from `low` to `high`, or, if only every other one
of them counts, at most those in between. -/
def CaseRun.skips (run : CaseRun) (low high : Nat) (alternate : Bool) : Bool :=
  Nat.blt high run.first || Nat.blt run.last low ||
    (alternate && run.stride == 2 && (low - run.first) % 2 == 1)

/-- Whether no run covers a code point that a run moves another one to. -/
def CaseRun.isSettled (run : CaseRun) : Bool :=
  foldRuns.all fun other => other.skips (run.first + run.distance).toNat
    (run.last + run.distance).toNat (run.stride == 2 || run.first == run.last)

theorem agreeing_foldRuns : agreeing foldRuns = true := by
  decide +kernel

theorem settled_foldRuns : foldRuns.all CaseRun.isSettled = true := by
  decide +kernel

theorem positive_foldRuns : ∀ run ∈ foldRuns, 0 < run.first ∧ 0 ≤ run.first + run.distance := by
  decide +kernel

theorem CaseRun.covers_iff {run : CaseRun} {code : Nat} :
    run.covers code = true ↔
      run.first ≤ code ∧ code ≤ run.last ∧ (code - run.first) % run.stride = 0 := by
  simp [covers, and_assoc]

/-- Runs that cover the same code point move it alike. -/
theorem distance_eq_of_agreeing {runs : List CaseRun} (h : agreeing runs = true)
    {a b : CaseRun} (ha : a ∈ runs) (hb : b ∈ runs) {code : Nat} (hca : a.covers code = true)
    (hcb : b.covers code = true) : a.distance = b.distance := by
  -- a code point in both runs keeps them from being disjoint
  have hpair : ∀ {a b : CaseRun}, a.agrees b = true → a.covers code = true →
      b.covers code = true → a.distance = b.distance := by
    intro a b hagrees ha hb
    obtain ⟨-, hlast, -⟩ := CaseRun.covers_iff.1 ha
    obtain ⟨hfirst, -, -⟩ := CaseRun.covers_iff.1 hb
    simp only [CaseRun.agrees, Bool.or_eq_true, Nat.blt_eq, beq_iff_eq] at hagrees
    exact hagrees.resolve_left (by omega)
  induction runs with
  | nil => cases ha
  | cons run runs ih =>
      rw [agreeing, Bool.and_eq_true, List.all_eq_true] at h
      obtain ⟨hrun, hruns⟩ := h
      rcases List.mem_cons.1 ha with rfl | hma <;> rcases List.mem_cons.1 hb with rfl | hmb
      · rfl
      · exact hpair (hrun b hmb) hca hcb
      · exact (hpair (hrun a hma) hcb hca).symm
      · exact ih hruns hma hmb

/-! ## Folding -/

theorem foldCode_eq_of_covers {run : CaseRun} (hm : run ∈ foldRuns) {code : Nat}
    (h : run.covers code = true) : foldCode code = (code + run.distance).toNat := by
  rw [foldCode, moveAlong]
  cases hfind : foldRuns.find? (·.covers code) with
  | none => exact absurd h (List.find?_eq_none.1 hfind run hm)
  | some found =>
      have hfound := List.find?_some hfind
      have hmfound := List.mem_of_find?_eq_some hfind
      exact congrArg (fun distance => ((code : Int) + distance).toNat)
        (distance_eq_of_agreeing agreeing_foldRuns hmfound hm hfound h)

theorem foldCode_eq_self {code : Nat} (h : ∀ run ∈ foldRuns, run.covers code = false) :
    foldCode code = code := by
  have hnone : foldRuns.find? (·.covers code) = none := by
    apply List.find?_eq_none.2
    intro run hm
    simp [h run hm]
  rw [foldCode, moveAlong, hnone]

/-- A code point that is folded moves along a run, without leaving the code points. -/
theorem foldCode_cases (code : Nat) : foldCode code = code ∨
    ∃ run ∈ foldRuns, run.covers code = true ∧ (foldCode code : Int) = code + run.distance := by
  by_cases hcovered : ∃ run ∈ foldRuns, run.covers code = true
  · obtain ⟨run, hm, hc⟩ := hcovered
    obtain ⟨-, hpositive⟩ := positive_foldRuns run hm
    obtain ⟨hfirst, -, -⟩ := CaseRun.covers_iff.1 hc
    refine Or.inr ⟨run, hm, hc, ?_⟩
    rw [foldCode_eq_of_covers hm hc]
    omega
  · apply Or.inl
    apply foldCode_eq_self
    intro run hm
    exact Bool.eq_false_iff.2 fun hc => hcovered ⟨run, hm, hc⟩

/-- **Folding twice is folding once.** -/
theorem foldCode_foldCode (code : Nat) : foldCode (foldCode code) = foldCode code := by
  rcases foldCode_cases code with h | ⟨run, hm, hc, hmoved⟩
  · rw [h]
    exact h
  · apply foldCode_eq_self
    intro other hother
    have hsettled := List.all_eq_true.1 settled_foldRuns run hm
    have hskips := List.all_eq_true.1 hsettled other hother
    obtain ⟨hfirst, hlast, hstride⟩ := CaseRun.covers_iff.1 hc
    obtain ⟨-, hpositive⟩ := positive_foldRuns run hm
    apply Bool.eq_false_iff.2
    intro hcovers
    obtain ⟨hfirst', hlast', hstride'⟩ := CaseRun.covers_iff.1 hcovers
    simp only [CaseRun.skips, Bool.or_eq_true, Bool.and_eq_true, Nat.blt_eq, beq_iff_eq] at hskips
    rcases hskips with (hbelow | habove) | ⟨⟨halternate, htwo⟩, hodd⟩
    · omega
    · omega
    · -- the code points that are moved lie at an even distance from the first of them
      have heven : (code - run.first) % 2 = 0 := by
        rcases halternate with htwo | hsingle
        · rwa [htwo] at hstride
        · omega
      rw [htwo] at hstride'
      omega

/-- **The case variants of a code point are those that fold alike.** -/
theorem mem_caseVariants_iff {code other : Nat} :
    other ∈ caseVariants code ↔ foldCode other = foldCode code := by
  simp only [caseVariants, List.mem_cons, List.mem_filterMap, Option.ite_none_right_eq_some,
    Option.some.injEq]
  constructor
  · rintro (rfl | ⟨run, hm, hc, rfl⟩)
    · exact foldCode_foldCode code
    · obtain ⟨hpositive, -⟩ := positive_foldRuns run hm
      obtain ⟨hfirst, -, -⟩ := CaseRun.covers_iff.1 hc
      rw [foldCode_eq_of_covers hm hc]
      omega
  · intro h
    rcases foldCode_cases other with hself | ⟨run, hm, hc, hmoved⟩
    · exact Or.inl (hself.symm.trans h)
    · right
      have hsource : ((foldCode code : Int) - run.distance).toNat = other := by omega
      exact ⟨run, hm, by rwa [hsource], hsource⟩

end PathDoc.Text

namespace PathDoc.Regex.CharSet

open Text

/-- Inserting a range adds its code points and no others. -/
theorem holds_insert (set : CharSet) {low high : Nat} (h : low ≤ high) (c : Char) :
    (set.insert low high h).holds c = true ↔
      (low ≤ c.toNat ∧ c.toNat ≤ high) ∨ set.holds c = true :=
  Ranges.holds_insert low high set.ranges c.toNat h (Ranges.le_of_isRising set.rising)

/-- **The set of some code points holds these.** -/
theorem holds_ofCodes (codes : List Nat) (c : Char) :
    (ofCodes codes).holds c = true ↔ c.toNat ∈ codes := by
  induction codes with
  | nil => simp [ofCodes, none, holds, Ranges.holds]
  | cons code codes ih =>
      have hcons : ofCodes (code :: codes) =
          (ofCodes codes).insert code code (Nat.le_refl code) := rfl
      rw [hcons, holds_insert, ih, List.mem_cons]
      apply or_congr_left
      omega

/-- **The set of the case variants of a character** holds the characters that fold alike. -/
theorem holds_variants (c d : Char) :
    (ofCodes (caseVariants c.toNat)).holds d = sameFold c d := by
  rw [Bool.eq_iff_iff, holds_ofCodes, mem_caseVariants_iff, sameFold, beq_iff_eq, eq_comm]

/-- The only character of a set. -/
theorem holds_of_char? {set : CharSet} {c : Char} (h : set.char? = some c) (d : Char)
    (hd : set.holds d = true) : d = c := by
  rw [char?] at h
  split at h
  · rename_i low high hranges
    split at h
    · rename_i heq
      cases h
      simp only [holds, hranges, Ranges.holds, List.any_cons, List.any_nil, Bool.or_false,
        Bool.and_eq_true, decide_eq_true_eq, ← heq] at hd
      have hcode : low = d.toNat := by omega
      rw [hcode, Char.ofNat_toNat]
    · cases h
  · cases h

end PathDoc.Regex.CharSet

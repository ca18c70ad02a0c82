import Mathlib
import PathDoc.Proofs.Double.Nearest

/-!
# Doubles of integers

The double of an integer stands for the integer rounded to 53 binary digits
(`represents_ofInt`), so doubles of integers compare as these (`compare_ofInt`). Shifting digits out
of an integer one at a time keeps of the lost ones only whether they make half a unit and whether
there is more of them; that is enough to round it (`roundedMantissa_shiftRight`). The digits that
are left are packed into a word and unpacked again without loss (`unpack_pack`), and floats with as
many digits compare as their values (`compare_of_represents`).
-/

set_option autoImplicit false

namespace PathDoc.Double

open Float.Model Float.Model.UnpackedFloat

/-! ## Shifting out digits -/

/-- A rest below a unit is none exactly if neither it makes half a unit nor anything is left of its
double. -/
theorem half_or_rest_iff {rest unit : Nat} (h : rest < unit) :
    (unit ≤ 2 * rest ∨ 2 * rest % unit ≠ 0) ↔ rest ≠ 0 := by
  constructor
  · rintro hrest rfl
    rcases hrest with hhalf | hleft
    · omega
    · exact hleft (Nat.zero_mod unit)
  · intro hne
    by_cases hhalf : unit ≤ 2 * rest
    · exact Or.inl hhalf
    · rw [Nat.mod_eq_of_lt (not_le.1 hhalf)]
      exact Or.inr (by omega)

/-- The two digits that are kept behind the last one tell whether the rest makes half a unit, and
whether there is more of it. -/
theorem shiftRight_exact (m k : Nat) :
    (ExtendedMantissa.mk m false false) >>> k =
      ⟨m / 2 ^ k, decide (2 ^ k ≤ 2 * (m % 2 ^ k)), decide (2 * (m % 2 ^ k) % 2 ^ k ≠ 0)⟩ := by
  -- induction on the number of digits dropped: one digit more, and the sticky digit collects the
  -- rest
  induction k with
  | zero => simp [HShiftRight.hShiftRight, Nat.repeat, Nat.mod_one]
  | succ k ih =>
      have hstep : (ExtendedMantissa.mk m false false) >>> (k + 1) =
          ((ExtendedMantissa.mk m false false) >>> k).shiftRightOne := rfl
      have hdiv : m / 2 ^ k / 2 = m / 2 ^ (k + 1) := by rw [Nat.div_div_eq_div_mul, Nat.pow_succ]
      have hmod : m % 2 ^ (k + 1) = m % 2 ^ k + 2 ^ k * (m / 2 ^ k % 2) := Nat.mod_pow_succ
      have hlt : m % 2 ^ k < 2 ^ k := Nat.mod_lt _ (Nat.two_pow_pos k)
      have hhalf : 2 ^ (k + 1) ≤ 2 * (m % 2 ^ (k + 1)) ↔ m / 2 ^ k % 2 ≠ 0 := by
        rw [hmod, Nat.pow_succ']
        rcases Nat.mod_two_eq_zero_or_one (m / 2 ^ k) with hbit | hbit <;> rw [hbit] <;> omega
      have hsticky : 2 * (m % 2 ^ (k + 1)) % 2 ^ (k + 1) = 2 * (m % 2 ^ k) := by
        rw [hmod, Nat.pow_succ', Nat.mul_mod_mul_left, Nat.add_mul_mod_self_left,
          Nat.mod_eq_of_lt hlt]
      have hrest := half_or_rest_iff hlt
      rw [hstep, ih, ExtendedMantissa.shiftRightOne, hdiv, hsticky]
      congr 1
      · rw [Bool.eq_iff_iff, bne_iff_ne, decide_eq_true_eq, hhalf]
      · rw [Bool.eq_iff_iff, Bool.or_eq_true, decide_eq_true_eq, decide_eq_true_eq,
          decide_eq_true_eq, hrest]
        omega

/-- **The digits that are left are the rounded quotient.** -/
theorem roundedMantissa_shiftRight (m k : Nat) :
    ((ExtendedMantissa.mk m false false) >>> k).roundedMantissa = halfEven m k := by
  have hlt : m % 2 ^ k < 2 ^ k := Nat.mod_lt _ (Nat.two_pow_pos k)
  rw [shiftRight_exact, halfEven]
  -- less than a half, a half, or more
  split
  · rename_i hless
    have hround : ¬ 2 ^ k ≤ 2 * (m % 2 ^ k) := not_le.2 hless
    rw [decide_eq_false hround, Nat.mod_eq_of_lt hless]
    by_cases hrest : 2 * (m % 2 ^ k) = 0
    · simp [hrest, ExtendedMantissa.roundedMantissa, ExtendedMantissa.accuracy,
        Accuracy.roundToNearestEven]
    · simp [hrest, ExtendedMantissa.roundedMantissa, ExtendedMantissa.accuracy,
        Accuracy.roundToNearestEven]
  · split
    · rename_i hhalf
      rw [hhalf, Nat.mod_self]
      simp [ExtendedMantissa.roundedMantissa, ExtendedMantissa.accuracy,
        Accuracy.roundToNearestEven]
    · rename_i hless hhalf
      have hrest : 2 * (m % 2 ^ k) % 2 ^ k ≠ 0 := by
        rw [Nat.mod_eq_sub_mod (not_lt.1 hless), Nat.mod_eq_of_lt (by omega)]
        omega
      rw [decide_eq_true (not_lt.1 hless), decide_eq_true hrest]
      rfl

/-! ## Rounding -/

/-- A number of at least 53 binary digits is shifted until 53 of them are left. -/
theorem shiftToTargetExponent_exact {m : Nat} {e : Int} (hm : 52 ≤ m.log2) (he : -1000 ≤ e) :
    shiftToTargetExponent Format.binary64 m e .exact =
      ((ExtendedMantissa.mk m false false) >>> excess m, e + excess m) := by
  have hshift : (Format.targetExponent Format.binary64 (totalExponent m e) - e).toNat =
      excess m := by
    simp only [Format.targetExponent, totalExponent, Format.mantissaBits, Format.minExponent,
      excess]
    norm_num
    omega
  unfold shiftToTargetExponent shiftToExponent
  dsimp only
  rw [hshift]
  rfl

theorem log2_of_full {m : Nat} (hlow : 2 ^ 52 ≤ m) (hhigh : m < 2 ^ 53) : m.log2 = 52 :=
  (Nat.log2_eq_iff (Nat.two_pow_pos 52 |>.trans_le hlow).ne').2 ⟨hlow, hhigh⟩

/-- The rounded quotient has 53 binary digits, or it is the next power of two. -/
theorem halfEven_excess_mem {m : Nat} (hm : 52 ≤ m.log2) :
    2 ^ 52 ≤ halfEven m (excess m) ∧ halfEven m (excess m) ≤ 2 ^ 53 := by
  have hne : m ≠ 0 := by
    rintro rfl
    simp at hm
  have hlog : m.log2 = 52 + excess m := by
    unfold excess
    omega
  constructor
  · rw [← halfEven_mul (2 ^ 52) (excess m), ← Nat.pow_add, ← hlog]
    exact halfEven_mono _ (Nat.log2_self_le hne)
  · rw [← halfEven_mul (2 ^ 53) (excess m), ← Nat.pow_add]
    refine halfEven_mono _ (Nat.lt_log2_self.le.trans (Nat.pow_le_pow_right (by decide) ?_))
    omega

/-- Rounding that does not carry into a new digit. -/
theorem roundWithAccuracy_of_lt {sign : Sign} {m : Nat} {e : Int} (hm : 52 ≤ m.log2)
    (he : -1000 ≤ e) (hlt : halfEven m (excess m) < 2 ^ 53) :
    roundWithAccuracy Format.binary64 sign m e .exact =
      .finite sign (halfEven m (excess m)) (e + excess m)
        (Nat.two_pow_pos 52 |>.trans_le (halfEven_excess_mem hm).1) := by
  have hlow := (halfEven_excess_mem hm).1
  have hlog := log2_of_full hlow hlt
  have hzero : excess (halfEven m (excess m)) = 0 := by
    rw [excess, hlog]
  rw [roundWithAccuracy, shiftToTargetExponent_exact hm he]
  dsimp only
  rw [roundedMantissa_shiftRight, shiftToTargetExponent_exact hlog.ge (by omega), hzero,
    shiftRight_exact]
  simp [(Nat.two_pow_pos 52 |>.trans_le hlow).ne']

/-- Rounding that carries into a new digit. -/
theorem roundWithAccuracy_of_eq {sign : Sign} {m : Nat} {e : Int} (hm : 52 ≤ m.log2)
    (he : -1000 ≤ e) (heq : halfEven m (excess m) = 2 ^ 53) :
    roundWithAccuracy Format.binary64 sign m e .exact =
      .finite sign (2 ^ 52) (e + excess m + 1) (Nat.two_pow_pos 52) := by
  have hlog : (2 ^ 53 : Nat).log2 = 53 := Nat.log2_two_pow
  have hone : excess (2 ^ 53) = 1 := by
    rw [excess, hlog]
  rw [roundWithAccuracy, shiftToTargetExponent_exact hm he]
  dsimp only
  rw [roundedMantissa_shiftRight, heq,
    shiftToTargetExponent_exact (by rw [hlog]; decide) (by omega), hone, shiftRight_exact]
  rfl

/-! ## Packing -/

/-- The exponent of a float of 53 binary digits as it is packed. -/
theorem biased_mem {e : Int} (he : -1000 ≤ e) (he' : e ≤ 900) :
    0 < (e + 1075).toNat ∧ (e + 1075).toNat < 2047 ∧ ((e + 1075).toNat : Int) = e + 1075 := by
  omega

/-- The leading digit of 53 is the same in all of them, so it is not packed. -/
theorem toNat_leading {m : Nat} (hlow : 2 ^ 52 ≤ m) (hhigh : m < 2 ^ 53) :
    (1#1 ++ BitVec.ofNat 52 m).toNat = m := by
  have hmod : m % 2 ^ 52 = m - 2 ^ 52 := by
    rw [Nat.mod_eq_sub_mod hlow, Nat.mod_eq_of_lt (by omega)]
  have hjoin := Nat.two_pow_add_eq_or_of_lt (show m - 2 ^ 52 < 2 ^ 52 by omega) 1
  rw [BitVec.toNat_append, BitVec.toNat_ofNat, BitVec.toNat_ofNat, hmod, Nat.shiftLeft_eq,
    show 1 % 2 ^ 1 * 2 ^ 52 = 2 ^ 52 * 1 from rfl, ← hjoin]
  omega

/-- **A float of 53 binary digits is packed without loss.** -/
theorem unpack_pack {sign : Sign} {m : Nat} {e : Int} (hm : 0 < m) (hlow : 2 ^ 52 ≤ m)
    (hhigh : m < 2 ^ 53) (he : -1000 ≤ e) (he' : e ≤ 900) :
    (Float.Model.pack (.finite sign m e hm)).unpack = .finite sign m e hm := by
  have hlog := log2_of_full hlow hhigh
  obtain ⟨hpos, hlt, hcast⟩ := biased_mem he he'
  -- the exponent with its bias lies strictly between the two reserved values
  have hbias : e + (Format.exponentBias Format.binary64 : Int) +
      (Format.mantissaBitsWithoutImplicit Format.binary64 : Int) = e + 1075 := by
    norm_num [Format.exponentBias]
    omega
  have hbits : UnpackedFloat.pack Format.binary64 (.finite sign m e hm) =
      packComponents Format.binary64 sign (BitVec.ofNat 11 (e + 1075).toNat)
        (BitVec.ofNat 52 m) := by
    rw [UnpackedFloat.pack]
    dsimp only
    rw [hbias, if_neg (by norm_num; omega), if_pos (by rw [hlog]; rfl)]
  rw [Float.Model.unpack, Float.Model.pack]
  dsimp only
  rw [hbits, UnpackedFloat.unpack]
  simp only [unpackExponent_packComponents, unpackMantissa_packComponents,
    unpackSign_packComponents, Sign.ofBitVec_toBitVec]
  have hexp : (BitVec.ofNat 11 (e + 1075).toNat).toNat = (e + 1075).toNat := by
    rw [BitVec.toNat_ofNat, Nat.mod_eq_of_lt (by omega)]
  -- neither the pattern of the infinities nor that of the subnormal numbers
  have hones : BitVec.ofNat 11 (e + 1075).toNat ≠ -1#11 := by
    intro h
    rw [h] at hexp
    norm_num at hexp
    omega
  have hzero : BitVec.ofNat 11 (e + 1075).toNat ≠ 0#11 := by
    intro h
    rw [h] at hexp
    norm_num at hexp
    omega
  rw [if_neg hones, if_neg hzero, UnpackedFloat.finite.injEq]
  refine ⟨rfl, toNat_leading hlow hhigh, ?_⟩
  rw [hexp, hcast]
  norm_num [Format.exponentBias]

/-! ## Values -/

/-- A float that is zero, or has 53 binary digits, and stands for an integer. -/
inductive Represents : UnpackedFloat → Int → Prop
  | zero (sign : Sign) : Represents (.zero sign) 0
  | finite (sign : Sign) {m : Nat} {e n : Int} (hm : 0 < m) (hlow : 2 ^ 52 ≤ m)
      (hhigh : m < 2 ^ 53) (he : -1000 ≤ e) (he' : e ≤ 900) (value : (m : ℚ) * 2 ^ e = n) :
      Represents (.finite sign m e hm) (sign.apply n)

/-- A float with a greater exponent is greater, since both have the same number of digits. -/
theorem lt_of_exponent_lt {m m' : Nat} {e e' n n' : Int} (hhigh : m < 2 ^ 53)
    (hlow : 2 ^ 52 ≤ m') (hm : (m : ℚ) * 2 ^ e = n) (hm' : (m' : ℚ) * 2 ^ e' = n')
    (h : e < e') : n < n' := by
  have hpos : (0 : ℚ) < 2 ^ e := by positivity
  have hup : (m : ℚ) < 2 ^ 53 := by exact_mod_cast hhigh
  have hdown : (2 : ℚ) ^ 52 ≤ m' := by exact_mod_cast hlow
  have hstep : (2 : ℚ) ^ (e + 1) ≤ 2 ^ e' := zpow_le_zpow_right₀ (by norm_num) (by omega)
  have hlt : (n : ℚ) < n' := by
    calc (n : ℚ) = m * 2 ^ e := hm.symm
      _ < 2 ^ 53 * 2 ^ e := mul_lt_mul_of_pos_right hup hpos
      _ = 2 ^ 52 * 2 ^ (e + 1) := by rw [zpow_add_one₀ (by norm_num)]; ring
      _ ≤ m' * 2 ^ e' := mul_le_mul hdown hstep (by positivity) (by positivity)
      _ = n' := hm'
  exact_mod_cast hlt

/-- **Floats of the same sign compare as their exponents, and then as their digits.** -/
theorem compare_exponents {m m' : Nat} {e e' n n' : Int} (hlow : 2 ^ 52 ≤ m)
    (hhigh : m < 2 ^ 53) (hlow' : 2 ^ 52 ≤ m') (hhigh' : m' < 2 ^ 53)
    (hm : (m : ℚ) * 2 ^ e = n) (hm' : (m' : ℚ) * 2 ^ e' = n') :
    (compare e e').then (compare m m') = compare n n' := by
  -- both digit strings have the same length, so the larger exponent wins
  rcases lt_trichotomy e e' with hlt | rfl | hgt
  · rw [compare_lt_iff_lt.2 hlt, compare_lt_iff_lt.2 (lt_of_exponent_lt hhigh hlow' hm hm' hlt)]
    rfl
  · have hpos : (0 : ℚ) < 2 ^ e := by positivity
    rw [compare_eq_iff_eq.2 rfl]
    rcases lt_trichotomy m m' with hlt | rfl | hgt
    · have hn : (n : ℚ) < n' := by
        rw [← hm, ← hm']
        exact mul_lt_mul_of_pos_right (by exact_mod_cast hlt) hpos
      rw [compare_lt_iff_lt.2 hlt, compare_lt_iff_lt.2 (by exact_mod_cast hn)]
      rfl
    · have hn : (n : ℚ) = n' := hm.symm.trans hm'
      rw [compare_eq_iff_eq.2 rfl, compare_eq_iff_eq.2 (by exact_mod_cast hn)]
      rfl
    · have hn : (n' : ℚ) < n := by
        rw [← hm, ← hm']
        exact mul_lt_mul_of_pos_right (by exact_mod_cast hgt) hpos
      rw [compare_gt_iff_gt.2 hgt, compare_gt_iff_gt.2 (by exact_mod_cast hn)]
      rfl
  · rw [compare_gt_iff_gt.2 hgt, compare_gt_iff_gt.2 (lt_of_exponent_lt hhigh' hlow hm' hm hgt)]
    rfl

theorem value_pos {m : Nat} {e n : Int} (hm : 0 < m) (h : (m : ℚ) * 2 ^ e = n) : 0 < n := by
  have hpos : (0 : ℚ) < n := by
    rw [← h]
    have hm' : (0 : ℚ) < m := by exact_mod_cast hm
    positivity
  exact_mod_cast hpos

/-- Signs in front of both integers turn their order round. -/
theorem compare_neg_neg (a b : Int) : compare (-a) (-b) = (compare a b).swap := by
  rcases lt_trichotomy a b with hlt | rfl | hgt
  · rw [compare_lt_iff_lt.2 hlt, compare_gt_iff_gt.2 (neg_lt_neg hlt)]
    rfl
  · rw [compare_eq_iff_eq.2 rfl, compare_eq_iff_eq.2 rfl]
    rfl
  · rw [compare_gt_iff_gt.2 hgt, compare_lt_iff_lt.2 (neg_lt_neg hgt)]
    rfl

/-- **Floats that stand for integers compare as these integers.** -/
theorem compare_of_represents {f g : UnpackedFloat} {a b : Int} (hf : Represents f a)
    (hg : Represents g b) : f.compare g = some (compare a b) := by
  -- by the signs: only for equal ones the exponents and the digits matter
  cases hf with
  | zero s =>
      cases hg with
      | zero t => rfl
      | finite t hm _ _ _ _ hvalue =>
          have hpos := value_pos hm hvalue
          cases t with
          | positive => exact congrArg some (compare_lt_iff_lt.2 hpos).symm
          | negative => exact congrArg some (compare_gt_iff_gt.2 (neg_neg_of_pos hpos)).symm
  | finite s hm hlow hhigh _ _ hvalue =>
      have hpos := value_pos hm hvalue
      cases hg with
      | zero t =>
          cases s with
          | positive => exact congrArg some (compare_gt_iff_gt.2 hpos).symm
          | negative => exact congrArg some (compare_lt_iff_lt.2 (neg_neg_of_pos hpos)).symm
      | finite t hm' hlow' hhigh' _ _ hvalue' =>
          have hpos' := value_pos hm' hvalue'
          have hcompare := compare_exponents hlow hhigh hlow' hhigh' hvalue hvalue'
          cases s with
          | positive =>
              cases t with
              | positive => exact congrArg some hcompare
              | negative =>
                  exact congrArg some (compare_gt_iff_gt.2 ((neg_neg_of_pos hpos').trans hpos)).symm
          | negative =>
              cases t with
              | positive =>
                  exact congrArg some (compare_lt_iff_lt.2 ((neg_neg_of_pos hpos).trans hpos')).symm
              -- below zero the greater magnitude is the smaller number
              | negative =>
                  refine congrArg some ((congrArg Ordering.swap hcompare).trans ?_)
                  exact (compare_neg_neg _ _).symm

/-- **Rounding and packing gives the rounded number.** -/
theorem represents_rounded {m : Nat} {e n : Int} (hm : 52 ≤ m.log2) (he : -1000 ≤ e)
    (he' : e + excess m ≤ 800) (hvalue : (halfEven m (excess m) : ℚ) * 2 ^ (e + excess m) = n) :
    Represents (Float.Model.pack
      (roundWithAccuracy Format.binary64 .positive m e .exact)).unpack n := by
  obtain ⟨hlow, hhigh⟩ := halfEven_excess_mem hm
  rcases hhigh.lt_or_eq with hlt | heq
  · rw [roundWithAccuracy_of_lt hm he hlt, unpack_pack _ hlow hlt (by omega) (by omega)]
    exact .finite .positive _ hlow hlt (by omega) (by omega) hvalue
  · rw [roundWithAccuracy_of_eq hm he heq,
      unpack_pack _ le_rfl (by norm_num) (by omega) (by omega)]
    refine .finite .positive _ le_rfl (by norm_num) (by omega) (by omega) ?_
    rw [heq] at hvalue
    rw [← hvalue, zpow_add_one₀ (by norm_num)]
    push_cast
    ring

/-! ## Conversion -/

theorem log2_mul_pow {n : Nat} (hn : n ≠ 0) (k : Nat) : (n * 2 ^ k).log2 = n.log2 + k := by
  have hne : n * 2 ^ k ≠ 0 := Nat.mul_ne_zero hn (Nat.two_pow_pos k).ne'
  rw [Nat.log2_eq_iff hne, Nat.pow_add, show n.log2 + k + 1 = n.log2 + 1 + k by omega, Nat.pow_add]
  exact ⟨Nat.mul_le_mul_right _ (Nat.log2_self_le hn),
    Nat.mul_lt_mul_of_pos_right Nat.lt_log2_self (Nat.two_pow_pos k)⟩

/-- Numbers of more than 53 binary digits are written with more digits and scaled back. -/
theorem ofNat_of_le {n : Nat} (h : 2 ^ 53 ≤ n) :
    Float.ofNat n = .ofModel (Float.Model.pack
      (roundWithAccuracy Format.binary64 .positive (n * 2 ^ 53) (-53) .exact)) := by
  have hlarge : ¬ (n < 2 ^ 53 ∧ 0 ≤ 22) := by omega
  have hne : n ≠ 0 := by omega
  -- the exponent zero is in range, so the decimal is scaled and rounded once
  have hup : ¬ ((0 : Int) > 2 ^ Format.binary64.exponentBits) := by norm_num
  have hdown : ¬ ((0 : Int) < -((2 ^ Format.binary64.exponentBits : Int) + n.log2)) := by
    have hpow : (0 : Int) ≤ 2 ^ Format.binary64.exponentBits := by positivity
    omega
  have hscale : UnpackedFloat.ofScientific Format.binary64 n 0 =
      roundWithAccuracy Format.binary64 .positive (n <<< 53 * 10 ^ 0) (-53) .exact := by
    rw [UnpackedFloat.ofScientific, dif_neg hne, if_neg hup, if_neg hdown, if_pos le_rfl,
      UnpackedFloat.mul]
    rfl
  unfold Float.ofNat
  simp only [OfScientific.ofScientific]
  unfold Float.ofScientific
  rw [dif_neg hlarge]
  dsimp only
  change Float.ofModel (Float.Model.pack (UnpackedFloat.ofScientific Format.binary64 n 0)) = _
  rw [hscale, Nat.pow_zero, Nat.mul_one, Nat.shiftLeft_eq]

/-- Smaller numbers are converted from words and multiplied by one. -/
theorem ofNat_of_lt {n : Nat} (h : n < 2 ^ 53) :
    Float.ofNat n = n.toUInt64.toFloat * Float.ofBits 0x3FF0000000000000 := by
  have hsmall : n < 2 ^ 53 ∧ 0 ≤ 22 := ⟨h, by decide⟩
  unfold Float.ofNat
  simp only [OfScientific.ofScientific]
  unfold Float.ofScientific
  rw [dif_pos hsmall]
  rfl

/-- **Numbers of more than 53 binary digits are rounded.** -/
theorem represents_of_le {n : Nat} (hlow : 2 ^ 53 ≤ n) (hhigh : n < 2 ^ 64) :
    Represents (Float.ofNat n).toModel.unpack (nearestNat n) := by
  have hne : n ≠ 0 := by omega
  have hlog : 53 ≤ n.log2 := (Nat.le_log2 hne).2 hlow
  have hlog' : n.log2 < 64 := (Nat.log2_lt hne).2 hhigh
  have hscaled := log2_mul_pow hne 53
  have hexcess : excess (n * 2 ^ 53) = excess n + 53 := by
    unfold excess
    omega
  rw [ofNat_of_le hlow]
  refine represents_rounded (by omega) (by norm_num) ?_ ?_
  · rw [hexcess]
    unfold excess
    omega
  · -- the zeros make no difference to the rounding
    have hsum : (-53 : Int) + (excess n + 53 : Nat) = excess n := by
      push_cast
      ring
    rw [hexcess, halfEven_shift, hsum, zpow_natCast, nearestNat]
    push_cast
    rfl

/-- Before a number from a word is rounded, it is filled up with zeros to 53 binary digits. -/
theorem ofUInt64_eq_round {n zeros : Nat} (hpos : 0 < n) (h : n < 2 ^ 53)
    (hzeros : n.log2 + zeros = 52) :
    UnpackedFloat.ofUInt64 Format.binary64 n.toUInt64 =
      roundWithAccuracy Format.binary64 .positive (n * 2 ^ zeros) (-zeros) .exact := by
  have hword : n.toUInt64.toNat = n := by
    rw [Nat.toUInt64_eq, UInt64.toNat_ofNat', Nat.mod_eq_of_lt (by omega)]
  have hsign : compare (n : Int) 0 = .gt := compare_gt_iff_gt.2 (by omega)
  have hshift : ((0 : Int) - Format.targetExponent Format.binary64 (totalExponent n 0)).toNat =
      zeros := by
    simp only [Format.targetExponent, totalExponent, Format.mantissaBits, Format.minExponent]
    norm_num
    omega
  unfold UnpackedFloat.ofUInt64 UnpackedFloat.ofNat UnpackedFloat.ofInt UnpackedFloat.normalize
  rw [hword, hsign]
  dsimp only
  rw [Int.toNat_natCast, UnpackedFloat.round]
  unfold decreaseExponent
  dsimp only
  rw [hshift, Nat.shiftLeft_eq, Int.zero_sub]

/-- A number from a word keeps its value; it gets 53 binary digits. -/
theorem toFloat_of_lt {n : Nat} (hpos : 0 < n) (h : n < 2 ^ 53) :
    ∃ (m : Nat) (e : Int) (hm : 0 < m),
      n.toUInt64.toFloat.toModel.unpack = .finite .positive m e hm ∧
        2 ^ 52 ≤ m ∧ m < 2 ^ 53 ∧ -100 ≤ e ∧ e ≤ 0 ∧ (m : ℚ) * 2 ^ e = n := by
  obtain ⟨zeros, hzeros⟩ : ∃ zeros, n.log2 + zeros = 52 := by
    have hlog := (Nat.log2_lt hpos.ne').2 h
    exact ⟨52 - n.log2, by omega⟩
  have hfull : (n * 2 ^ zeros).log2 = 52 := by rw [log2_mul_pow hpos.ne', hzeros]
  have hexcess : excess (n * 2 ^ zeros) = 0 := by rw [excess, hfull]
  have hm : 0 < n * 2 ^ zeros := Nat.mul_pos hpos (Nat.two_pow_pos zeros)
  obtain ⟨hlow, hhigh⟩ := (Nat.log2_eq_iff hm.ne').1 hfull
  -- there is nothing to round off
  have hkept : roundWithAccuracy Format.binary64 .positive (n * 2 ^ zeros) (-zeros) .exact =
      .finite .positive (n * 2 ^ zeros) (-zeros) hm := by
    rw [roundWithAccuracy_of_lt hfull.ge (by omega) (by rwa [hexcess, halfEven_zero])]
    simp only [hexcess, halfEven_zero, Nat.cast_zero, add_zero]
  refine ⟨n * 2 ^ zeros, -zeros, hm, ?_, hlow, hhigh, by omega, by omega, ?_⟩
  · change (Float.Model.pack (UnpackedFloat.ofUInt64 Format.binary64 n.toUInt64)).unpack = _
    rw [ofUInt64_eq_round hpos h hzeros, hkept, unpack_pack hm hlow hhigh (by omega) (by omega)]
  · push_cast
    rw [zpow_neg, zpow_natCast, mul_assoc, mul_inv_cancel₀ (by positivity), mul_one]

/-- **Numbers of at most 53 binary digits are kept.** -/
theorem represents_of_lt {n : Nat} (h : n < 2 ^ 53) :
    Represents (Float.ofNat n).toModel.unpack n := by
  rcases Nat.eq_zero_or_pos n with rfl | hpos
  · have hzero : (Float.ofNat 0).toModel.unpack = .zero .positive := by
      rw [ofNat_of_lt h]
      rfl
    rw [hzero]
    exact .zero .positive
  · obtain ⟨m, e, hm, hunpack, hlow, hhigh, he, he', hvalue⟩ := toFloat_of_lt hpos h
    -- the short way multiplies by one, which shifts the digits up and rounds them back
    have hone : (Float.ofBits 0x3FF0000000000000).toModel.unpack =
        .finite .positive (2 ^ 52) (-52) (Nat.two_pow_pos 52) := rfl
    have hlog : (m * 2 ^ 52).log2 = 104 := by
      rw [log2_mul_pow hm.ne', log2_of_full hlow hhigh]
    have hexcess : excess (m * 2 ^ 52) = 52 := by rw [excess, hlog]
    have hmodel : (Float.ofNat n).toModel = Float.Model.pack
        (roundWithAccuracy Format.binary64 .positive (m * 2 ^ 52) (e + -52) .exact) := by
      rw [ofNat_of_lt h]
      change Float.Model.pack (UnpackedFloat.mul Format.binary64 _ _) = _
      rw [hunpack, hone]
      rfl
    rw [hmodel]
    refine represents_rounded (by omega) (by omega) (by omega) ?_
    rw [hexcess, halfEven_mul, show e + -52 + (52 : Nat) = e by omega, hvalue]
    rfl

theorem represents_ofNat {n : Nat} (h : n < 2 ^ 64) :
    Represents (Float.ofNat n).toModel.unpack (nearestNat n) := by
  by_cases hlt : n < 2 ^ 53
  · rw [nearestNat_of_lt hlt]
    exact represents_of_lt hlt
  · exact represents_of_le (not_lt.1 hlt) h

/-- A float turned round stands for the integer with the other sign. -/
theorem represents_neg {f : UnpackedFloat} {n : Int} (h : Represents f n) :
    Represents (Float.Model.pack f.neg).unpack (-n) := by
  cases h with
  | zero sign =>
      have hzero : (Float.Model.pack (.zero (-sign))).unpack = .zero (-sign) := by
        cases sign <;> rfl
      rw [UnpackedFloat.neg, hzero]
      exact .zero (-sign)
  | finite sign hm hlow hhigh he he' hvalue =>
      rw [UnpackedFloat.neg, unpack_pack hm hlow hhigh he he']
      have hrest := Represents.finite (-sign) hm hlow hhigh he he' hvalue
      cases sign with
      | positive => exact hrest
      | negative => rwa [Sign.apply, neg_neg]

/-- **The double of an integer stands for the integer rounded to 53 binary digits.** -/
theorem represents_ofInt {a : Int} (h : a.natAbs < 2 ^ 64) :
    Represents (Float.ofInt a).toModel.unpack (nearest a) := by
  cases a with
  | ofNat n => exact represents_ofNat h
  | negSucc n => exact represents_neg (represents_ofNat h)

/-! ## Order -/

/-- **Doubles of integers compare as the integers rounded to 53 binary digits.** -/
theorem compare_ofInt {a b : Int} (ha : a.natAbs < 2 ^ 64) (hb : b.natAbs < 2 ^ 64) :
    (Float.ofInt a).toModel.unpack.compare (Float.ofInt b).toModel.unpack =
      some (compare (nearest a) (nearest b)) :=
  compare_of_represents (represents_ofInt ha) (represents_ofInt hb)

theorem ofInt_lt_iff {a b : Int} (ha : a.natAbs < 2 ^ 64) (hb : b.natAbs < 2 ^ 64) :
    Float.ofInt a < Float.ofInt b ↔ nearest a < nearest b := by
  change decide ((Float.ofInt a).toModel.unpack.lt (Float.ofInt b).toModel.unpack = true) = true ↔ _
  rw [decide_eq_true_eq, UnpackedFloat.lt, compare_ofInt ha hb, beq_iff_eq, Option.some.injEq,
    compare_lt_iff_lt]

theorem ofInt_beq {a b : Int} (ha : a.natAbs < 2 ^ 64) (hb : b.natAbs < 2 ^ 64) :
    (Float.ofInt a == Float.ofInt b) = decide (nearest a = nearest b) := by
  change ((Float.ofInt a).toModel.unpack.compare (Float.ofInt b).toModel.unpack == some .eq) = _
  rw [compare_ofInt ha hb, Bool.eq_iff_iff, beq_iff_eq, Option.some.injEq, compare_eq_iff_eq,
    decide_eq_true_eq]

end PathDoc.Double

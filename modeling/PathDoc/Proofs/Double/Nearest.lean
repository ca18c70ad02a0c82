import Mathlib.Data.Nat.Log
import Mathlib.Order.Compare
import Mathlib.Tactic.Ring

/-!
# Integers rounded to the precision of doubles

A double keeps 53 binary digits. An integer with more of them is rounded to the nearest one that has
only zeros behind the first 53, and a half goes to the even neighbour (`nearest`). Integers up to
2 to the power 53 are kept (`nearest_eq_self`), and the order is kept, though not strictly
(`nearest_mono`): it is lost exactly for integers that are rounded to the same one
(`compare_nearest`).
-/

set_option autoImplicit false

namespace PathDoc.Double

/-- A number divided by a power of two and rounded to the nearest; a half goes to the even one. -/
def halfEven (n digits : Nat) : Nat :=
  if 2 * (n % 2 ^ digits) < 2 ^ digits then n / 2 ^ digits
  else if 2 * (n % 2 ^ digits) = 2 ^ digits then n / 2 ^ digits + n / 2 ^ digits % 2
  else n / 2 ^ digits + 1

/-- How many binary digits a number has beyond the first 53. -/
def excess (n : Nat) : Nat :=
  n.log2 - 52

/-- A natural number rounded to 53 binary digits. -/
def nearestNat (n : Nat) : Nat :=
  halfEven n (excess n) * 2 ^ excess n

/-- An integer rounded to 53 binary digits. -/
def nearest : Int → Int
  | .ofNat n => nearestNat n
  | .negSucc n => -(nearestNat (n + 1) : Int)

/-! ## One place -/

theorem halfEven_zero (n : Nat) : halfEven n 0 = n := by
  simp [halfEven, Nat.mod_one]

/-- Zeros at the end do not matter. -/
theorem halfEven_shift (n digits zeros : Nat) :
    halfEven (n * 2 ^ zeros) (digits + zeros) = halfEven n digits := by
  have hpos : 0 < 2 ^ zeros := Nat.two_pow_pos zeros
  have hdiv : n * 2 ^ zeros / 2 ^ (digits + zeros) = n / 2 ^ digits := by
    rw [Nat.pow_add, Nat.mul_div_mul_right _ _ hpos]
  have hmod : 2 * (n * 2 ^ zeros % 2 ^ (digits + zeros)) = 2 * (n % 2 ^ digits) * 2 ^ zeros := by
    rw [Nat.pow_add, Nat.mul_mod_mul_right, Nat.mul_assoc]
  unfold halfEven
  rw [hdiv, hmod, Nat.pow_add]
  simp only [Nat.mul_lt_mul_right hpos, Nat.mul_left_inj hpos.ne']

/-- A multiple of the place is kept. -/
theorem halfEven_mul (n digits : Nat) : halfEven (n * 2 ^ digits) digits = n := by
  have h := halfEven_shift n 0 digits
  rwa [Nat.zero_add, halfEven_zero] at h

theorem halfEven_mono {m n : Nat} (digits : Nat) (h : m ≤ n) :
    halfEven m digits ≤ halfEven n digits := by
  have hdiv : m / 2 ^ digits ≤ n / 2 ^ digits := Nat.div_le_div_right h
  have hm := Nat.div_add_mod m (2 ^ digits)
  have hn := Nat.div_add_mod n (2 ^ digits)
  unfold halfEven
  rcases hdiv.lt_or_eq with hlt | heq
  · -- the next multiple is reached on the way
    split <;> split <;> (try split) <;> (try split) <;> omega
  · -- between the same multiples the rests decide
    rw [heq] at hm ⊢
    split <;> split <;> (try split) <;> (try split) <;> omega

/-! ## Natural numbers -/

theorem nearestNat_of_lt {n : Nat} (h : n < 2 ^ 53) : nearestNat n = n := by
  have hexcess : excess n = 0 := by
    unfold excess
    rcases Nat.eq_zero_or_pos n with rfl | hn
    · rfl
    · have hlog := (Nat.log2_lt hn.ne').2 h
      omega
  rw [nearestNat, hexcess, halfEven_zero, Nat.pow_zero, Nat.mul_one]

/-- Rounding does not go beyond a power of two. -/
theorem nearestNat_le_pow {n digits : Nat} (hdigits : excess n ≤ digits) (h : n ≤ 2 ^ digits) :
    nearestNat n ≤ 2 ^ digits := by
  obtain ⟨k, rfl⟩ := Nat.exists_eq_add_of_le' hdigits
  rw [Nat.pow_add] at h ⊢
  refine Nat.mul_le_mul_right _ ?_
  calc halfEven n (excess n) ≤ halfEven (2 ^ k * 2 ^ excess n) (excess n) := halfEven_mono _ h
    _ = 2 ^ k := halfEven_mul _ _

theorem pow_le_nearestNat {n digits : Nat} (hdigits : excess n ≤ digits) (h : 2 ^ digits ≤ n) :
    2 ^ digits ≤ nearestNat n := by
  obtain ⟨k, rfl⟩ := Nat.exists_eq_add_of_le' hdigits
  rw [Nat.pow_add] at h ⊢
  refine Nat.mul_le_mul_right _ ?_
  calc 2 ^ k = halfEven (2 ^ k * 2 ^ excess n) (excess n) := (halfEven_mul _ _).symm
    _ ≤ halfEven n (excess n) := halfEven_mono _ h

theorem nearestNat_mono {m n : Nat} (h : m ≤ n) : nearestNat m ≤ nearestNat n := by
  rcases Nat.eq_zero_or_pos m with rfl | hm
  · simp [nearestNat, halfEven, excess]
  · have hn : n ≠ 0 := (hm.trans_le h).ne'
    have hlog : m.log2 ≤ n.log2 := by
      rw [Nat.log2_eq_log_two, Nat.log2_eq_log_two]
      exact Nat.log_mono_right h
    by_cases hexcess : excess m = excess n
    · unfold nearestNat
      rw [hexcess]
      exact Nat.mul_le_mul_right _ (halfEven_mono _ h)
    · -- a power of two lies between the two numbers
      have hlt : m.log2 + 1 ≤ n.log2 := by
        unfold excess at hexcess
        omega
      calc nearestNat m ≤ 2 ^ (m.log2 + 1) :=
            nearestNat_le_pow (by unfold excess; omega) Nat.lt_log2_self.le
        _ ≤ 2 ^ n.log2 := Nat.pow_le_pow_right (by decide) hlt
        _ ≤ nearestNat n := pow_le_nearestNat (by unfold excess; omega) (Nat.log2_self_le hn)

/-! ## Integers -/

/-- **Rounding keeps the order.** -/
theorem nearest_mono {a b : Int} (h : a ≤ b) : nearest a ≤ nearest b := by
  cases a with
  | ofNat m =>
      cases b with
      | ofNat n => exact Int.ofNat_le.2 (nearestNat_mono (Int.ofNat_le.1 h))
      | negSucc n =>
          have hneg := h.trans_lt (Int.negSucc_lt_zero n)
          exact absurd (Int.natCast_nonneg m) (not_le.2 hneg)
  | negSucc m =>
      cases b with
      | ofNat n =>
          unfold nearest
          dsimp only
          omega
      | negSucc n =>
          have hnat : nearestNat (n + 1) ≤ nearestNat (m + 1) := nearestNat_mono (by omega)
          unfold nearest
          dsimp only
          omega

/-- **Integers of at most 53 binary digits are kept.** -/
theorem nearest_eq_self {a : Int} (h : a.natAbs < 2 ^ 53) : nearest a = a := by
  cases a with
  | ofNat n => exact congrArg Int.ofNat (nearestNat_of_lt h)
  | negSucc n =>
      have hlt : n + 1 < 2 ^ 53 := h
      rw [nearest, nearestNat_of_lt hlt]
      rfl

/-- **Integers that are not rounded to the same one compare as before.** -/
theorem compare_nearest {a b : Int} (h : a = b ∨ nearest a ≠ nearest b) :
    compare (nearest a) (nearest b) = compare a b := by
  rcases h with rfl | hne
  · rw [compare_eq_iff_eq.2 rfl, compare_eq_iff_eq.2 rfl]
  · rcases lt_trichotomy a b with hlt | rfl | hgt
    · rw [compare_lt_iff_lt.2 hlt, compare_lt_iff_lt.2 (lt_of_le_of_ne (nearest_mono hlt.le) hne)]
    · exact absurd rfl hne
    · rw [compare_gt_iff_gt.2 hgt,
        compare_gt_iff_gt.2 (lt_of_le_of_ne (nearest_mono hgt.le) hne.symm)]

end PathDoc.Double

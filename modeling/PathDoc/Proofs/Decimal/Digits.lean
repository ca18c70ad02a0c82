import Mathlib.Algebra.Group.Nat.Defs
import Mathlib.Data.List.TakeWhile
import PathDoc.Decimal.Layout

/-!
# Digits of numbers

The text of a number other than zero starts with another digit than zero (`head?_natText_ne_zero`),
which dropping zeros from its end keeps (`exists_dropTrailingZeros_cons`). The shortest decimal of a
number other than zero is not zero: the first grid is one on which the number lies above zero, and
so are all the finer ones (`shortest_digits_ne_zero`).
-/

set_option autoImplicit false

namespace PathDoc.Text

/-- A front of characters of one kind is taken whole where no more of them follow. -/
theorem span_append {p : Char → Bool} {front rest : List Char} (hf : ∀ c ∈ front, p c = true)
    (hr : ∀ c ∈ rest.head?, p c = false) :
    (front ++ rest).takeWhile p = front ∧ (front ++ rest).dropWhile p = rest := by
  rw [List.takeWhile_append_of_pos hf, List.dropWhile_append_of_pos hf]
  cases rest with
  | nil => exact ⟨List.append_nil front, rfl⟩
  | cons c rest =>
      have hc : p c = false := hr c rfl
      simp [hc]

end PathDoc.Text

namespace PathDoc.Decimal

/-! ## Texts of digits -/

theorem isDigits_iff {text : List Char} :
    isDigits text = true ↔ text ≠ [] ∧ ∀ c ∈ text, c.isDigit = true := by
  simp [isDigits]

theorem head?_natText_ne_zero {n : Nat} (h : n ≠ 0) : (natText n).head? ≠ some '0' := by
  rw [natText]
  induction n using Nat.strongRecOn with
  | ind n ih =>
    by_cases hlt : n < 10
    · rw [Nat.toDigits_of_lt_base hlt]
      intro hzero
      have hdigit : ∀ n < 10, n ≠ 0 → Nat.digitChar n ≠ '0' := by decide
      exact hdigit n hlt h (Option.some.inj hzero)
    · have hhead : (Nat.toDigits 10 (n / 10)).head?.isSome = true :=
        List.isSome_head?.2 Nat.toDigits_ne_nil
      rw [Nat.toDigits_of_base_le (by decide) (Nat.le_of_not_lt hlt), List.head?_append,
        Option.or_of_isSome hhead]
      exact ih (n / 10) (by omega) (by omega)

/-- What is dropped are zeros. -/
theorem exists_zeros (digits : List Char) :
    ∃ zeros, digits = dropTrailingZeros digits ++ zeros ∧ ∀ c ∈ zeros, c = '0' := by
  refine ⟨(digits.reverse.takeWhile (· == '0')).reverse, ?_, ?_⟩
  · rw [dropTrailingZeros, ← List.reverse_append, List.takeWhile_append_dropWhile,
      List.reverse_reverse]
  · intro c hc
    simpa using List.mem_takeWhile_imp (List.mem_reverse.1 hc)

theorem isDigit_of_mem_dropTrailingZeros {digits : List Char}
    (h : ∀ c ∈ digits, c.isDigit = true) {c : Char} (hc : c ∈ dropTrailingZeros digits) :
    c.isDigit = true := by
  obtain ⟨zeros, hsplit, -⟩ := exists_zeros digits
  apply h
  rw [hsplit]
  exact List.mem_append_left _ hc

/-- A first digit other than zero is kept. -/
theorem exists_dropTrailingZeros_cons {c : Char} (hc : c ≠ '0') (digits : List Char) :
    ∃ kept, dropTrailingZeros (c :: digits) = c :: kept := by
  obtain ⟨zeros, hsplit, hzeros⟩ := exists_zeros (c :: digits)
  cases hdropped : dropTrailingZeros (c :: digits) with
  | nil =>
      rw [hdropped, List.nil_append] at hsplit
      exact absurd (hzeros c (hsplit ▸ List.mem_cons_self)) hc
  | cons d kept =>
      rw [hdropped] at hsplit
      exact ⟨kept, by rw [(List.cons.inj hsplit).1]⟩

/-! ## The shortest decimal -/

variable {x : Magnitude} {tie : Tie}

/-- The number of digits of the integer part of a quotient bounds the quotient from below. -/
theorem pow_mul_le_of_length {a b : Nat} (hb : 0 < b) (h : b ≤ a) :
    10 ^ ((natText (a / b)).length - 1) * b ≤ a := by
  apply (Nat.le_div_iff_mul_le hb).1
  by_cases hone : (natText (a / b)).length - 1 = 0
  · rw [hone]
    exact Nat.div_pos h hb
  · apply Nat.le_of_not_lt
    intro hlt
    have hle := (Nat.length_toDigits_le_iff (by decide) (Nat.pos_of_ne_zero hone)).2 hlt
    rw [natText] at hone hle
    omega

/-- The number of digits of the integer part of a quotient bounds the quotient from above. -/
theorem lt_pow_mul_of_length {a b : Nat} (hb : 0 < b) : a < 10 ^ (natText (a / b)).length * b := by
  apply (Nat.div_lt_iff_lt_mul hb).1
  exact (Nat.length_toDigits_le_iff (by decide) Nat.length_toDigits_pos).1 (Nat.le_refl _)

/-- On the grid where the search for a shortest decimal starts, and on finer ones, the number lies
above zero. -/
theorem floorOn_ne_zero (hx : x.mantissa ≠ 0) {k : Int} (hk : k < powerAbove x) :
    floorOn x k ≠ 0 := by
  -- the number is a / b
  obtain ⟨a, ha⟩ : ∃ a, a = 4 * x.mantissa * 2 ^ (x.exponent - 2).toNat := ⟨_, rfl⟩
  obtain ⟨b, hb⟩ : ∃ b, b = 2 ^ (2 - x.exponent).toNat := ⟨_, rfl⟩
  have hapos : 0 < a := by
    rw [ha]
    exact Nat.mul_pos (by omega) (Nat.pow_pos (by decide))
  have hbpos : 0 < b := by
    rw [hb]
    exact Nat.pow_pos (by decide)
  have hfloor : floorOn x k = a * 10 ^ (-k).toNat / (b * 10 ^ k.toNat) := by
    rw [ha, hb, Nat.mul_assoc]
    rfl
  have hpower : powerAbove x =
      if b ≤ a then ((natText (a / b)).length : Int) else 1 - ((natText (b / a)).length : Int) := by
    simp [powerAbove, scales, ha, hb]
  rw [hfloor]
  apply Nat.ne_of_gt
  apply Nat.div_pos _ (Nat.mul_pos hbpos (Nat.pow_pos (by decide)))
  rw [hpower] at hk
  split at hk
  · rename_i hle
    calc b * 10 ^ k.toNat ≤ b * 10 ^ ((natText (a / b)).length - 1) :=
          Nat.mul_le_mul_left b (Nat.pow_le_pow_right (by decide) (by omega))
      _ ≤ a := by
          rw [Nat.mul_comm]
          exact pow_mul_le_of_length hbpos hle
      _ ≤ a * 10 ^ (-k).toNat := Nat.le_mul_of_pos_right a (Nat.pow_pos (by decide))
  · have hlength : 0 < (natText (b / a)).length := Nat.length_toDigits_pos
    have hzero : k.toNat = 0 := by omega
    calc b * 10 ^ k.toNat = b := by rw [hzero, Nat.pow_zero, Nat.mul_one]
      _ ≤ 10 ^ (natText (b / a)).length * a := Nat.le_of_lt (lt_pow_mul_of_length hapos)
      _ ≤ a * 10 ^ (-k).toNat := by
          rw [Nat.mul_comm]
          exact Nat.mul_le_mul_left a (Nat.pow_le_pow_right (by decide) (by omega))

theorem hit?_ne_zero {k : Int} {digits : Nat} (h : hit? tie x k = some digits) : digits ≠ 0 := by
  rw [hit?] at h
  split at h
  · rename_i hlow _
    cases h
    split
    · exact bne_iff_ne.1 (Bool.and_eq_true_iff.1 hlow).2
    · exact Nat.succ_ne_zero _
  · rename_i hlow _
    cases h
    exact bne_iff_ne.1 (Bool.and_eq_true_iff.1 hlow).2
  · cases h
    exact Nat.succ_ne_zero _
  · cases h

theorem firstHit_digits_ne_zero (hx : x.mantissa ≠ 0) (count : Nat) {k : Int}
    (hk : k < powerAbove x) : (firstHit tie x count k).digits ≠ 0 := by
  induction count generalizing k with
  | zero => exact floorOn_ne_zero hx hk
  | succ count ih =>
      rw [firstHit]
      split
      · rename_i digits hhit
        exact hit?_ne_zero hhit
      · exact ih (by omega)

/-- **The shortest decimal of a number other than zero is not zero.** -/
theorem shortest_digits_ne_zero (tie : Tie) (hx : x.mantissa ≠ 0) :
    (shortest tie x).digits ≠ 0 :=
  firstHit_digits_ne_zero hx 17 (by omega)

end PathDoc.Decimal

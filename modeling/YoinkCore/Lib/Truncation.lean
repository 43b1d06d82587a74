import YoinkCore.Lib.Ieee

/-!
# Truncation

The conversion of a floating-point number to an integer type rounds towards zero and
saturates. A number that is not negative is rounded to the floor of its value.
-/

namespace YoinkCore.Lib.Ieee

open Float.Model Float.Model.UnpackedFloat

/-- The rational number that a finite number stands for. -/
def rational : UnpackedFloat → ℚ
  | .finite s m e _ => s.apply m * (2 : ℚ) ^ e
  | _ => 0

/-- `as i64` -/
def toI64 (x : Float) : Int :=
  max (-2 ^ 63) (min (2 ^ 63 - 1) (x.toModel.unpack.toInt (-2 ^ 63) (2 ^ 63 - 1)))

/-! ## Rounding towards zero -/

theorem shiftRight_mantissa (em : ExtendedMantissa) (n : Nat) :
    (em >>> n).mantissa = em.mantissa / 2 ^ n := by
  induction n with
  | zero => simp [HShiftRight.hShiftRight, Nat.repeat]
  | succ n ih =>
      show (em >>> n).mantissa / 2 = _
      rw [ih, Nat.div_div_eq_div_mul, Nat.pow_succ]

theorem roundToInt_positive (m : Nat) (e : Int) :
    roundToInt .positive m e = ⌊(m : ℚ) * (2 : ℚ) ^ e⌋ := by
  unfold roundToInt decreaseExponent shiftToExponent
  simp only [shiftRight_mantissa, ExtendedMantissa.ofMantissaAndAccuracy, Sign.apply]
  rcases le_total 0 e with he | he
  · obtain ⟨k, rfl⟩ := Int.eq_ofNat_of_zero_le he
    have hfloor : ⌊(m : ℚ) * (2 : ℚ) ^ (k : Int)⌋ = ((m * 2 ^ k : Nat) : Int) := by
      rw [zpow_natCast, Int.floor_eq_iff]
      push_cast
      constructor <;> linarith
    rw [hfloor]
    simp [Nat.shiftLeft_eq]
  · obtain ⟨k, rfl⟩ := Int.exists_eq_neg_ofNat he
    have hfloor : ⌊(m : ℚ) * (2 : ℚ) ^ (-(k : Int))⌋ = ((m / 2 ^ k : Nat) : Int) := by
      rw [zpow_neg, zpow_natCast, ← div_eq_mul_inv]
      have h := Rat.floor_natCast_div_natCast m (2 ^ k)
      push_cast at h ⊢
      exact h
    rw [hfloor]
    simp

/-- A number that is not negative. -/
def NonNegative : UnpackedFloat → Prop
  | .zero _ => True
  | .finite s _ _ _ => s = .positive
  | _ => False

variable {u : UnpackedFloat} {x : Float}

theorem toInt_of_nonNegative (h : NonNegative u) (lo hi : Int) : u.toInt lo hi = ⌊rational u⌋ := by
  cases u with
  | notANumber => exact h.elim
  | infinity s => exact h.elim
  | zero s => exact Int.floor_zero.symm
  | finite s m e hm =>
      obtain rfl : s = .positive := h
      exact roundToInt_positive m e

theorem rational_nonneg (h : NonNegative u) : 0 ≤ rational u := by
  cases u with
  | notANumber | infinity s | zero s => exact le_rfl
  | finite s m e hm =>
      obtain rfl : s = .positive := h
      exact mul_nonneg (Int.cast_nonneg (Int.natCast_nonneg m)) (zpow_nonneg (by norm_num) e)

/-! ## Numbers up to a power of two -/

theorem unpack_mantissa_lt {s : Sign} {m : Nat} {e : Int} {hm : 0 < m}
    (h : x.toModel.unpack = .finite s m e hm) : m < 2 ^ 53 := by
  unfold Float.Model.unpack UnpackedFloat.unpack at h
  simp only at h
  split at h
  · split at h <;> cases h
  · split at h
    · split at h
      · cases h
      · obtain ⟨-, rfl, -⟩ := UnpackedFloat.finite.inj h
        exact lt_trans (BitVec.isLt _) (by decide)
    · obtain ⟨-, rfl, -⟩ := UnpackedFloat.finite.inj h
      exact BitVec.isLt _

theorem isFinite_iff : x.isFinite = true ↔ x.toModel.unpack.isFinite = true := Iff.rfl

/-- `x` is neither less than zero nor infinite. -/
theorem nonNegative_of_not_lt (hx : x.isFinite = true) (h : ¬ x < 0.0) :
    NonNegative x.toModel.unpack := by
  rw [lt_iff, show (0.0 : Float).toModel.unpack = .zero .positive from rfl] at h
  rw [isFinite_iff] at hx
  cases hu : x.toModel.unpack with
  | notANumber | infinity s =>
      rw [hu] at hx
      cases hx
  | zero s => trivial
  | finite s m e hm =>
      cases s with
      | positive => rfl
      | negative =>
          rw [hu] at h
          exact absurd rfl h

/-- Numbers up to `2 ^ 63` are smaller unless they are equal to it. -/
theorem rational_of_le (hx : NonNegative x.toModel.unpack) (h : ¬ 9223372036854775808.0 < x) :
    (rational x.toModel.unpack < 2 ^ 63 ∧ (x == 9223372036854775808.0) = false) ∨
      rational x.toModel.unpack = 2 ^ 63 ∧ (x == 9223372036854775808.0) = true := by
  have htop : (9223372036854775808.0 : Float).toModel.unpack =
    .finite .positive (2 ^ 52) 11 (by decide) := rfl
  have hbeq : (x == 9223372036854775808.0) =
    (x.toModel.unpack.compare (9223372036854775808.0 : Float).toModel.unpack == some .eq) := rfl
  rw [lt_iff, htop] at h
  rw [hbeq, htop]
  cases hu : x.toModel.unpack with
  | notANumber | infinity s =>
      rw [hu] at hx
      exact hx.elim
  | zero s => exact .inl ⟨by norm_num [rational], rfl⟩
  | finite s m e hm =>
      rw [hu] at hx h
      obtain rfl : s = .positive := hx
      have hlt := unpack_mantissa_lt hu
      have hm : (m : ℚ) < 2 ^ 53 := by exact_mod_cast hlt
      simp only [UnpackedFloat.compare, rational, Sign.apply, Int.cast_natCast] at h ⊢
      rcases lt_trichotomy e 11 with he | rfl | he
      · -- The exponent is smaller, and the mantissa has 53 bits.
        have hpow : (2 : ℚ) ^ e ≤ 2 ^ (10 : Int) :=
          zpow_le_zpow_right₀ (by norm_num) (Int.le_sub_one_of_lt he)
        refine .inl ⟨?_, by rw [Int.compare_eq_lt.mpr he]; rfl⟩
        calc (m : ℚ) * 2 ^ e ≤ m * 2 ^ (10 : Int) :=
              mul_le_mul_of_nonneg_left hpow (Nat.cast_nonneg m)
          _ < 2 ^ 53 * 2 ^ (10 : Int) := mul_lt_mul_of_pos_right hm (by norm_num)
          _ = 2 ^ 63 := by norm_num
      · rcases lt_trichotomy m (2 ^ 52) with hm | rfl | hm
        · have hm' : (m : ℚ) < 2 ^ 52 := by exact_mod_cast hm
          refine .inl ⟨?_, by
            rw [compare_eq_iff_eq.mpr (rfl : (11 : Int) = 11), Nat.compare_eq_lt.mpr hm]; rfl⟩
          calc (m : ℚ) * 2 ^ (11 : Int) < 2 ^ 52 * 2 ^ (11 : Int) :=
                mul_lt_mul_of_pos_right hm' (by norm_num)
            _ = 2 ^ 63 := by norm_num
        · exact .inr ⟨by norm_num, rfl⟩
        · refine absurd ?_ h
          rw [compare_eq_iff_eq.mpr (rfl : (11 : Int) = 11), Nat.compare_eq_lt.mpr hm]
          rfl
      · refine absurd ?_ h
        rw [Int.compare_eq_lt.mpr he]
        rfl

/-- **Casts.** A number that was found to be in range is cast to its floor, but for the end
of the range itself. -/
theorem toI64_of_in_range (hx : x.isFinite = true) (hmin : ¬ x < 0.0)
    (hmax : ¬ 9223372036854775808.0 < x) :
    0 ≤ toI64 x ∧ toI64 x ≤ 2 ^ 63 - 1 ∧
      (toI64 x = ⌊rational x.toModel.unpack⌋ ↔ (x == 9223372036854775808.0) = false) := by
  have hn := nonNegative_of_not_lt hx hmin
  have hfloor : 0 ≤ ⌊rational x.toModel.unpack⌋ := Int.floor_nonneg.mpr (rational_nonneg hn)
  unfold toI64
  rw [toInt_of_nonNegative hn]
  rcases rational_of_le hn hmax with ⟨hlt, hne⟩ | ⟨heq, he⟩
  · have hlt : ⌊rational x.toModel.unpack⌋ < 2 ^ 63 := Int.floor_lt.mpr (by exact_mod_cast hlt)
    exact ⟨by omega, by omega, iff_of_true (by omega) hne⟩
  · have heq : ⌊rational x.toModel.unpack⌋ = 2 ^ 63 := by
      rw [heq]
      exact_mod_cast Int.floor_natCast (R := ℚ) (2 ^ 63)
    rw [he, heq]
    decide

end YoinkCore.Lib.Ieee

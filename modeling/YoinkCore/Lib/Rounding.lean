import YoinkCore.Lib.Truncation

/-!
# Rounding of floating-point numbers

Sums, products and quotients of `Float` are those of the rational numbers, rounded to the
nearest number of 53 bits. `round64` is that rounding on the rational numbers.

A mantissa that is shifted to the right keeps two bits of what it loses. `Holds` says which
number such a mantissa stands for; a shift by one halves it.
-/

namespace YoinkCore.Lib.Ieee

open Float.Model Float.Model.UnpackedFloat

/-! ## Nearest integers -/

/-- The nearest integer, and the even one of two. -/
def nearest (y : ℚ) : ℤ :=
  if Int.fract y < 1 / 2 then ⌊y⌋
  else if 1 / 2 < Int.fract y then ⌊y⌋ + 1
  else ⌊y⌋ + ⌊y⌋ % 2

theorem nearest_intCast (n : ℤ) : nearest n = n := by
  rw [nearest, Int.fract_intCast, if_pos (by norm_num), Int.floor_intCast]

theorem nearest_error (y : ℚ) : |(nearest y : ℚ) - y| ≤ 1 / 2 := by
  have hy := Int.floor_add_fract y
  have hnonneg := Int.fract_nonneg y
  have hlt := Int.fract_lt_one y
  unfold nearest
  by_cases hlow : Int.fract y < 1 / 2
  · rw [if_pos hlow, abs_le]
    constructor <;> linarith
  · rw [if_neg hlow]
    by_cases hhigh : 1 / 2 < Int.fract y
    · rw [if_pos hhigh, abs_le]
      push_cast
      constructor <;> linarith
    · rw [if_neg hhigh, abs_le]
      have hparity : (0 : ℚ) ≤ ((⌊y⌋ % 2 : ℤ) : ℚ) ∧ ((⌊y⌋ % 2 : ℤ) : ℚ) ≤ 1 := by
        constructor
        · exact_mod_cast Int.emod_nonneg _ (by norm_num)
        · exact_mod_cast (by omega : ⌊y⌋ % 2 ≤ 1)
      push_cast
      constructor <;> linarith [hparity.1, hparity.2]

theorem nearest_bounds (y : ℚ) : ⌊y⌋ ≤ nearest y ∧ nearest y ≤ ⌊y⌋ + 1 := by
  unfold nearest
  split
  · omega
  · split <;> omega

/-! ## Mantissas with a round bit and a sticky bit -/

/-- The number that a mantissa and its two bits stand for. -/
def Holds (em : ExtendedMantissa) (y : ℚ) : Prop :=
  ∃ f : ℚ, y = em.mantissa + f ∧ 0 ≤ f ∧ f < 1 ∧
    (em.roundBit = true ↔ 1 / 2 ≤ f) ∧ (em.stickyBit = true ↔ f ≠ 0 ∧ f ≠ 1 / 2)

variable {em : ExtendedMantissa} {y : ℚ} {m : ℕ} {e : ℤ}

theorem Holds.floor (h : Holds em y) : ⌊y⌋ = (em.mantissa : ℤ) := by
  obtain ⟨f, rfl, hnonneg, hlt, -, -⟩ := h
  rw [Int.floor_eq_iff]
  push_cast
  constructor <;> linarith

theorem Holds.fract (h : Holds em y) :
    (em.roundBit = true ↔ 1 / 2 ≤ Int.fract y) ∧
      (em.stickyBit = true ↔ Int.fract y ≠ 0 ∧ Int.fract y ≠ 1 / 2) := by
  have hfloor := h.floor
  obtain ⟨f, rfl, -, -, hround, hsticky⟩ := h
  have hf : Int.fract ((em.mantissa : ℚ) + f) = f := by
    rw [Int.fract, hfloor]
    push_cast
    ring
  rw [hf]
  exact ⟨hround, hsticky⟩

/-- The two bits say how a mantissa is rounded. -/
theorem Holds.rounded (h : Holds em y) : (em.roundedMantissa : ℤ) = nearest y := by
  obtain ⟨hround, hsticky⟩ := h.fract
  have hfloor := h.floor
  unfold nearest
  rw [hfloor]
  obtain ⟨m, r, s⟩ := em
  cases r with
  | false =>
      have hlow : Int.fract y < 1 / 2 := by simpa using hround
      rw [if_pos hlow]
      cases s <;> rfl
  | true =>
      have hhalf : 1 / 2 ≤ Int.fract y := hround.mp rfl
      rw [if_neg (not_lt.mpr hhalf)]
      cases s with
      | false =>
          have heq : Int.fract y = 1 / 2 := by
            by_contra hne
            exact absurd (hsticky.mpr ⟨by linarith, hne⟩) Bool.false_ne_true
          rw [heq, if_neg (lt_irrefl _)]
          rfl
      | true =>
          have hne : Int.fract y ≠ 1 / 2 := (hsticky.mp rfl).2
          rw [if_pos (lt_of_le_of_ne hhalf hne.symm)]
          rfl

theorem Holds.shiftRightOne (h : Holds em y) : Holds em.shiftRightOne (y / 2) := by
  obtain ⟨f, rfl, hnonneg, hlt, hround, hsticky⟩ := h
  obtain ⟨m, r, s⟩ := em
  have hm : (m : ℚ) = 2 * ((m / 2 : ℕ) : ℚ) + ((m % 2 : ℕ) : ℚ) := by
    exact_mod_cast (Nat.div_add_mod m 2).symm
  refine ⟨(((m % 2 : ℕ) : ℚ) + f) / 2, ?_, ?_, ?_, ?_, ?_⟩
  · show ((m : ℚ) + f) / 2 = ((m / 2 : ℕ) : ℚ) + (((m % 2 : ℕ) : ℚ) + f) / 2
    rw [hm]
    ring
  · positivity
  · have hone : ((m % 2 : ℕ) : ℚ) ≤ 1 := by exact_mod_cast (by omega : m % 2 ≤ 1)
    linarith
  · -- What is at least a half of the last bit is the last bit itself.
    show (m % 2 != 0) = true ↔ _
    rcases Nat.mod_two_eq_zero_or_one m with hbit | hbit <;> rw [hbit]
    · refine iff_of_false (by decide) ?_
      push_cast
      linarith
    · refine iff_of_true (by decide) ?_
      push_cast
      linarith
  · show (r || s) = true ↔ _
    rw [Bool.or_eq_true, hround, hsticky]
    have hf : (1 / 2 ≤ f ∨ f ≠ 0 ∧ f ≠ 1 / 2) ↔ f ≠ 0 := by
      constructor
      · rintro (hle | ⟨hne, -⟩) hzero
        · rw [hzero] at hle
          norm_num at hle
        · exact hne hzero
      · intro hne
        by_cases hhalf : f = 1 / 2
        · exact .inl hhalf.ge
        · exact .inr ⟨hne, hhalf⟩
    rw [hf]
    rcases Nat.mod_two_eq_zero_or_one m with hbit | hbit <;> rw [hbit]
    · push_cast
      constructor
      · intro hne
        exact ⟨fun h => hne (by linarith), by linarith⟩
      · rintro ⟨hne, -⟩ rfl
        exact hne (by norm_num)
    · push_cast
      constructor
      · intro hne
        exact ⟨by linarith, fun h => hne (by linarith)⟩
      · rintro ⟨-, hne⟩ rfl
        exact hne (by norm_num)

theorem Holds.shiftRight (h : Holds em y) (n : ℕ) : Holds (em >>> n) (y / 2 ^ n) := by
  induction n with
  | zero =>
      rw [pow_zero, div_one]
      exact h
  | succ n ih =>
      rw [pow_succ, ← div_div]
      exact ih.shiftRightOne

theorem holds_exact (m : ℕ) : Holds (.ofMantissaAndAccuracy m .exact) m :=
  ⟨0, (add_zero _).symm, le_rfl, one_pos, iff_of_false Bool.false_ne_true (by norm_num),
    iff_of_false Bool.false_ne_true fun h => h.1 rfl⟩

/-- What a division leaves over. -/
theorem holds_fraction (m : ℕ) {num den : ℕ} (h : num < den) :
    Holds (.ofMantissaAndAccuracy m (accuracyOfFraction num den)) (m + num / den) := by
  have hden : (0 : ℚ) < den := by exact_mod_cast lt_of_le_of_lt (Nat.zero_le num) h
  unfold accuracyOfFraction
  by_cases hzero : num = 0
  · rw [if_pos hzero, hzero, Nat.cast_zero, zero_div, add_zero]
    exact holds_exact m
  rw [if_neg hzero]
  have hpos : (0 : ℚ) < num := by exact_mod_cast Nat.pos_of_ne_zero hzero
  have hlt : (num : ℚ) / den < 1 := by
    rw [div_lt_one hden]
    exact_mod_cast h
  have hne : (num : ℚ) / den ≠ 0 := (div_pos hpos hden).ne'
  have hcases : (compare (2 * num) den = .lt ∧ (num : ℚ) / den < 1 / 2) ∨
      (compare (2 * num) den = .eq ∧ (num : ℚ) / den = 1 / 2) ∨
      (compare (2 * num) den = .gt ∧ 1 / 2 < (num : ℚ) / den) := by
    rcases lt_trichotomy (2 * num) den with hc | hc | hc
    · refine .inl ⟨Nat.compare_eq_lt.mpr hc, ?_⟩
      have : (2 * num : ℚ) < den := by exact_mod_cast hc
      rw [div_lt_div_iff₀ hden two_pos]
      linarith
    · refine .inr (.inl ⟨Nat.compare_eq_eq.mpr hc, ?_⟩)
      have : (2 * num : ℚ) = den := by exact_mod_cast hc
      rw [div_eq_div_iff hden.ne' two_ne_zero]
      linarith
    · refine .inr (.inr ⟨Nat.compare_eq_gt.mpr hc, ?_⟩)
      have : (den : ℚ) < 2 * num := by exact_mod_cast hc
      rw [div_lt_div_iff₀ two_pos hden]
      linarith
  refine ⟨num / den, ?_, (div_pos hpos hden).le, hlt, ?_⟩
  · rcases hcases with ⟨hc, -⟩ | ⟨hc, -⟩ | ⟨hc, -⟩ <;> rw [hc] <;> rfl
  · rcases hcases with ⟨hc, hf⟩ | ⟨hc, hf⟩ | ⟨hc, hf⟩ <;> rw [hc]
    · exact ⟨iff_of_false Bool.false_ne_true (not_le.mpr hf), iff_of_true rfl ⟨hne, hf.ne⟩⟩
    · exact ⟨iff_of_true rfl hf.ge, iff_of_false Bool.false_ne_true fun h => h.2 hf⟩
    · exact ⟨iff_of_true rfl hf.le, iff_of_true rfl ⟨hne, hf.ne'⟩⟩

/-! ## Rounding to 53 bits -/

/-- The exponent of the last bit that a number keeps. -/
def lastBit (q : ℚ) : ℤ := max (Int.log 2 q - 52) (-1074)

/-- The nearest number of 53 bits, or of fewer at the lower end. -/
def round64 (q : ℚ) : ℚ := nearest (q / 2 ^ lastBit q) * 2 ^ lastBit q

theorem round64_zero : round64 0 = 0 := by
  rw [round64, zero_div, ← Int.cast_zero, nearest_intCast, Int.cast_zero, zero_mul]

theorem round64_error (q : ℚ) : |round64 q - q| ≤ 2 ^ lastBit q / 2 := by
  have hpos : (0 : ℚ) < 2 ^ lastBit q := by positivity
  have hdiff :
      round64 q - q = (nearest (q / 2 ^ lastBit q) - q / 2 ^ lastBit q) * 2 ^ lastBit q := by
    rw [round64, sub_mul, div_mul_cancel₀ _ hpos.ne']
  rw [hdiff, abs_mul, abs_of_pos hpos]
  calc |(nearest (q / 2 ^ lastBit q) : ℚ) - q / 2 ^ lastBit q| * 2 ^ lastBit q
      ≤ 1 / 2 * 2 ^ lastBit q := mul_le_mul_of_nonneg_right (nearest_error _) hpos.le
    _ = 2 ^ lastBit q / 2 := by ring

variable {acc : Accuracy} {q : ℚ} {n t : ℤ} {d : ℕ}

theorem log_lt (hq : 0 < q) (h : q < 2 ^ n) : Int.log 2 q < n := by
  have := (Int.lt_zpow_iff_log_lt (b := 2) (by norm_num) hq (x := n)).mp (by exact_mod_cast h)
  exact this

theorem le_log (hq : 0 < q) (h : (2 : ℚ) ^ n ≤ q) : n ≤ Int.log 2 q :=
  (Int.zpow_le_iff_le_log (b := 2) (by norm_num) hq).mp (by exact_mod_cast h)

/-- A number with 53 bits is not rounded. -/
theorem round64_of_bits (hm : m < 2 ^ 53) (he : -1074 ≤ e) : round64 (m * 2 ^ e) = m * 2 ^ e := by
  rcases Nat.eq_zero_or_pos m with rfl | hpos
  · rw [Nat.cast_zero, zero_mul, round64_zero]
  have hq : (0 : ℚ) < m * 2 ^ e := by positivity
  have hlog : Int.log 2 ((m : ℚ) * 2 ^ e) < 53 + e := by
    refine log_lt hq ?_
    rw [zpow_add₀ (by norm_num)]
    exact mul_lt_mul_of_pos_right (by exact_mod_cast hm) (by positivity)
  have hlast : lastBit (m * 2 ^ e) ≤ e := by
    unfold lastBit
    omega
  obtain ⟨k, hk⟩ := Int.eq_ofNat_of_zero_le (sub_nonneg.mpr hlast)
  have hint : (m : ℚ) * 2 ^ e / 2 ^ lastBit (m * 2 ^ e) = ((m * 2 ^ k : ℕ) : ℤ) := by
    have he : e = lastBit (m * 2 ^ e) + k := by omega
    rw [div_eq_iff (by positivity)]
    conv_lhs => rw [he, zpow_add₀ (by norm_num)]
    push_cast
    rw [zpow_natCast]
    ring
  rw [round64, hint, nearest_intCast, ← hint, div_mul_cancel₀ _ (by positivity)]

theorem round64_natCast {n : ℕ} (h : n ≤ 2 ^ 53) : round64 n = n := by
  rcases h.lt_or_eq with hlt | rfl
  · have := round64_of_bits hlt (e := 0) (by norm_num)
    rwa [zpow_zero, mul_one] at this
  · have := round64_of_bits (m := 2 ^ 52) (e := 1) (by norm_num) (by norm_num)
    rw [zpow_one] at this
    convert this using 2 <;> norm_num

/-- The error of a quotient of small numbers is less than its grain. -/
theorem lastBit_div_lt (hpos : 0 < m) (hm : m < 2 ^ 53) (hd : 0 < d) (hmax : d ≤ 2 ^ 53) :
    (2 : ℚ) ^ lastBit ((m : ℚ) / d) / 2 < 1 / d := by
  have hd' : (0 : ℚ) < d := by exact_mod_cast hd
  have hq : (0 : ℚ) < m / d := by positivity
  have hlog : (-53 : ℤ) ≤ Int.log 2 ((m : ℚ) / d) := by
    have hone : (1 : ℚ) ≤ m := by exact_mod_cast hpos
    refine le_log hq ?_
    rw [zpow_neg, le_div_iff₀ hd', inv_mul_le_iff₀ (by positivity)]
    calc (d : ℚ) ≤ 2 ^ (53 : ℤ) := by exact_mod_cast hmax
      _ ≤ 2 ^ (53 : ℤ) * m := le_mul_of_one_le_right (by positivity) hone
  have hbit : lastBit ((m : ℚ) / d) = Int.log 2 ((m : ℚ) / d) - 52 := max_eq_left (by omega)
  have hle : (2 : ℚ) ^ Int.log 2 ((m : ℚ) / d) ≤ m / d := by
    exact_mod_cast Int.zpow_log_le_self (b := 2) (by norm_num) hq
  have hm53 : (m : ℚ) < 2 ^ 53 := by exact_mod_cast hm
  calc (2 : ℚ) ^ lastBit ((m : ℚ) / d) / 2
      = 2 ^ Int.log 2 ((m : ℚ) / d) / 2 ^ 53 := by
        rw [hbit, zpow_sub₀ two_ne_zero, div_div]
        norm_num
    _ ≤ (m : ℚ) / d / 2 ^ 53 := div_le_div_of_nonneg_right hle (by positivity)
    _ = (m : ℚ) / 2 ^ 53 / d := div_right_comm _ _ _
    _ < 1 / d := by
        rw [div_lt_div_iff_of_pos_right hd', div_lt_one (by positivity)]
        exact hm53

/-- A quotient of small numbers keeps its whole part. -/
theorem floor_round64_div (hm : m < 2 ^ 53) (hd : 0 < d) (hmax : d ≤ 2 ^ 53) :
    ⌊round64 ((m : ℚ) / d)⌋ = ((m / d : ℕ) : ℤ) := by
  have hd' : (0 : ℚ) < d := by exact_mod_cast hd
  have hsplit : (m : ℚ) / d = (m / d : ℕ) + (m % d : ℕ) / d := by
    have hmod : ((d * (m / d) + m % d : ℕ) : ℚ) = m := congrArg Nat.cast (Nat.div_add_mod m d)
    rw [← hmod, Nat.cast_add, Nat.cast_mul, add_div, mul_div_cancel_left₀ _ hd'.ne']
  rcases Nat.eq_zero_or_pos (m % d) with hzero | hpos
  · rw [hsplit, hzero, Nat.cast_zero, zero_div, add_zero,
      round64_natCast ((Nat.div_le_self m d).trans hm.le)]
    exact_mod_cast Int.floor_natCast (R := ℚ) (m / d)
  · -- the whole numbers around the quotient are at least one grain away
    have herror := lastBit_div_lt (hpos.trans_le (Nat.mod_le m d)) hm hd hmax
    have habs := abs_lt.mp ((round64_error ((m : ℚ) / d)).trans_lt herror)
    have hlow : (1 : ℚ) / d ≤ (m % d : ℕ) / d := by
      rw [div_le_div_iff_of_pos_right hd']
      exact_mod_cast hpos
    have hhigh : ((m % d : ℕ) : ℚ) / d + 1 / d ≤ 1 := by
      rw [← add_div, div_le_one hd']
      exact_mod_cast Nat.mod_lt m hd
    rw [Int.floor_eq_iff, Int.cast_natCast]
    constructor <;> linarith

/-- Too little is nothing. -/
theorem round64_tiny (hq : 0 ≤ q) (h : q < 2 ^ (-1075 : ℤ)) : round64 q = 0 := by
  rcases hq.eq_or_lt with rfl | hpos
  · exact round64_zero
  have hlast : lastBit q = -1074 := by
    have := log_lt hpos h
    unfold lastBit
    omega
  have hsmall : q / 2 ^ (-1074 : ℤ) < 1 / 2 := by
    rw [div_lt_iff₀ (by positivity)]
    calc q < 2 ^ (-1075 : ℤ) := h
      _ = 2 ^ (-1 + -1074 : ℤ) := rfl
      _ = 1 / 2 * 2 ^ (-1074 : ℤ) := by
        rw [zpow_add₀ (by norm_num), zpow_neg_one, one_div]
  have hnonneg : 0 ≤ q / 2 ^ (-1074 : ℤ) := by positivity
  have hfloor : ⌊q / 2 ^ (-1074 : ℤ)⌋ = 0 := Int.floor_eq_zero_iff.mpr ⟨hnonneg, by linarith⟩
  have hnearest : nearest (q / 2 ^ (-1074 : ℤ)) = 0 := by
    rw [nearest, Int.fract, hfloor, if_pos (by simpa using hsmall)]
  rw [round64, hlast, hnearest, Int.cast_zero, zero_mul]

/-! ## The rounding of a mantissa -/

/-- A mantissa of at most 53 bits, or the next one, at an exponent. -/
def place (s : Sign) (r : ℕ) (t : ℤ) : UnpackedFloat :=
  if h : r = 0 then .zero s
  else if r = 2 ^ 53 then .finite s (2 ^ 52) (t + 1) (by decide)
  else .finite s r t (Nat.pos_of_ne_zero h)

theorem rational_place (r : ℕ) (t : ℤ) : rational (place .positive r t) = r * 2 ^ t := by
  unfold place
  split
  · rename_i hzero
    rw [hzero, Nat.cast_zero, zero_mul]
    rfl
  · split
    · rename_i hcarry
      show (((2 ^ 52 : ℕ) : ℤ) : ℚ) * 2 ^ (t + 1) = r * 2 ^ t
      rw [hcarry, zpow_add₀ (by norm_num)]
      push_cast
      ring
    · rfl

theorem nonNegative_place (r : ℕ) (t : ℤ) : NonNegative (place .positive r t) := by
  unfold place
  split
  · trivial
  · split <;> rfl

theorem targetExponent_eq (m : ℕ) (e : ℤ) :
    Format.binary64.targetExponent (totalExponent m e) = max (m.log2 + e - 52) (-1074) := by
  show max ((m.log2 : ℤ) + 1 + e - 53) (-1074) = _
  congr 1
  ring

/-- A mantissa of 53 bits keeps its exponent. -/
theorem shift_small (hm : m < 2 ^ 53) (he : -1074 ≤ e) :
    shiftToTargetExponent Format.binary64 m e .exact = (⟨m, false, false⟩, e) := by
  have hlog : m.log2 ≤ 52 := by
    rcases Nat.eq_zero_or_pos m with rfl | hpos
    · exact Nat.zero_le _
    · have := (Nat.log2_lt hpos.ne').mpr hm
      omega
  have hzero : (Format.binary64.targetExponent (totalExponent m e) - e).toNat = 0 := by
    rw [targetExponent_eq]
    omega
  unfold shiftToTargetExponent shiftToExponent
  simp only [hzero]
  rw [Nat.cast_zero, add_zero]
  rfl

/-- A mantissa that was rounded up to 54 bits is shifted by one. -/
theorem shift_carry (he : -1074 ≤ e) :
    shiftToTargetExponent Format.binary64 (2 ^ 53) e .exact = (⟨2 ^ 52, false, false⟩, e + 1) := by
  have hone : (Format.binary64.targetExponent (totalExponent (2 ^ 53) e) - e).toNat = 1 := by
    rw [targetExponent_eq, Nat.log2_two_pow]
    omega
  unfold shiftToTargetExponent shiftToExponent
  simp only [hone]
  rfl

/-- What is left of a mantissa above its last bit has 53 bits, and all of them unless the
exponent is the least one. -/
theorem shifted_bounds (ht : t = max (m.log2 + e - 52) (-1074)) (he : e ≤ t) :
    m / 2 ^ (t - e).toNat < 2 ^ 53 ∧ (t = -1074 ∨ 2 ^ 52 ≤ m / 2 ^ (t - e).toNat) := by
  obtain ⟨k, hk⟩ := Int.eq_ofNat_of_zero_le (sub_nonneg.mpr he)
  have hshift : (t - e).toNat = k := by omega
  rw [hshift]
  constructor
  · rw [Nat.div_lt_iff_lt_mul (Nat.two_pow_pos k), ← pow_add]
    exact lt_of_lt_of_le Nat.lt_log2_self (Nat.pow_le_pow_right two_pos (by omega))
  · by_cases hleast : t = -1074
    · exact .inl hleast
    · refine .inr ?_
      have hlog : m.log2 = 52 + k := by omega
      have hm : m ≠ 0 := by
        rintro rfl
        rw [Nat.log2_zero] at hlog
        omega
      rw [Nat.le_div_iff_mul_le (Nat.two_pow_pos k), ← pow_add, ← hlog]
      exact Nat.log2_self_le hm

/-- What a mantissa is rounded to. -/
theorem roundWithAccuracy_eq (s : Sign) (hy : Holds (.ofMantissaAndAccuracy m acc) y)
    (he : e ≤ Format.binary64.targetExponent (totalExponent m e)) :
    ∃ (r : ℕ) (t : ℤ), roundWithAccuracy Format.binary64 s m e acc = place s r t ∧
      t = max (m.log2 + e - 52) (-1074) ∧ e ≤ t ∧ (r : ℤ) = nearest (y / 2 ^ (t - e).toNat) ∧
      r ≤ 2 ^ 53 ∧ (t = -1074 ∨ 2 ^ 52 ≤ r) := by
  have ht := targetExponent_eq m e
  generalize hgt : Format.binary64.targetExponent (totalExponent m e) = t at ht he
  have hem := hy.shiftRight (t - e).toNat
  have hmantissa : (ExtendedMantissa.ofMantissaAndAccuracy m acc).mantissa = m := by
    cases acc with
    | exact => rfl
    | inexact o => cases o <;> rfl
  have hfloor : ⌊y / 2 ^ (t - e).toNat⌋ = ((m / 2 ^ (t - e).toNat : ℕ) : ℤ) := by
    rw [hem.floor, shiftRight_mantissa, hmantissa]
  obtain ⟨hlt, hnormal⟩ := shifted_bounds ht he
  obtain ⟨hlow, hhigh⟩ := nearest_bounds (y / 2 ^ (t - e).toNat)
  rw [hfloor] at hlow hhigh
  have hround := hem.rounded
  generalize hr : (ExtendedMantissa.ofMantissaAndAccuracy m acc >>> (t - e).toNat).roundedMantissa =
    r
    at hround
  rw [← hround] at hlow hhigh
  have hle : r ≤ 2 ^ 53 := by omega
  refine ⟨r, t, ?_, ht, he, hround, hle, hnormal.imp_right fun h => by omega⟩
  have hfirst : shiftToTargetExponent Format.binary64 m e acc =
      (ExtendedMantissa.ofMantissaAndAccuracy m acc >>> (t - e).toNat, t) := by
    unfold shiftToTargetExponent shiftToExponent
    rw [hgt]
    refine Prod.ext rfl ?_
    show e + ((t - e).toNat : ℤ) = t
    omega
  have hmin : -1074 ≤ t := by
    rw [ht]
    exact le_max_right _ _
  unfold roundWithAccuracy
  simp only [hfirst, hr]
  unfold place
  rcases hle.lt_or_eq with hsmall | rfl
  · simp only [shift_small hsmall hmin]
    by_cases hzero : r = 0
    · rw [dif_pos hzero, dif_pos hzero]
    · rw [dif_neg hzero, dif_neg hzero, if_neg hsmall.ne]
  · simp only [shift_carry hmin]
    rw [dif_neg (by decide), dif_neg (by decide), if_pos trivial]

/-- The last bit of a mantissa that is rounded is that of the number it stands for. -/
theorem lastBit_eq (hy : ⌊y⌋ = (m : ℤ)) (hpos : 0 < y) (ht : t = max (m.log2 + e - 52) (-1074))
    (he : e ≤ t) : lastBit (y * 2 ^ e) = t := by
  have hq : 0 < y * 2 ^ e := by positivity
  have hlow : (m : ℚ) ≤ y := by exact_mod_cast hy ▸ Int.floor_le y
  have hhigh : y < m + 1 := by exact_mod_cast hy ▸ Int.lt_floor_add_one y
  have hlt : Int.log 2 (y * 2 ^ e) < m.log2 + 1 + e := by
    refine log_lt hq ?_
    rw [zpow_add₀ (by norm_num)]
    refine mul_lt_mul_of_pos_right (hhigh.trans_le ?_) (by positivity)
    have : m + 1 ≤ 2 ^ (m.log2 + 1) := Nat.lt_log2_self
    exact_mod_cast this
  rcases Nat.eq_zero_or_pos m with rfl | hm
  · rw [Nat.log2_zero] at ht hlt
    unfold lastBit
    push_cast at ht hlt
    omega
  · have hle : (m.log2 : ℤ) + e ≤ Int.log 2 (y * 2 ^ e) := by
      refine le_log hq ?_
      rw [zpow_add₀ (by norm_num)]
      refine mul_le_mul_of_nonneg_right (le_trans ?_ hlow) (by positivity)
      exact_mod_cast Nat.log2_self_le hm.ne'
    unfold lastBit
    omega

/-- **The value of a mantissa that was rounded.** -/
theorem place_round64 (hy : Holds (.ofMantissaAndAccuracy m acc) y)
    (he : e ≤ Format.binary64.targetExponent (totalExponent m e)) :
    ∃ (r : ℕ) (t : ℤ), roundWithAccuracy Format.binary64 .positive m e acc =
        place .positive r t ∧ (r : ℚ) * 2 ^ t = round64 (y * 2 ^ e) ∧ r ≤ 2 ^ 53 ∧ -1074 ≤ t ∧
        (t = -1074 ∨ 2 ^ 52 ≤ r) ∧ (t = -1074 ∨ 0 < y ∧ t = lastBit (y * 2 ^ e)) := by
  obtain ⟨r, t, hplace, ht, hle, hr, hbound, hnormal⟩ := roundWithAccuracy_eq .positive hy he
  have hfloor : ⌊y⌋ = (m : ℤ) := by
    rw [hy.floor]
    cases acc with
    | exact => rfl
    | inexact o => cases o <;> rfl
  have hnonneg : 0 ≤ y := by
    have := Int.floor_le y
    rw [hfloor] at this
    exact le_trans (by positivity) this
  rcases hnonneg.eq_or_lt with rfl | hpos
  · have hzero : r = 0 := by
      rw [zero_div, ← Int.cast_zero, nearest_intCast] at hr
      exact_mod_cast hr
    have hleast : t = -1074 := by
      obtain rfl : m = 0 := by
        rw [Int.floor_zero] at hfloor
        exact_mod_cast hfloor.symm
      rw [Nat.log2_zero] at ht
      omega
    refine ⟨r, t, hplace, ?_, hbound, hleast.ge, hnormal, .inl hleast⟩
    rw [hzero, Nat.cast_zero, zero_mul, zero_mul, round64_zero]
  · have hlast : lastBit (y * 2 ^ e) = t := lastBit_eq hfloor hpos ht hle
    have hscale : y * 2 ^ e / 2 ^ t = y / 2 ^ (t - e).toNat := by
      rw [← zpow_natCast, Int.toNat_of_nonneg (by omega), zpow_sub₀ (by norm_num),
        div_div_eq_mul_div]
    refine ⟨r, t, hplace, ?_, hbound, ht ▸ le_max_right _ _, hnormal, .inr ⟨hpos, hlast.symm⟩⟩
    rw [round64, hlast, hscale, ← hr, Int.cast_natCast]

end YoinkCore.Lib.Ieee

import YoinkCore.Lib.Rounding

/-!
# Floats and the numbers they stand for

`Is x q` says that a float that is not negative stands for the number `q`. The rules below
compute with it: a sum, a product or a quotient stands for that of the numbers, rounded, as
long as it is not too large for a float, and a decimal stands for its own value, rounded.
-/

namespace YoinkCore.Lib.Ieee

open Float.Model Float.Model.UnpackedFloat

/-! ## Packing -/

theorem unpackSign_packComponents {spec : Format} {sign : Sign}
    {exponent : BitVec spec.exponentBits}
    {mantissa : BitVec spec.mantissaBitsWithoutImplicit} :
    unpackSign (packComponents spec sign exponent mantissa) = sign.toBitVec := by
  ext i hi
  obtain rfl : i = 0 := by omega
  simp [unpackSign, packComponents, BitVec.getLsbD_append, BitVec.getElem_append]

theorem ofBitVec_toBitVec (s : Sign) : Sign.ofBitVec s.toBitVec = s := by
  cases s <;> rfl

variable {m : ℕ}

/-- A number whose mantissa has all of its bits. -/
theorem unpack_normal (s : Sign) {x : ℕ} (hx : 0 < x ∧ x < 2047) (hm : 2 ^ 52 ≤ m ∧ m < 2 ^ 53) :
    UnpackedFloat.unpack Format.binary64
        (packComponents Format.binary64 s (BitVec.ofNat 11 x) (BitVec.ofNat 52 m)) =
      .finite s m (x - 1075) (by omega) := by
  have hxn : (BitVec.ofNat 11 x).toNat = x := by
    rw [BitVec.toNat_ofNat]
    exact Nat.mod_eq_of_lt (by omega)
  have hones : BitVec.ofNat 11 x ≠ -1#11 := by
    intro h
    have := congrArg BitVec.toNat h
    rw [hxn] at this
    have hall : (-1#11 : BitVec 11).toNat = 2047 := rfl
    omega
  have hzero : BitVec.ofNat 11 x ≠ 0#11 := by
    intro h
    have := congrArg BitVec.toNat h
    rw [hxn] at this
    have hnone : (0#11 : BitVec 11).toNat = 0 := rfl
    omega
  have hmantissa : (1#1 ++ BitVec.ofNat 52 m).toNat = m := by
    rw [BitVec.toNat_append, ← Nat.shiftLeft_add_eq_or_of_lt (BitVec.isLt _), BitVec.toNat_ofNat]
    show 1 <<< 52 + m % 2 ^ 52 = m
    rw [Nat.shiftLeft_eq]
    omega
  unfold UnpackedFloat.unpack
  simp only [unpackMantissa_packComponents, unpackExponent_packComponents,
    unpackSign_packComponents, ofBitVec_toBitVec, hones, hzero, if_false, hxn, hmantissa]
  rfl

/-- A number at the lower end. -/
theorem unpack_subnormal (s : Sign) (hm : 0 < m ∧ m < 2 ^ 52) :
    UnpackedFloat.unpack Format.binary64
        (packComponents Format.binary64 s 0#11 (BitVec.ofNat 52 m)) =
      .finite s m (-1074) hm.1 := by
  have hmn : (BitVec.ofNat 52 m).toNat = m := by
    rw [BitVec.toNat_ofNat]
    exact Nat.mod_eq_of_lt hm.2
  have hzero : BitVec.ofNat 52 m ≠ 0#52 := by
    intro h
    have := congrArg BitVec.toNat h
    rw [hmn] at this
    exact hm.1.ne' this
  have hones : (0#11 : BitVec 11) ≠ -1#11 := by decide
  unfold UnpackedFloat.unpack
  simp only [unpackMantissa_packComponents, unpackExponent_packComponents,
    unpackSign_packComponents, ofBitVec_toBitVec, hones, if_false, if_true, hzero, dif_neg,
    not_false_eq_true, hmn]
  rfl

theorem unpack_zero (s : Sign) :
    UnpackedFloat.unpack Format.binary64 (packedZero Format.binary64 s) = .zero s := by
  cases s <;> rfl

/-- A rounded number that is not too large is packed without loss. -/
theorem unpack_pack_place (s : Sign) {r : ℕ} {t : ℤ} (hr : r ≤ 2 ^ 53) (hmin : -1074 ≤ t)
    (hmax : t ≤ 970) (hnormal : t = -1074 ∨ 2 ^ 52 ≤ r) :
    (pack (place s r t)).unpack = place s r t := by
  have hfinite : ∀ {m : ℕ} {e : ℤ} (hm : 0 < m), m < 2 ^ 53 → -1074 ≤ e → e ≤ 971 →
      (e = -1074 ∨ 2 ^ 52 ≤ m) →
      UnpackedFloat.unpack Format.binary64 (UnpackedFloat.pack Format.binary64 (.finite s m e hm)) =
        .finite s m e hm := by
    intro m e hm hlt hlow hhigh hfull
    obtain ⟨x, hx⟩ := Int.eq_ofNat_of_zero_le (by omega : 0 ≤ e + 1075)
    have hbiased :
        (e + Format.binary64.exponentBias + Format.binary64.mantissaBitsWithoutImplicit).toNat
        = x := by
      show (e + ((1023 : ℕ) : ℤ) + ((52 : ℕ) : ℤ)).toNat = x
      omega
    unfold UnpackedFloat.pack
    simp only [hbiased]
    rw [if_neg (show ¬ 2 ^ 11 ≤ x + 1 by omega)]
    by_cases hbits : 2 ^ 52 ≤ m
    · have hlog : m.log2 = 52 := (Nat.log2_eq_iff hm.ne').mpr ⟨hbits, hlt⟩
      rw [if_pos (show m.log2 + 1 = Format.binary64.mantissaBits from hlog ▸ rfl)]
      have := unpack_normal s (x := x) ⟨by omega, by omega⟩ ⟨hbits, hlt⟩
      simp only [this]
      congr 1
      omega
    · have hlog : m.log2 < 52 := (Nat.log2_lt hm.ne').mpr (by omega)
      rw [if_neg (show ¬ m.log2 + 1 = Format.binary64.mantissaBits from
        fun h => hlog.ne (Nat.succ.inj h))]
      have hleast : e = -1074 := by omega
      subst hleast
      exact unpack_subnormal s ⟨hm, by omega⟩
  show UnpackedFloat.unpack Format.binary64 (UnpackedFloat.pack Format.binary64 (place s r t)) = _
  unfold place
  split
  · exact unpack_zero s
  · rename_i hzero
    split
    · exact hfinite (by decide) (by decide) (by omega) (by omega) (.inr le_rfl)
    · rename_i hcarry
      exact hfinite (Nat.pos_of_ne_zero hzero) (by omega) hmin (by omega) hnormal

/-! ## Floats and the numbers they stand for -/

/-- A float that is not negative, and the number it stands for. -/
structure Is (x : Float) (q : ℚ) : Prop where
  nonNegative : NonNegative x.toModel.unpack
  rational : rational x.toModel.unpack = q

namespace Is

variable {x y : Float} {a b : ℚ}

theorem nonneg (h : Is x a) : 0 ≤ a := h.rational ▸ rational_nonneg h.nonNegative

theorem isFinite (h : Is x a) : x.isFinite = true := by
  have hn := h.nonNegative
  rw [isFinite_iff]
  cases hu : x.toModel.unpack with
  | notANumber | infinity s =>
      rw [hu] at hn
      exact hn.elim
  | zero s => rfl
  | finite s m e hm => rfl

theorem zero_le (h : Is x a) : (0.0 : Float) ≤ x := by
  have hn := h.nonNegative
  rw [le_iff, show (0.0 : Float).toModel.unpack = .zero .positive from rfl]
  cases hu : x.toModel.unpack with
  | notANumber | infinity s =>
      rw [hu] at hn
      exact hn.elim
  | zero s => rfl
  | finite s m e hm =>
      rw [hu] at hn
      obtain rfl : s = .positive := hn
      rfl

/-- The cast rounds down. -/
theorem toI64 (h : Is x a) (hmax : a < 2 ^ 63) : Ieee.toI64 x = ⌊a⌋ := by
  have hfloor : 0 ≤ ⌊a⌋ := Int.floor_nonneg.mpr h.nonneg
  have hlt : ⌊a⌋ < 2 ^ 63 := Int.floor_lt.mpr (by exact_mod_cast hmax)
  unfold Ieee.toI64
  rw [toInt_of_nonNegative h.nonNegative, h.rational]
  omega

variable {e : ℤ} {n : ℕ}

/-- A mantissa that was rounded, packed. -/
theorem of_round {acc : Accuracy} {q : ℚ} (hq : Holds (.ofMantissaAndAccuracy m acc) q)
    (he : e ≤ Format.binary64.targetExponent (totalExponent m e)) (hmax : q * 2 ^ e < 2 ^ 1023) :
    Is ⟨pack (roundWithAccuracy Format.binary64 .positive m e acc)⟩ (round64 (q * 2 ^ e)) := by
  obtain ⟨r, t, hplace, hvalue, hr, hmin, hnormal, hlast⟩ := place_round64 hq he
  have hle : t ≤ 970 := by
    rcases hlast with rfl | ⟨hpos, rfl⟩
    · omega
    · have := log_lt (by positivity) (n := 1023) hmax
      unfold lastBit
      omega
  have hpack := unpack_pack_place .positive hr hmin hle hnormal
  rw [← hplace] at hpack
  refine ⟨?_, ?_⟩
  · show NonNegative (Float.Model.pack _).unpack
    rw [hpack, hplace]
    exact nonNegative_place r t
  · show Ieee.rational (Float.Model.pack _).unpack = _
    rw [hpack, hplace, rational_place, hvalue]

/-! ### Whole numbers -/

theorem log2_shiftLeft (hm : 0 < m) (k : ℕ) : (m <<< k).log2 = m.log2 + k := by
  rw [Nat.shiftLeft_eq]
  have hpos : 0 < m * 2 ^ k := Nat.mul_pos hm (Nat.two_pow_pos k)
  refine (Nat.log2_eq_iff hpos.ne').mpr ⟨?_, ?_⟩
  · rw [pow_add]
    exact Nat.mul_le_mul_right _ (Nat.log2_self_le hm.ne')
  · rw [add_right_comm, pow_add]
    exact Nat.mul_lt_mul_of_pos_right Nat.lt_log2_self (Nat.two_pow_pos k)

theorem round_eq (s : Sign) (m : ℕ) (e : ℤ) : UnpackedFloat.round Format.binary64 s m e =
    roundWithAccuracy Format.binary64 s
      (m <<< (e - Format.binary64.targetExponent (totalExponent m e)).toNat)
      (e - (e - Format.binary64.targetExponent (totalExponent m e)).toNat) .exact := rfl

/-- A mantissa at an exponent, which may be too large for it. -/
theorem of_normal (hm : 0 < m) (hmax : (m : ℚ) * 2 ^ e < 2 ^ 1023) :
    Is ⟨Float.Model.pack (UnpackedFloat.round Format.binary64 .positive m e)⟩
      (round64 (m * 2 ^ e)) := by
  rw [round_eq, targetExponent_eq]
  generalize hk : (e - max ((m.log2 : ℤ) + e - 52) (-1074)).toNat = k
  have hvalue : ((m <<< k : ℕ) : ℚ) * 2 ^ (e - k) = m * 2 ^ e := by
    rw [Nat.shiftLeft_eq, zpow_sub₀ (by norm_num), zpow_natCast]
    push_cast
    field_simp
  have hlog := log2_shiftLeft hm k
  have htarget : e - k ≤ Format.binary64.targetExponent (totalExponent (m <<< k) (e - k)) := by
    rw [targetExponent_eq, hlog]
    omega
  have := of_round (holds_exact (m <<< k)) htarget (by rwa [hvalue])
  rwa [hvalue] at this

theorem zero : Is 0.0 0 := ⟨trivial, rfl⟩

/-- `as f64` of an unsigned number. -/
theorem ofUInt64 (n : UInt64) : Is n.toFloat (round64 n.toNat) := by
  have hmodel : n.toFloat =
      ⟨Float.Model.pack (UnpackedFloat.normalize Format.binary64 (n.toNat : ℤ) 0 .positive)⟩ := rfl
  rw [hmodel]
  unfold UnpackedFloat.normalize
  rcases Nat.eq_zero_or_pos n.toNat with hzero | hpos
  · rw [hzero]
    have : round64 (0 : ℕ) = 0 := by rw [Nat.cast_zero, round64_zero]
    rw [this]
    exact zero
  · have hcompare : compare (n.toNat : ℤ) 0 = .gt := Int.compare_eq_gt.mpr (by omega)
    rw [hcompare]
    have hmax : ((n.toNat : ℤ).toNat : ℚ) * 2 ^ (0 : ℤ) < 2 ^ 1023 := by
      rw [zpow_zero, mul_one, Int.toNat_natCast]
      have : n.toNat < 2 ^ 64 := n.toNat_lt
      calc (n.toNat : ℚ) < 2 ^ 64 := by exact_mod_cast this
        _ ≤ 2 ^ 1023 := pow_le_pow_right₀ (by norm_num) (by norm_num)
    have := of_normal (by simpa using hpos) hmax
    rwa [zpow_zero, mul_one, Int.toNat_natCast] at this

/-! ### Sums, products and quotients -/

theorem unpack_bits {s : Sign} {hm : 0 < m} (h : x.toModel.unpack = .finite s m e hm) :
    m < 2 ^ 53 ∧ -1074 ≤ e ∧ (e = -1074 ∨ 2 ^ 52 ≤ m) := by
  refine ⟨unpack_mantissa_lt h, ?_⟩
  unfold Float.Model.unpack UnpackedFloat.unpack at h
  simp only at h
  split at h
  · split at h <;> cases h
  · split at h
    · split at h
      · cases h
      · obtain ⟨-, -, rfl⟩ := UnpackedFloat.finite.inj h
        rename_i hexp _
        rw [hexp]
        exact ⟨by decide, .inl rfl⟩
    · obtain ⟨-, rfl, rfl⟩ := UnpackedFloat.finite.inj h
      rename_i hexp
      have hpos : (@unpackExponent .binary64 x.toModel.toBits.toBitVec).toNat ≠ 0 :=
        fun hzero => hexp (BitVec.eq_of_toNat_eq hzero)
      refine ⟨?_, .inr ?_⟩
      · show -1074 ≤ ((@unpackExponent .binary64 x.toModel.toBits.toBitVec).toNat : ℤ)
          - (1023 + 52)
        omega
      · rw [BitVec.toNat_append, ← Nat.shiftLeft_add_eq_or_of_lt (BitVec.isLt _)]
        exact Nat.le_add_right _ _

/-- A float stands for a number that is not rounded any more. -/
theorem round64_self (h : Is x a) : round64 a = a := by
  obtain ⟨hn, rfl⟩ := h
  cases hu : x.toModel.unpack with
  | notANumber | infinity s =>
      rw [hu] at hn
      exact hn.elim
  | zero s => exact round64_zero
  | finite s m e hm =>
      rw [hu] at hn
      obtain rfl : s = .positive := hn
      obtain ⟨hlt, hle, -⟩ := unpack_bits hu
      exact round64_of_bits hlt hle

/-- A float that is not negative is zero, or a mantissa at an exponent. -/
theorem cases (h : Is x a) :
    (∃ s, x.toModel.unpack = .zero s ∧ a = 0) ∨
      ∃ m e hm, x.toModel.unpack = .finite .positive m e hm ∧ a = m * 2 ^ e := by
  obtain ⟨hn, rfl⟩ := h
  cases hu : x.toModel.unpack with
  | notANumber | infinity s =>
      rw [hu] at hn
      exact hn.elim
  | zero s => exact .inl ⟨s, rfl, rfl⟩
  | finite s m e hm =>
      rw [hu] at hn
      obtain rfl : s = .positive := hn
      exact .inr ⟨m, e, hm, rfl, rfl⟩

/-- A float is packed without loss. -/
theorem repacked (h : Is x a) (hmax : a < 2 ^ 1023) : Is ⟨Float.Model.pack x.toModel.unpack⟩ a := by
  rcases h.cases with ⟨s, hu, rfl⟩ | ⟨m, e, hm, hu, rfl⟩
  · have hpack : (Float.Model.pack (.zero s)).unpack = .zero s := unpack_zero s
    rw [hu]
    refine ⟨?_, ?_⟩
    · show NonNegative (Float.Model.pack (.zero s)).unpack
      rw [hpack]
      trivial
    · show Ieee.rational (Float.Model.pack (.zero s)).unpack = 0
      rw [hpack]
      rfl
  · obtain ⟨hlt, hmin, hnormal⟩ := unpack_bits hu
    have hplace : place .positive m e = .finite .positive m e hm := by
      unfold place
      rw [dif_neg hm.ne', if_neg hlt.ne]
    have hle : e ≤ 970 := by
      rcases hnormal with rfl | hfull
      · omega
      · have hpow : (2 : ℚ) ^ (52 + e) < 2 ^ (1023 : ℤ) := by
          rw [zpow_add₀ (by norm_num)]
          refine lt_of_le_of_lt (mul_le_mul_of_nonneg_right ?_ (by positivity)) hmax
          exact_mod_cast hfull
        have := (zpow_lt_zpow_iff_right₀ (by norm_num : (1 : ℚ) < 2)).mp hpow
        omega
    have hpack := unpack_pack_place .positive hlt.le hmin hle hnormal
    rw [hu, ← hplace]
    refine ⟨?_, ?_⟩
    · show NonNegative (Float.Model.pack (place .positive m e)).unpack
      rw [hpack]
      exact nonNegative_place m e
    · show Ieee.rational (Float.Model.pack (place .positive m e)).unpack = _
      rw [hpack, rational_place]

theorem decreaseExponent_value {t : ℤ} (h : t ≤ e) :
    ((decreaseExponent m e t).1 : ℚ) * 2 ^ t = m * 2 ^ e := by
  obtain ⟨k, hk⟩ := Int.eq_ofNat_of_zero_le (sub_nonneg.mpr h)
  have hshift : (e - t).toNat = k := by omega
  have he : e = k + t := by omega
  show ((m <<< (e - t).toNat : ℕ) : ℚ) * 2 ^ t = _
  rw [hshift, Nat.shiftLeft_eq, he, zpow_add₀ (by norm_num), zpow_natCast]
  push_cast
  ring

/-- **Sums.** -/
theorem add (hx : Is x a) (hy : Is y b) (hmax : a + b < 2 ^ 1023) :
    Is (x + y) (round64 (a + b)) := by
  have hsum : x + y = ⟨Float.Model.pack
      (UnpackedFloat.add Format.binary64 x.toModel.unpack y.toModel.unpack)⟩ := rfl
  have ha := hx.nonneg
  have hb := hy.nonneg
  have hxpack := hx.repacked (lt_of_le_of_lt (le_add_of_nonneg_right hb) hmax)
  have hypack := hy.repacked (lt_of_le_of_lt (le_add_of_nonneg_left ha) hmax)
  rw [hsum]
  rcases hx.cases with ⟨s, hu, rfl⟩ | ⟨m, e, hm, hu, hma⟩
  · rw [zero_add, hy.round64_self]
    rcases hy.cases with ⟨s', hv, rfl⟩ | ⟨m', e', hm', hv, -⟩
    · rw [hu] at hxpack ⊢
      rw [hv] at hypack ⊢
      unfold UnpackedFloat.add
      by_cases hs : (s == s') = true
      · simp only [hs, if_true]
        exact hxpack
      · simp only [hs]
        exact zero
    · rw [hv] at hypack ⊢
      rw [hu]
      exact hypack
  · rcases hy.cases with ⟨s', hv, rfl⟩ | ⟨m', e', hm', hv, hmb⟩
    · rw [add_zero, hx.round64_self]
      rw [hu] at hxpack ⊢
      rw [hv]
      exact hxpack
    · have hvalue :
        (((decreaseExponent m e (min e e')).1 + (decreaseExponent m' e' (min e e')).1 : ℕ) : ℚ)
          * 2 ^ min e e' = a + b := by
        push_cast
        rw [add_mul, decreaseExponent_value (min_le_left e e'),
          decreaseExponent_value (min_le_right e e'), hma, hmb]
      have hpos : 0 <
          (decreaseExponent m e (min e e')).1 + (decreaseExponent m' e' (min e e')).1 := by
        refine Nat.add_pos_left ?_ _
        show 0 < m <<< _
        rw [Nat.shiftLeft_eq]
        exact Nat.mul_pos hm (Nat.two_pow_pos _)
      have hround := of_normal hpos (e := min e e') (by rwa [hvalue])
      rw [hvalue] at hround
      rw [hu, hv]
      show Is ⟨Float.Model.pack (UnpackedFloat.normalize Format.binary64
        ((decreaseExponent m e (min e e')).1 + (decreaseExponent m' e' (min e e')).1 : ℤ)
          (min e e') .positive)⟩ _
      unfold UnpackedFloat.normalize
      rw [Int.compare_eq_gt.mpr (by exact_mod_cast hpos)]
      exact hround

/-- The quotient of two mantissas, with what it leaves over. -/
theorem div_mantissas (hm : 0 < m) (hn : 0 < n) (e f : ℤ)
    (hmax : (m : ℚ) * 2 ^ e / (n * 2 ^ f) < 2 ^ 1023) :
    Is ⟨Float.Model.pack (UnpackedFloat.div Format.binary64 (.finite .positive m e hm)
        (.finite .positive n f hn))⟩ (round64 (m * 2 ^ e / (n * 2 ^ f))) := by
  have htarget : Format.binary64.targetExponent (totalExponent m e - totalExponent n f) =
      max ((m.log2 : ℤ) - n.log2 + (e - f) - 53) (-1074) := by
    show max ((m.log2 : ℤ) + 1 + e - (n.log2 + 1 + f) - 53) (-1074) = _
    congr 1
    ring
  generalize ht : min (e - f) (max ((m.log2 : ℤ) - n.log2 + (e - f) - 53) (-1074)) = t
  obtain ⟨k, hk⟩ := Int.eq_ofNat_of_zero_le (by omega : 0 ≤ e - f - t)
  have hdiv : UnpackedFloat.div Format.binary64 (.finite .positive m e hm)
      (.finite .positive n f hn) =
      roundWithAccuracy Format.binary64 .positive (m * 2 ^ k / n) t
        (accuracyOfFraction (m * 2 ^ k % n) n) := by
    unfold UnpackedFloat.div divCore
    simp only [htarget, ht]
    have hshift : (e - f - t).toNat = k := by omega
    rw [hshift, Nat.shiftLeft_eq]
    rfl
  have hn' : (0 : ℚ) < n := by exact_mod_cast hn
  have hy : ((m * 2 ^ k / n : ℕ) : ℚ) + ((m * 2 ^ k % n : ℕ) : ℚ) / n = m * 2 ^ k / n := by
    have := Nat.div_add_mod (m * 2 ^ k) n
    have hcast : (n : ℚ) * ((m * 2 ^ k / n : ℕ) : ℚ) + ((m * 2 ^ k % n : ℕ) : ℚ) = m * 2 ^ k := by
      exact_mod_cast this
    rw [eq_div_iff hn'.ne', add_mul, div_mul_cancel₀ _ hn'.ne', ← hcast]
    ring
  have hvalue : (m : ℚ) * 2 ^ k / n * 2 ^ t = m * 2 ^ e / (n * 2 ^ f) := by
    have he : e = k + t + f := by omega
    rw [he, zpow_add₀ (by norm_num), zpow_add₀ (by norm_num), zpow_natCast]
    field_simp
  have hholds := holds_fraction (m * 2 ^ k / n) (Nat.mod_lt (m * 2 ^ k) hn)
  rw [hy] at hholds
  have hle : t ≤ Format.binary64.targetExponent (totalExponent (m * 2 ^ k / n) t) := by
    rw [targetExponent_eq]
    by_cases hlow : t ≤ -1074
    · omega
    · -- The quotient has 53 bits.
      have hbits : 2 ^ 52 ≤ m * 2 ^ k / n := by
        rw [Nat.le_div_iff_mul_le hn]
        calc 2 ^ 52 * n ≤ 2 ^ 52 * 2 ^ (n.log2 + 1) := Nat.mul_le_mul_left _ Nat.lt_log2_self.le
          _ = 2 ^ (52 + (n.log2 + 1)) := (pow_add 2 _ _).symm
          _ ≤ 2 ^ (m.log2 + k) := Nat.pow_le_pow_right two_pos (by omega)
          _ = 2 ^ m.log2 * 2 ^ k := pow_add 2 _ _
          _ ≤ m * 2 ^ k := Nat.mul_le_mul_right _ (Nat.log2_self_le hm.ne')
      have hlog : 52 ≤ (m * 2 ^ k / n).log2 :=
        (Nat.le_log2 (by omega)).mpr hbits
      omega
  have hround := of_round hholds hle (by rwa [hvalue])
  rw [hvalue] at hround
  rw [hdiv]
  exact hround

/-- **Quotients.** -/
theorem div (hx : Is x a) (hy : Is y b) (hb : 0 < b) (hmax : a / b < 2 ^ 1023) :
    Is (x / y) (round64 (a / b)) := by
  have hquot : x / y = ⟨Float.Model.pack
      (UnpackedFloat.div Format.binary64 x.toModel.unpack y.toModel.unpack)⟩ := rfl
  rw [hquot]
  rcases hy.cases with ⟨s', hv, rfl⟩ | ⟨n, f, hn, hv, rfl⟩
  · exact absurd hb (lt_irrefl 0)
  · rcases hx.cases with ⟨s, hu, rfl⟩ | ⟨m, e, hm, hu, rfl⟩
    · rw [hu, hv, zero_div, round64_zero]
      have hpack : ∀ s, (Float.Model.pack (.zero s)).unpack = .zero s := unpack_zero
      refine ⟨?_, ?_⟩
      · show NonNegative (Float.Model.pack (.zero _)).unpack
        rw [hpack]
        trivial
      · show Ieee.rational (Float.Model.pack (.zero _)).unpack = 0
        rw [hpack]
        rfl
    · rw [hu, hv]
      exact div_mantissas hm hn e f hmax

/-- The product of two mantissas, the first of which is not short. -/
theorem mul_mantissas (hm : 0 < m) (hn : 0 < n) (e f : ℤ)
    (hlong : e + f ≤ max (((m * n).log2 : ℤ) + (e + f) - 52) (-1074))
    (hmax : (m : ℚ) * 2 ^ e * (n * 2 ^ f) < 2 ^ 1023) :
    Is ⟨Float.Model.pack (UnpackedFloat.mul Format.binary64 (.finite .positive m e hm)
        (.finite .positive n f hn))⟩ (round64 (m * 2 ^ e * (n * 2 ^ f))) := by
  have hvalue : ((m * n : ℕ) : ℚ) * 2 ^ (e + f) = m * 2 ^ e * (n * 2 ^ f) := by
    rw [zpow_add₀ (by norm_num)]
    push_cast
    ring
  have hround := of_round (holds_exact (m * n)) (e := e + f)
    (by rw [targetExponent_eq]; exact hlong) (by rwa [hvalue])
  rw [hvalue] at hround
  exact hround

/-- **Products.** -/
theorem mul (hx : Is x a) (hy : Is y b) (hmax : a * b < 2 ^ 1023) :
    Is (x * y) (round64 (a * b)) := by
  have hprod : x * y = ⟨Float.Model.pack
      (UnpackedFloat.mul Format.binary64 x.toModel.unpack y.toModel.unpack)⟩ := rfl
  have hzero : ∀ s, Is ⟨Float.Model.pack (.zero s)⟩ 0 := by
    intro s
    have hpack : (Float.Model.pack (.zero s)).unpack = .zero s := unpack_zero s
    refine ⟨?_, ?_⟩
    · show NonNegative (Float.Model.pack (.zero s)).unpack
      rw [hpack]
      trivial
    · show Ieee.rational (Float.Model.pack (.zero s)).unpack = 0
      rw [hpack]
      rfl
  rw [hprod]
  rcases hx.cases with ⟨s, hu, rfl⟩ | ⟨m, e, hm, hu, rfl⟩
  · rw [zero_mul, round64_zero, hu]
    rcases hy.cases with ⟨s', hv, -⟩ | ⟨n, f, hn, hv, -⟩ <;> rw [hv] <;> exact hzero _
  · rcases hy.cases with ⟨s', hv, rfl⟩ | ⟨n, f, hn, hv, rfl⟩
    · rw [mul_zero, round64_zero, hu, hv]
      exact hzero _
    · rw [hu, hv]
      refine mul_mantissas hm hn e f ?_ hmax
      obtain ⟨-, -, hfull⟩ := unpack_bits hu
      obtain ⟨-, -, hfull'⟩ := unpack_bits hv
      have hlog : (e = -1074 ∧ f = -1074) ∨ 52 ≤ (m * n).log2 := by
        have hpos : m * n ≠ 0 := (Nat.mul_pos hm hn).ne'
        rcases hfull with he | hlong
        · rcases hfull' with hf | hlong
          · exact .inl ⟨he, hf⟩
          · exact .inr ((Nat.le_log2 hpos).mpr (hlong.trans (Nat.le_mul_of_pos_left n hm)))
        · exact .inr ((Nat.le_log2 hpos).mpr (hlong.trans (Nat.le_mul_of_pos_right m hn)))
      omega

/-! ### Decimals -/

/-- A float is a whole number, by its mantissa and exponent. -/
def isWhole (x : Float) (n : ℕ) : Bool :=
  match x.toModel.unpack with
  | .finite .positive m e _ => m * 2 ^ e.toNat == n * 2 ^ (-e).toNat
  | _ => false

theorem of_isWhole (h : isWhole x n = true) : Is x n := by
  unfold isWhole at h
  split at h
  · rename_i m e hm hu
    refine ⟨by rw [hu]; rfl, ?_⟩
    rw [hu]
    have hnat : (m : ℚ) * 2 ^ e.toNat = n * 2 ^ (-e).toNat := by exact_mod_cast beq_iff_eq.mp h
    have he : e = e.toNat - (-e).toNat := by omega
    show ((m : ℤ) : ℚ) * 2 ^ e = n
    rw [he, zpow_sub₀ (by norm_num), zpow_natCast, zpow_natCast, Int.cast_natCast, ← mul_div_assoc,
      hnat, mul_div_cancel_right₀ _ (by positivity)]
  · cases h

/-- The powers of ten that are floats. -/
theorem powerOfTen (k : Fin 23) : Is (Float.exactlyRepresentablePowersOfTen[k]) (10 ^ (k : ℕ)) := by
  have hall : ∀ k : Fin 23,
      isWhole (Float.exactlyRepresentablePowersOfTen[k]) (10 ^ (k : ℕ)) = true := by
    decide +kernel
  have := of_isWhole (hall k)
  rwa [Nat.cast_pow, Nat.cast_ofNat] at this

theorem ofNat64 (h : m < 2 ^ 53) : Is m.toUInt64.toFloat m := by
  have := ofUInt64 m.toUInt64
  have hm : m.toUInt64.toNat = m := UInt64.toNat_ofNat_of_lt' (by
    show m < 2 ^ 64
    omega)
  rwa [hm, round64_natCast h.le] at this

/-- A number that is divided by a power of ten. -/
theorem ofScientific_fraction {k : ℕ} (hk : 0 < k) (hmax : (m : ℚ) / 10 ^ k < 2 ^ 1023) :
    Is (Float.ofScientific m true k) (round64 (m / 10 ^ k)) := by
  unfold Float.ofScientific
  split
  · rename_i h
    have hpow := powerOfTen ⟨k, by omega⟩
    exact div (ofNat64 h.1) hpow (by positivity) hmax
  · rename_i hslow
    show Is ⟨Float.Model.ofScientific m (-k)⟩ _
    unfold Float.Model.ofScientific UnpackedFloat.ofScientific
    split
    · rename_i hzero
      rw [hzero, Nat.cast_zero, zero_div, round64_zero]
      exact zero
    · rename_i hm
      rw [if_neg (show ¬ (-k : ℤ) > 2 ^ 11 by omega)]
      split
      · rename_i htiny
        have hlog : m.log2 + 2049 ≤ k := by
          have : (-k : ℤ) < -((2 : ℤ) ^ 11 + m.log2) := htiny
          omega
        have hq : (m : ℚ) / 10 ^ k < 2 ^ (-1075 : ℤ) := by
          have hm : (m : ℚ) < 2 ^ (m.log2 + 1) := by exact_mod_cast Nat.lt_log2_self
          rw [div_lt_iff₀ (by positivity)]
          calc (m : ℚ) < 2 ^ (m.log2 + 1) := hm
            _ = 2 ^ (((m.log2 + 1 : ℕ) : ℤ) - k) * 2 ^ (k : ℤ) := by
                rw [← zpow_add₀ (by norm_num), sub_add_cancel, zpow_natCast]
            _ ≤ 2 ^ (-1075 : ℤ) * 10 ^ k := by
                refine mul_le_mul ?_ ?_ (by positivity) (by positivity)
                · exact zpow_le_zpow_right₀ (by norm_num) (by omega)
                · rw [zpow_natCast]
                  exact pow_le_pow_left₀ (by norm_num) (by norm_num) k
        rw [round64_tiny (by positivity) hq]
        exact zero
      · have htoNat : (- -(k : ℤ)).toNat = k := by omega
        have hten : ((10 ^ k : ℕ) : ℚ) * 2 ^ (0 : ℤ) = 10 ^ k := by
          rw [zpow_zero, mul_one, Nat.cast_pow, Nat.cast_ofNat]
        have hone : (m : ℚ) * 2 ^ (0 : ℤ) = m := by rw [zpow_zero, mul_one]
        have hdiv :=
          div_mantissas (Nat.pos_of_ne_zero hm) (Nat.pow_pos (by decide) : 0 < 10 ^ k) 0 0
          (by rwa [hone, hten])
        rw [hone, hten] at hdiv
        have hneg : ¬ (0 : ℤ) ≤ -k := by omega
        simp only [hneg, if_false, htoNat]
        exact hdiv

/-- A mantissa that was made longer than any float's. -/
theorem lengthened {w : ℕ} (hw : w = m * 2 ^ 53) (hpos : 0 < w) (hn : 0 < n) (hone : n = 1)
    (hmax : (m : ℚ) < 2 ^ 1023) :
    Is ⟨Float.Model.pack (UnpackedFloat.mul Format.binary64 (.finite .positive w (-53) hpos)
      (.finite .positive n 0 hn))⟩ (round64 m) := by
  have hvalue : (w : ℚ) * 2 ^ (-53 : ℤ) * (n * 2 ^ (0 : ℤ)) = m := by
    rw [hw, hone, zpow_zero, Nat.cast_one, mul_one, mul_one, zpow_neg]
    push_cast
    exact mul_inv_cancel_right₀ (by norm_num) _
  have hlog : 52 ≤ (w * n).log2 := by
    rw [hone, mul_one, Nat.le_log2 hpos.ne']
    omega
  have hprod := mul_mantissas hpos hn (-53) 0 (by omega) (by rwa [hvalue])
  rwa [hvalue] at hprod

/-- A whole number. -/
theorem ofScientific_whole (hmax : (m : ℚ) < 2 ^ 1023) :
    Is (Float.ofScientific m false 0) (round64 m) := by
  unfold Float.ofScientific
  split
  · rename_i h
    have hpow := powerOfTen 0
    have hprod := mul (ofNat64 h.1) hpow (by rwa [Fin.val_zero, pow_zero, mul_one])
    rwa [Fin.val_zero, pow_zero, mul_one] at hprod
  · rename_i hslow
    have hbig : 2 ^ 53 ≤ m := by omega
    show Is ⟨Float.Model.ofScientific m (Int.ofNat 0)⟩ _
    unfold Float.Model.ofScientific UnpackedFloat.ofScientific
    have hsmall : ¬ Int.ofNat 0 < -((2 : ℤ) ^ Format.binary64.exponentBits + m.log2) :=
      show ¬ (0 : ℤ) < -((2 : ℤ) ^ 11 + m.log2) by omega
    rw [dif_neg (by omega), if_neg (by decide), if_neg hsmall, if_pos (by decide)]
    exact lengthened (Nat.shiftLeft_eq m 53) _ _ rfl hmax

end Is

end YoinkCore.Lib.Ieee

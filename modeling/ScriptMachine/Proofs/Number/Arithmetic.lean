import ScriptMachine.Proofs.Number.Integral

/-!
# What the machine's arithmetic computes

Sums, products and quotients of doubles take the bits apart, work on naturals and round once. Here
their results are said exactly, by the rounding that `ofRatio` does.

* `mul_eq`, `add_eq`, `div_eq`: an operation takes apart, computes and packs.
* `packed_round`: the machine rounds to the nearest double, a half to the even one.
* `mul_of_finite`, `add_of_nonneg`, `one_div_twoPow`: finite results are the exact ones, rounded.
* `isNaN_mul_iff`: among numbers, only zero times infinity is not a number.
-/

namespace ScriptMachine.Number

open Float.Model
open Float.Model.UnpackedFloat (Sign ExtendedMantissa packComponents)

/-! ## Bits -/

def signOf (negative : Bool) : Sign := if negative then .negative else .positive

theorem magnitude_lt (n : Number) : n.magnitude < signWeight := Nat.mod_lt _ (by decide)

theorem significand_pos {n : Number} (positive : n.magnitude ≠ 0) : 0 < n.significand := by
  simp only [significand, exponentWeight]
  split <;> omega

/-- A number as the machine's arithmetic takes it apart. -/
def unpacked (n : Number) : UnpackedFloat :=
  if infinite < n.magnitude then .notANumber
  else if n.magnitude = infinite then .infinity (signOf n.isNegative)
  else if zero : n.magnitude = 0 then .zero (signOf n.isNegative)
  else .finite (signOf n.isNegative) n.significand n.exponent (significand_pos zero)

/-- The number that the machine's arithmetic makes of a result. -/
def packed (x : UnpackedFloat) : Number := ⟨.ofBitVec (x.pack Format.binary64)⟩

theorem unpackMantissa_toNat (b : BitVec 64) :
    (@UnpackedFloat.unpackMantissa Format.binary64 b).toNat = b.toNat % exponentWeight := by
  simp [UnpackedFloat.unpackMantissa]

theorem unpackExponent_toNat (b : BitVec 64) :
    (@UnpackedFloat.unpackExponent Format.binary64 b).toNat =
      b.toNat / exponentWeight % 2048 := by
  simp [UnpackedFloat.unpackExponent, Nat.shiftRight_eq_div_pow]

theorem unpackSign_toNat (b : BitVec 64) :
    (@UnpackedFloat.unpackSign Format.binary64 b).toNat = b.toNat / signWeight % 2 := by
  unfold UnpackedFloat.unpackSign
  simp [Nat.shiftRight_eq_div_pow]

theorem packComponents_toNat (s : Sign) (e : BitVec 11) (m : BitVec 52) :
    (packComponents Format.binary64 s e m).toNat =
      s.toBitVec.toNat * signWeight + e.toNat * exponentWeight + m.toNat := by
  have he := e.isLt
  have hm := m.isLt
  simp only [packComponents, BitVec.toNat_append]
  rw [← Nat.shiftLeft_add_eq_or_of_lt (by simpa using hm),
    ← Nat.shiftLeft_add_eq_or_of_lt (by simpa using he)]
  simp only [Nat.shiftLeft_eq, signWeight, exponentWeight]
  omega

theorem ofBitVec_sign (b : BitVec 64) :
    Sign.ofBitVec (@UnpackedFloat.unpackSign Format.binary64 b) =
      signOf (signWeight ≤ b.toNat) := by
  have bound := b.isLt
  have bit := unpackSign_toNat b
  simp only [Sign.ofBitVec, signOf, ← BitVec.toNat_inj, bit, decide_eq_true_eq, signWeight]
  by_cases set : 0x8000000000000000 ≤ b.toNat
  · rw [if_pos set, if_neg]
    simp
    omega
  · rw [if_neg set, if_pos]
    simp
    omega

theorem finite_congr {s s' : Sign} {m m' : Nat} {e e' : Int} {positive : 0 < m}
    {positive' : 0 < m'} (sign : s = s') (significand : m = m') (exponent : e = e') :
    UnpackedFloat.finite s m e positive = .finite s' m' e' positive' := by
  subst sign significand exponent
  rfl

/-- The machine's arithmetic takes numbers apart as `unpacked` says. -/
theorem unpack_bits (n : Number) :
    UnpackedFloat.unpack Format.binary64 n.bits.toBitVec = n.unpacked := by
  have e := unpackExponent_toNat n.bits.toBitVec
  have m := unpackMantissa_toNat n.bits.toBitVec
  have s := ofBitVec_sign n.bits.toBitVec
  have field : n.magnitude / exponentWeight = n.bits.toNat / exponentWeight % 2048 := by
    simp only [magnitude, signWeight, exponentWeight]
    omega
  have fraction : n.magnitude % exponentWeight = n.bits.toNat % exponentWeight := by
    simp only [magnitude, signWeight, exponentWeight]
    omega
  have parts := Nat.div_add_mod n.magnitude exponentWeight
  simp only [UInt64.toNat_toBitVec, ← field, ← fraction] at e m s
  have lead : ((1#1 ++ @UnpackedFloat.unpackMantissa Format.binary64 n.bits.toBitVec) :
      BitVec _).toNat = n.magnitude % exponentWeight + exponentWeight := by
    have low : n.magnitude % exponentWeight < 2 ^ 52 := Nat.mod_lt _ (by decide)
    rw [BitVec.toNat_append, m, ← Nat.shiftLeft_add_eq_or_of_lt (by simpa using low)]
    simp [Nat.shiftLeft_eq, Nat.add_comm]
  have full : @UnpackedFloat.unpackExponent Format.binary64 n.bits.toBitVec =
      -BitVec.ofNat Format.binary64.exponentBits 1 ↔ n.magnitude / exponentWeight = 2047 := by
    rw [← BitVec.toNat_inj, e]
    rfl
  have none : @UnpackedFloat.unpackExponent Format.binary64 n.bits.toBitVec =
      BitVec.ofNat Format.binary64.exponentBits 0 ↔ n.magnitude / exponentWeight = 0 := by
    rw [← BitVec.toNat_inj, e]
    rfl
  have empty : @UnpackedFloat.unpackMantissa Format.binary64 n.bits.toBitVec =
      BitVec.ofNat Format.binary64.mantissaBitsWithoutImplicit 0 ↔
        n.magnitude % exponentWeight = 0 := by
    rw [← BitVec.toNat_inj, m]
    rfl
  have bias : ((Format.binary64.exponentBias : Int) +
      (Format.binary64.mantissaBitsWithoutImplicit : Nat)) = 1075 := rfl
  have real : n.magnitude < 2048 * exponentWeight := n.magnitude_lt
  have limit : infinite = 2047 * exponentWeight := rfl
  simp only [exponentWeight] at *
  unfold UnpackedFloat.unpack unpacked
  by_cases top : n.magnitude / 0x10000000000000 = 2047
  · rw [if_pos (full.2 top)]
    by_cases vanishes : n.magnitude % 0x10000000000000 = 0
    · rw [if_pos (empty.2 vanishes), if_neg (by omega), if_pos (by omega), s, isNegative, signWeight]
    · rw [if_neg (mt empty.1 vanishes), if_pos (by omega)]
  · rw [if_neg (mt full.1 top)]
    by_cases low : n.magnitude / 0x10000000000000 = 0
    · rw [if_pos (none.2 low)]
      by_cases vanishes : n.magnitude % 0x10000000000000 = 0
      · rw [dif_pos (empty.2 vanishes), if_neg (by omega), if_neg (by omega), dif_pos (by omega), s]
        rfl
      · rw [dif_neg (mt empty.1 vanishes), if_neg (by omega), if_neg (by omega), dif_neg (by omega)]
        refine finite_congr s ?_ ?_
        · rw [m, significand, exponentWeight, if_pos (by omega)]
          omega
        · rw [e, bias, exponent, exponentWeight]
          omega
    · rw [if_neg (mt none.1 low), if_neg (by omega), if_neg (by omega), dif_neg (by omega)]
      refine finite_congr s ?_ ?_
      · rw [lead, significand, exponentWeight, if_neg (by omega)]
      · rw [e, bias, exponent, exponentWeight]
        omega

def negativeOf : Sign → Bool
  | .negative => true
  | .positive => false

theorem negativeOf_signOf (negative : Bool) : negativeOf (signOf negative) = negative := by
  cases negative <;> rfl

theorem toBitVec_toNat (s : Sign) :
    s.toBitVec.toNat * signWeight = if negativeOf s then signWeight else 0 := by
  cases s <;> rfl

/-- Bits put together from a sign, an exponent and a fraction. -/
theorem ofBitVec_packComponents (s : Sign) (e : BitVec 11) (m : BitVec 52) :
    (⟨.ofBitVec (packComponents Format.binary64 s e m)⟩ : Number) =
      ofMagnitude (negativeOf s) (e.toNat * exponentWeight + m.toNat) := by
  have he := e.isLt
  have hm := m.isLt
  have bits := packComponents_toNat s e m
  have small : e.toNat * exponentWeight + m.toNat < signWeight := by
    simp only [exponentWeight, signWeight]
    omega
  simp only [ofMagnitude, Number.mk.injEq, ← UInt64.toNat_inj, Nat.mod_eq_of_lt small,
    Nat.toUInt64, UInt64.toNat_ofNat', UInt64.toNat_ofBitVec]
  rw [toBitVec_toNat] at bits
  rw [bits, Nat.mod_eq_of_lt, Nat.add_assoc]
  simp only [signWeight] at *
  split <;> omega

@[simp] theorem packed_notANumber : packed .notANumber = nan := by
  decide

@[simp] theorem packed_infinity (s : Sign) :
    packed (.infinity s) = ofMagnitude (negativeOf s) infinite := by
  cases s <;> decide

@[simp] theorem packed_zero (s : Sign) : packed (.zero s) = ofMagnitude (negativeOf s) 0 := by
  cases s <;> decide

/-- The significand has 53 bits, or fewer at the least exponent. -/
structure Rounded (m : Nat) (e : Int) : Prop where
  bits : m < 2 * exponentWeight
  least : -1074 ≤ e
  full : exponentWeight ≤ m ∨ e = -1074

/-- A rounded result is packed with its exponent and fraction next to each other, the leading bit
of the significand counting as one more exponent. -/
theorem packed_finite {m : Nat} {e : Int} (rounded : Rounded m e) (s : Sign) (positive : 0 < m) :
    packed (.finite s m e positive) =
      ofMagnitude (negativeOf s) (min infinite ((e + 1074).toNat * exponentWeight + m)) := by
  obtain ⟨bits, least, full⟩ := rounded
  have infinity : infinite = 2047 * exponentWeight := rfl
  have bias : e + Format.binary64.exponentBias + Format.binary64.mantissaBitsWithoutImplicit =
      e + 1075 := by
    rw [Int.add_assoc]
    rfl
  have width : Format.binary64.mantissaBits = 53 := rfl
  have top : 2 ^ Format.binary64.exponentBits = 2048 := rfl
  have leading : m.log2 + 1 = 53 ↔ exponentWeight ≤ m := by
    have low := Nat.le_log2 (Nat.ne_of_gt positive) (k := 52)
    have high := Nat.log2_lt (Nat.ne_of_gt positive) (k := 53)
    simp only [exponentWeight] at *
    omega
  unfold packed UnpackedFloat.pack
  simp only [bias, width, top]
  by_cases large : 2048 ≤ (e + 1075).toNat + 1
  · rw [if_pos large]
    have past : exponentWeight ≤ m := full.resolve_right (by omega)
    have full : infinite ≤ (e + 1074).toNat * exponentWeight + m := by
      simp only [exponentWeight] at *
      omega
    rw [Nat.min_eq_left full]
    exact packed_infinity s
  · rw [if_neg large]
    have below : (e + 1074).toNat * exponentWeight + m < infinite := by
      simp only [exponentWeight] at *
      omega
    rw [Nat.min_eq_right (Nat.le_of_lt below)]
    have fraction : (BitVec.ofNat 52 m).toNat = m % exponentWeight := BitVec.toNat_ofNat _ _
    by_cases normal : exponentWeight ≤ m
    · have field : (BitVec.ofNat 11 (e + 1075).toNat).toNat = (e + 1075).toNat := by
        rw [BitVec.toNat_ofNat, Nat.mod_eq_of_lt]
        omega
      rw [if_pos (leading.2 normal), ofBitVec_packComponents, field, fraction]
      refine congrArg _ ?_
      simp only [exponentWeight] at bits normal ⊢
      omega
    · rw [if_neg (mt leading.1 normal), ofBitVec_packComponents, fraction]
      refine congrArg _ ?_
      have least := full.resolve_left normal
      have none : (e + 1074).toNat = 0 := by omega
      have small : m % exponentWeight = m := Nat.mod_eq_of_lt (Nat.lt_of_not_le normal)
      rw [none, small, BitVec.toNat_zero]

theorem magnitude_ofMagnitude_of_le {negative : Bool} {m : Nat} (real : m ≤ infinite) :
    (ofMagnitude negative m).magnitude = m := by
  rw [magnitude_ofMagnitude, Nat.mod_eq_of_lt]
  exact Nat.lt_of_le_of_lt real (by decide)

theorem rounded_significand (n : Number) : Rounded n.significand n.exponent where
  bits := n.significand_lt
  least := by
    simp only [exponent]
    omega
  full := by
    simp only [significand, exponent, exponentWeight]
    split
    · right
      omega
    · left
      omega

/-- What was taken apart is put together again. -/
theorem packed_unpacked {n : Number} (real : n.magnitude ≤ infinite) : packed n.unpacked = n := by
  unfold unpacked
  rw [if_neg (Nat.not_lt.2 real)]
  by_cases infinity : n.magnitude = infinite
  · rw [if_pos infinity, packed_infinity, negativeOf_signOf]
    apply eq_of_magnitude (isNegative_ofMagnitude _ _)
    rw [magnitude_ofMagnitude_of_le (Nat.le_refl _), infinity]
  · rw [if_neg infinity]
    by_cases zero : n.magnitude = 0
    · rw [dif_pos zero, packed_zero, negativeOf_signOf]
      apply eq_of_magnitude (isNegative_ofMagnitude _ _)
      rw [magnitude_ofMagnitude_of_le (Nat.zero_le _), zero]
    · rw [dif_neg zero, packed_finite (rounded_significand n), negativeOf_signOf]
      apply eq_of_magnitude (isNegative_ofMagnitude _ _)
      rw [magnitude_ofMagnitude_of_le (Nat.min_le_left _ _)]
      have parts := n.magnitude_eq
      have scale : (n.exponent + 1074).toNat = n.scale - 1 := by
        simp only [exponent, Number.scale]
        omega
      rw [scale, ← parts]
      omega

/-- The payload of a not-a-number is lost, and nothing else. -/
theorem unpacked_packed (n : Number) : (packed n.unpacked).unpacked = n.unpacked := by
  by_cases beyond : infinite < n.magnitude
  · have parts : n.unpacked = .notANumber := by rw [unpacked, if_pos beyond]
    have quiet : infinite < nan.magnitude := by decide
    rw [parts, packed_notANumber, unpacked, if_pos quiet]
  · rw [packed_unpacked (Nat.le_of_not_lt beyond)]

/-! ## The machine's operations -/

theorem toModel_unpack (n : Number) : n.toFloat.toModel.unpack = n.unpacked := by
  have again := unpack_bits (packed n.unpacked)
  rw [unpacked_packed, packed, ← unpack_bits n] at again
  rw [← unpack_bits n]
  exact again

theorem mul_eq (a b : Number) :
    a.mul b = packed (UnpackedFloat.mul Format.binary64 a.unpacked b.unpacked) := by
  rw [← toModel_unpack a, ← toModel_unpack b]
  rfl

theorem add_eq (a b : Number) :
    a.add b = packed (UnpackedFloat.add Format.binary64 a.unpacked b.unpacked) := by
  rw [← toModel_unpack a, ← toModel_unpack b]
  rfl

theorem div_eq (a b : Number) :
    a.div b = packed (UnpackedFloat.div Format.binary64 a.unpacked b.unpacked) := by
  rw [← toModel_unpack a, ← toModel_unpack b]
  rfl

/-! ## Rounding -/

/-- Scaling both operands does not change which natural is nearest. -/
theorem roundDiv_mul_right (num den : Nat) {c : Nat} (positive : 0 < c) :
    roundDiv (num * c) (den * c) = roundDiv num den := by
  have less (a b : Nat) : 2 * (a * c) < b * c ↔ 2 * a < b := by
    rw [← Nat.mul_assoc, Nat.mul_lt_mul_right positive]
  have more (a b : Nat) : b * c < 2 * (a * c) ↔ b < 2 * a := by
    rw [← Nat.mul_assoc, Nat.mul_lt_mul_right positive]
  simp only [roundDiv, Nat.mul_div_mul_right _ _ positive, Nat.mul_mod_mul_right, less, more]

/-- Powers of two in both operands count by their difference only. -/
theorem roundDiv_two_pow (m : Nat) {a b a' b' : Nat} (same : a + b' = a' + b) :
    roundDiv (m * 2 ^ a) (2 ^ b) = roundDiv (m * 2 ^ a') (2 ^ b') := by
  rw [← roundDiv_mul_right _ _ (Nat.two_pow_pos b'),
    ← roundDiv_mul_right _ (2 ^ b') (Nat.two_pow_pos b), Nat.mul_assoc, Nat.mul_assoc]
  simp only [← Nat.pow_add, same, Nat.add_comm b b']

/-- What shifting keeps of the bits it drops. -/
theorem shifted_eq (m k : Nat) :
    (ExtendedMantissa.ofMantissaAndAccuracy m .exact) >>> k =
      ⟨m / 2 ^ k, decide (2 ^ k ≤ 2 * (m % 2 ^ k)),
        decide (m % 2 ^ k ≠ 0 ∧ 2 * (m % 2 ^ k) ≠ 2 ^ k)⟩ := by
  induction k with
  | zero => simp [HShiftRight.hShiftRight, Nat.repeat, ExtendedMantissa.ofMantissaAndAccuracy,
      Nat.mod_one]
  | succ k ih =>
    have next : (ExtendedMantissa.ofMantissaAndAccuracy m .exact) >>> (k + 1) =
      ((ExtendedMantissa.ofMantissaAndAccuracy m .exact) >>> k).shiftRightOne := rfl
    rw [next, ih, ExtendedMantissa.shiftRightOne]
    have power := Nat.two_pow_pos k
    have below := Nat.mod_lt m power
    have split : m % 2 ^ (k + 1) = m % 2 ^ k + 2 ^ k * (m / 2 ^ k % 2) := by
      rw [Nat.pow_succ, Nat.mod_mul]
    have double : 2 ^ (k + 1) = 2 * 2 ^ k := by rw [Nat.pow_succ, Nat.mul_comm]
    have quotient : m / 2 ^ k / 2 = m / 2 ^ (k + 1) := by
      rw [Nat.div_div_eq_div_mul, Nat.pow_succ]
    rw [quotient, split]
    simp only [double]
    generalize 2 ^ k = p at *
    generalize m % p = r at *
    obtain even | odd := Nat.mod_two_eq_zero_or_one (m / p)
    · rw [even]
      congr 1
      · exact (decide_eq_false (by omega)).symm
      · rw [← Bool.decide_or, decide_eq_decide]
        omega
    · rw [odd]
      congr 1
      · exact (decide_eq_true (by omega)).symm
      · rw [← Bool.decide_or, decide_eq_decide]
        omega

/-- Shifting bits out and rounding is rounding the quotient. -/
theorem roundedMantissa_shifted (m k : Nat) :
    ((ExtendedMantissa.ofMantissaAndAccuracy m .exact) >>> k).roundedMantissa =
      roundDiv m (2 ^ k) := by
  rw [shifted_eq]
  have power := Nat.two_pow_pos k
  simp only [ExtendedMantissa.roundedMantissa, roundDiv]
  generalize 2 ^ k = p at *
  generalize m % p = r at *
  generalize m / p = q at *
  by_cases half : p ≤ 2 * r
  · by_cases tie : 2 * r = p
    · have bits : decide (r ≠ 0 ∧ 2 * r ≠ p) = false := by simp [tie]
      rw [bits, decide_eq_true half, if_neg (by omega), if_neg (by omega)]
      change q + q % 2 = _
      obtain even | odd := Nat.mod_two_eq_zero_or_one q
      · simp [even]
      · simp [odd]
    · have bits : decide (r ≠ 0 ∧ 2 * r ≠ p) = true := by
        simp [tie]
        omega
      rw [bits, decide_eq_true half, if_neg (by omega), if_pos (by omega)]
      rfl
  · rw [decide_eq_false half, if_pos (by omega)]
    cases decide (r ≠ 0 ∧ 2 * r ≠ p)
    · rfl
    · rfl

theorem div_le_roundDiv (num den : Nat) : num / den ≤ roundDiv num den := by
  simp only [roundDiv]
  split
  · exact Nat.le_refl _
  · split
    · exact Nat.le_succ _
    · split
      · exact Nat.le_refl _
      · exact Nat.le_succ _

theorem roundDiv_le_succ (num den : Nat) : roundDiv num den ≤ num / den + 1 := by
  simp only [roundDiv]
  split
  · exact Nat.le_succ _
  · split
    · exact Nat.le_refl _
    · split
      · exact Nat.le_succ _
      · exact Nat.le_refl _

/-- The exponent of the last place of a double that is `m * 2 ^ e`, rounded. -/
def lastPlace (m : Nat) (e : Int) : Int := max (m.log2 + e - 52) (-1074)

theorem targetExponent_eq (m : Nat) (e : Int) :
    Format.binary64.targetExponent (totalExponent m e) = lastPlace m e := by
  have width : (Format.binary64.mantissaBits : Int) = 53 := rfl
  have least : Format.binary64.minExponent = -1074 := rfl
  rw [Format.targetExponent, totalExponent, width, least, lastPlace]
  omega

/-- A significand that fits is shifted out of no bits, but one that was carried into. -/
theorem shiftToTargetExponent_of_le {m : Nat} {e : Int} (least : -1074 ≤ e)
    (small : m ≤ 2 * exponentWeight) :
    UnpackedFloat.shiftToTargetExponent Format.binary64 m e .exact =
      if m = 2 * exponentWeight then (⟨exponentWeight, false, false⟩, e + 1)
      else (⟨m, false, false⟩, e) := by
  rw [UnpackedFloat.shiftToTargetExponent, targetExponent_eq, UnpackedFloat.shiftToExponent]
  split
  · rename_i carried
    have log : Nat.log2 (2 * exponentWeight) = 53 := by decide
    have last : lastPlace m e = e + 1 := by
      rw [lastPlace, carried, log]
      omega
    have one : (e + 1 - e).toNat = 1 := by omega
    rw [last, one, carried]
    rfl
  · rename_i fits
    have log : m.log2 < 53 := by
      rcases Nat.eq_zero_or_pos m with rfl | positive
      · decide
      · apply (Nat.log2_lt (Nat.ne_of_gt positive)).2
        simp only [exponentWeight] at *
        omega
    have none : (lastPlace m e - e).toNat = 0 := by
      rw [lastPlace]
      omega
    rw [none]
    simp [HShiftRight.hShiftRight, Nat.repeat, ExtendedMantissa.ofMantissaAndAccuracy]

/-- A significand shifted to its last place has 53 bits, or fewer at the least exponent. -/
theorem rounded_bounds {m : Nat} {e : Int} (positive : m ≠ 0) (low : e ≤ lastPlace m e) :
    roundDiv m (2 ^ (lastPlace m e - e).toNat) ≤ 2 * exponentWeight ∧
      (exponentWeight ≤ roundDiv m (2 ^ (lastPlace m e - e).toNat) ∨ lastPlace m e = -1074) := by
  have above := roundDiv_le_succ m (2 ^ (lastPlace m e - e).toNat)
  have below := div_le_roundDiv m (2 ^ (lastPlace m e - e).toNat)
  constructor
  · have short : m / 2 ^ (lastPlace m e - e).toNat < 2 ^ 53 := by
      apply Nat.div_lt_of_lt_mul
      rw [← Nat.pow_add]
      apply Nat.lt_of_lt_of_le Nat.lt_log2_self
      apply Nat.pow_le_pow_right (by decide)
      simp only [lastPlace] at *
      omega
    simp only [exponentWeight]
    omega
  · by_cases least : lastPlace m e = -1074
    · exact .inr least
    · left
      apply Nat.le_trans _ below
      apply (Nat.le_div_iff_mul_le (Nat.two_pow_pos _)).2
      have exact_ : 52 + (lastPlace m e - e).toNat = m.log2 := by
        simp only [lastPlace] at *
        omega
      calc exponentWeight * 2 ^ (lastPlace m e - e).toNat
          = 2 ^ 52 * 2 ^ (lastPlace m e - e).toNat := rfl
        _ = 2 ^ m.log2 := by rw [← Nat.pow_add, exact_]
        _ ≤ m := Nat.log2_self_le positive

/-- A significand that was rounded is packed, whether it was carried into or not. -/
theorem packed_carried {r : Nat} {e : Int} (s : Sign) (least : -1074 ≤ e)
    (bits : r ≤ 2 * exponentWeight) (full : exponentWeight ≤ r ∨ e = -1074) :
    let final := UnpackedFloat.shiftToTargetExponent Format.binary64 r e .exact
    packed (if zero : final.1.mantissa = 0 then .zero s
      else .finite s final.1.mantissa final.2 (Nat.pos_of_ne_zero zero)) =
      ofMagnitude (negativeOf s) (min infinite ((e + 1074).toNat * exponentWeight + r)) := by
  intro final
  have shifted : final = _ := shiftToTargetExponent_of_le least bits
  clear_value final
  by_cases carried : r = 2 * exponentWeight
  · rw [if_pos carried] at shifted
    subst shifted
    have whole : exponentWeight ≠ 0 := by decide
    have one : (e + 1 + 1074).toNat = (e + 1074).toNat + 1 := by omega
    have carry : (e + 1 + 1074).toNat * exponentWeight + exponentWeight =
        (e + 1074).toNat * exponentWeight + r := by
      rw [carried, one, Nat.add_mul, Nat.one_mul, Nat.add_assoc, Nat.two_mul]
    have rounded : Rounded exponentWeight (e + 1) := ⟨by decide, by omega, .inl (Nat.le_refl _)⟩
    rw [dif_neg whole, packed_finite rounded, carry]
  · rw [if_neg carried] at shifted
    subst shifted
    by_cases zero : r = 0
    · have least : e = -1074 := full.resolve_left (by rw [zero]; decide)
      rw [dif_pos zero, packed_zero, zero, least]
      rfl
    · rw [dif_neg zero, packed_finite ⟨by omega, least, full⟩]

/-- The machine rounds to the nearest double: the quotient at the last place, a half to even. -/
theorem packed_roundWithAccuracy {m : Nat} {e : Int} (s : Sign) (positive : m ≠ 0)
    (low : e ≤ lastPlace m e) :
    packed (UnpackedFloat.roundWithAccuracy Format.binary64 s m e .exact) =
      ofMagnitude (negativeOf s) (min infinite ((lastPlace m e + 1074).toNat * exponentWeight +
        roundDiv m (2 ^ (lastPlace m e - e).toNat))) := by
  obtain ⟨bits, full⟩ := rounded_bounds positive low
  have there : e + (lastPlace m e - e).toNat = lastPlace m e := by omega
  have first : UnpackedFloat.shiftToTargetExponent Format.binary64 m e .exact =
      (ExtendedMantissa.ofMantissaAndAccuracy m .exact >>> (lastPlace m e - e).toNat,
        lastPlace m e) := by
    rw [UnpackedFloat.shiftToTargetExponent, targetExponent_eq, UnpackedFloat.shiftToExponent,
      there]
  have least : -1074 ≤ lastPlace m e := Int.le_max_right _ _
  rw [← packed_carried s least bits full]
  rw [UnpackedFloat.roundWithAccuracy, first]
  dsimp only
  rw [roundedMantissa_shifted]

/-- The double nearest to `m * 2 ^ e`. -/
def dyadic (negative : Bool) (m : Nat) (e : Int) : Number :=
  ofRatio negative (m * 2 ^ e.toNat) (2 ^ (-e).toNat)

theorem log2_mul_two_pow {m : Nat} (positive : m ≠ 0) (k : Nat) :
    (m * 2 ^ k).log2 = m.log2 + k := by
  have power := Nat.two_pow_pos k
  apply (Nat.log2_eq_iff (Nat.mul_ne_zero positive (Nat.ne_of_gt power))).2
  constructor
  · rw [Nat.pow_add]
    exact Nat.mul_le_mul_right _ (Nat.log2_self_le positive)
  · rw [Nat.add_right_comm, Nat.pow_add]
    exact Nat.mul_lt_mul_of_pos_right Nat.lt_log2_self power

theorem ratioLog2_dyadic {m : Nat} (positive : m ≠ 0) (e : Int) :
    ratioLog2 (m * 2 ^ e.toNat) (2 ^ (-e).toNat) = m.log2 + e := by
  have guess : ((m * 2 ^ e.toNat).log2 : Int) - (2 ^ (-e).toNat).log2 = m.log2 + e := by
    rw [log2_mul_two_pow positive, Nat.log2_two_pow]
    omega
  have low (k : Nat) : 2 ^ (m.log2 + k) ≤ m * 2 ^ k := by
    rw [Nat.pow_add]
    exact Nat.mul_le_mul_right _ (Nat.log2_self_le positive)
  simp only [ratioLog2, guess, Nat.shiftLeft_eq]
  rw [if_neg]
  split
  · have power : (-e).toNat = m.log2 + (e.toNat + (-(m.log2 + e)).toNat) := by omega
    rw [Nat.not_lt, Nat.mul_assoc, ← Nat.pow_add, power]
    exact low _
  · have power : (-e).toNat + (m.log2 + e).toNat = m.log2 + e.toNat := by omega
    rw [Nat.not_lt, ← Nat.pow_add, power]
    exact low _

/-- Rounding a dyadic number: the quotient at its last place, or all of its bits. -/
theorem roundRatio_dyadic {m : Nat} (positive : m ≠ 0) (e : Int) :
    roundRatio (m * 2 ^ e.toNat) (2 ^ (-e).toNat) =
      min infinite ((lastPlace m e + 1074).toNat * exponentWeight +
        roundDiv (m * 2 ^ (e - lastPlace m e).toNat) (2 ^ (lastPlace m e - e).toNat)) := by
  have present : m * 2 ^ e.toNat ≠ 0 := Nat.mul_ne_zero positive (Nat.ne_of_gt (Nat.two_pow_pos _))
  rw [roundRatio, if_neg present, ratioLog2_dyadic positive]
  change min infinite ((lastPlace m e + 1074).toNat * exponentWeight +
    if lastPlace m e < 0 then roundDiv ((m * 2 ^ e.toNat) <<< (-(lastPlace m e)).toNat)
      (2 ^ (-e).toNat)
    else roundDiv (m * 2 ^ e.toNat) (2 ^ (-e).toNat <<< (lastPlace m e).toNat)) = _
  generalize lastPlace m e = t
  refine congrArg (fun r => min infinite ((t + 1074).toNat * exponentWeight + r)) ?_
  simp only [Nat.shiftLeft_eq, Nat.mul_assoc, ← Nat.pow_add]
  split
  · exact roundDiv_two_pow m (by omega)
  · exact roundDiv_two_pow m (by omega)

theorem magnitude_dyadic {m : Nat} (negative : Bool) (positive : m ≠ 0) (e : Int) :
    (dyadic negative m e).magnitude =
      min infinite ((lastPlace m e + 1074).toNat * exponentWeight +
        roundDiv (m * 2 ^ (e - lastPlace m e).toNat) (2 ^ (lastPlace m e - e).toNat)) :=
  (magnitude_ofMagnitude_of_le (roundRatio_le _ _)).trans (roundRatio_dyadic positive e)

theorem lastPlace_mul {m : Nat} (positive : m ≠ 0) (c : Nat) (e : Int) :
    lastPlace (m * 2 ^ c) (e - c) = lastPlace m e := by
  rw [lastPlace, log2_mul_two_pow positive, lastPlace]
  omega

theorem roundRatio_zero (den : Nat) : roundRatio 0 den = 0 := if_pos rfl

/-- A power of two may move between the significand and the exponent. -/
theorem dyadic_mul (negative : Bool) (m c : Nat) (e : Int) :
    dyadic negative (m * 2 ^ c) (e - c) = dyadic negative m e := by
  rw [dyadic, dyadic, ofRatio, ofRatio]
  by_cases zero : m = 0
  · simp only [zero, Nat.zero_mul, roundRatio_zero]
  · have present : m * 2 ^ c ≠ 0 := Nat.mul_ne_zero zero (Nat.ne_of_gt (Nat.two_pow_pos c))
    rw [roundRatio_dyadic present, roundRatio_dyadic zero, lastPlace_mul zero, Nat.mul_assoc,
      ← Nat.pow_add, roundDiv_two_pow m]
    omega

theorem dyadic_zero (negative : Bool) (e : Int) :
    dyadic negative 0 e = ofMagnitude negative 0 := by
  rw [dyadic, Nat.zero_mul, ofRatio, roundRatio_zero]

/-- Rounding as the machine does it, of a number with bits enough, is rounding to the nearest. -/
theorem packed_roundWithAccuracy_eq {m : Nat} {e : Int} (s : Sign) (positive : m ≠ 0)
    (low : e ≤ lastPlace m e) :
    packed (UnpackedFloat.roundWithAccuracy Format.binary64 s m e .exact) =
      dyadic (negativeOf s) m e := by
  have none : (e - lastPlace m e).toNat = 0 := by omega
  rw [packed_roundWithAccuracy s positive low, dyadic, ofRatio, roundRatio_dyadic positive, none,
    Nat.pow_zero, Nat.mul_one]

/-- So it is of any number that is shifted to its last place first. -/
theorem packed_round {m : Nat} (e : Int) (s : Sign) (positive : m ≠ 0) :
    packed (UnpackedFloat.round Format.binary64 s m e) = dyadic (negativeOf s) m e := by
  have power := Nat.two_pow_pos (e - lastPlace m e).toNat
  have present : m * 2 ^ (e - lastPlace m e).toNat ≠ 0 :=
    Nat.mul_ne_zero positive (Nat.ne_of_gt power)
  have low : e - (e - lastPlace m e).toNat ≤
      lastPlace (m * 2 ^ (e - lastPlace m e).toNat) (e - (e - lastPlace m e).toNat) := by
    rw [lastPlace_mul positive]
    omega
  simp only [UnpackedFloat.round, UnpackedFloat.decreaseExponent, targetExponent_eq,
    Nat.shiftLeft_eq]
  rw [packed_roundWithAccuracy_eq s present low, dyadic_mul]

theorem packed_normalize {m : Nat} (e : Int) (s : Sign) (positive : m ≠ 0) :
    packed (UnpackedFloat.normalize Format.binary64 m e s) = dyadic false m e := by
  have more : compare (m : Int) 0 = .gt := Int.compare_eq_gt.2 (by omega)
  rw [UnpackedFloat.normalize, more]
  exact packed_round e .positive positive

/-! ## Sums and products -/

/-- A rounded significand has its last place already. -/
theorem Rounded.lastPlace_eq {m : Nat} {e : Int} (rounded : Rounded m e) (positive : m ≠ 0) :
    lastPlace m e = e := by
  have short := (Nat.log2_lt positive (k := 53)).2 rounded.bits
  have least := rounded.least
  rw [lastPlace]
  obtain full | same := rounded.full
  · have long := (Nat.le_log2 positive (k := 52)).2 full
    omega
  · omega

/-- Its units are the significand, moved to the least exponent. -/
theorem dyadic_units_eq (negative : Bool) (n : Number) :
    dyadic negative n.units (-1074) = dyadic negative n.significand n.exponent := by
  have unit : n.exponent - (n.scale - 1 : Nat) = -1074 := by
    have := n.one_le_scale
    simp only [exponent, scale] at *
    omega
  rw [units, ← unit, dyadic_mul]

/-- A finite number is what its own units are rounded to. -/
theorem dyadic_units {n : Number} (finite : n.magnitude < infinite) :
    dyadic n.isNegative n.units (-1074) = n := by
  rw [dyadic_units_eq]
  by_cases zero : n.magnitude = 0
  · have none : n.significand = 0 := by simp [significand, zero]
    rw [none, dyadic_zero]
    exact eq_of_magnitude (isNegative_ofMagnitude _ _)
      ((magnitude_ofMagnitude_of_le (Nat.zero_le _)).trans zero.symm)
  · have positive := Nat.ne_of_gt (significand_pos zero)
    have exact_ := roundDiv_of_dvd Nat.one_pos (Nat.mod_one n.significand)
    have field : (n.exponent + 1074).toNat = n.scale - 1 := by
      simp only [exponent, scale]
      omega
    rw [dyadic, ofRatio, roundRatio_dyadic positive, (rounded_significand n).lastPlace_eq positive,
      Int.sub_self, Int.toNat_zero, Nat.pow_zero, Nat.mul_one, exact_, Nat.div_one, field,
      ← magnitude_eq, Nat.min_eq_right (Nat.le_of_lt finite)]
    exact eq_of_magnitude (isNegative_ofMagnitude _ _)
      (magnitude_ofMagnitude_of_le (Nat.le_of_lt finite))

theorem unpacked_of_finite {n : Number} (finite : n.magnitude < infinite)
    (positive : n.magnitude ≠ 0) : n.unpacked =
      .finite (signOf n.isNegative) n.significand n.exponent (significand_pos positive) := by
  rw [unpacked, if_neg (by omega), if_neg (by omega), dif_neg positive]

theorem unpacked_of_zero {n : Number} (zero : n.magnitude = 0) :
    n.unpacked = .zero (signOf n.isNegative) := by
  have below : 0 < infinite := by decide
  rw [unpacked, if_neg (by omega), if_neg (by omega), dif_pos zero]

theorem units_of_zero {n : Number} (zero : n.magnitude = 0) : n.units = 0 := by
  rw [units]
  simp [significand, zero]

theorem negativeOf_mul (a b : Bool) : negativeOf (signOf a * signOf b) = (a != b) := by
  cases a <;> cases b <;> rfl

/-- A product of rounded significands has bits enough. -/
theorem Rounded.low_mul {m n : Nat} {e f : Int} (left : Rounded m e) (right : Rounded n f)
    (hm : m ≠ 0) (hn : n ≠ 0) : e + f ≤ lastPlace (m * n) (e + f) := by
  have many (enough : exponentWeight ≤ m * n) : e + f ≤ lastPlace (m * n) (e + f) := by
    have log := (Nat.le_log2 (Nat.mul_ne_zero hm hn) (k := 52)).2 enough
    rw [lastPlace]
    omega
  obtain full | least := left.full
  · exact many (Nat.le_trans full (Nat.le_mul_of_pos_right m (Nat.pos_of_ne_zero hn)))
  · obtain full | least' := right.full
    · exact many (Nat.le_trans full (Nat.le_mul_of_pos_left n (Nat.pos_of_ne_zero hm)))
    · rw [lastPlace]
      omega

section Finite

variable (s s' : Sign) {m m' : Nat} (e e' : Int) (positive : 0 < m) (positive' : 0 < m')

theorem mul_finite : UnpackedFloat.mul Format.binary64 (.finite s m e positive)
    (.finite s' m' e' positive') =
      UnpackedFloat.roundWithAccuracy Format.binary64 (s * s') (m * m') (e + e') .exact := rfl

theorem add_finite : UnpackedFloat.add Format.binary64 (.finite s m e positive)
    (.finite s' m' e' positive') =
      UnpackedFloat.normalize Format.binary64
        (s.apply (UnpackedFloat.decreaseExponent m e (min e e')).1 +
          s'.apply (UnpackedFloat.decreaseExponent m' e' (min e e')).1)
        (min e e') .positive := rfl

theorem div_finite : UnpackedFloat.div Format.binary64 (.finite s m e positive)
    (.finite s' m' e' positive') =
      let quotient := UnpackedFloat.divCore Format.binary64 m e m' e'
      UnpackedFloat.roundWithAccuracy Format.binary64 (s / s') quotient.1 quotient.2.1
        quotient.2.2 := rfl

end Finite

/-- A product of finite numbers is the exact one, rounded. -/
theorem mul_of_finite {a b : Number} (ha : a.magnitude < infinite) (hb : b.magnitude < infinite) :
    a.mul b = dyadic (a.isNegative != b.isNegative) (a.units * b.units) (-2148) := by
  rw [mul_eq]
  by_cases za : a.magnitude = 0
  · rw [units_of_zero za, Nat.zero_mul, dyadic_zero, unpacked_of_zero za, ← negativeOf_mul,
      ← packed_zero]
    by_cases zb : b.magnitude = 0
    · rw [unpacked_of_zero zb]
      rfl
    · rw [unpacked_of_finite hb zb]
      rfl
  · by_cases zb : b.magnitude = 0
    · rw [units_of_zero zb, Nat.mul_zero, dyadic_zero, unpacked_of_zero zb,
        unpacked_of_finite ha za, ← negativeOf_mul, ← packed_zero]
      rfl
    · have pa := Nat.ne_of_gt (significand_pos za)
      have pb := Nat.ne_of_gt (significand_pos zb)
      have low := (rounded_significand a).low_mul (rounded_significand b) pa pb
      have product : a.units * b.units =
          a.significand * b.significand * 2 ^ (a.scale - 1 + (b.scale - 1)) := by
        rw [units, units, Nat.pow_add]
        ac_rfl
      have unit : a.exponent + b.exponent - (a.scale - 1 + (b.scale - 1) : Nat) = -2148 := by
        simp only [exponent, scale]
        omega
      rw [product, ← unit, dyadic_mul, unpacked_of_finite ha za, unpacked_of_finite hb zb,
        mul_finite, packed_roundWithAccuracy_eq _ (Nat.mul_ne_zero pa pb) low,
        negativeOf_mul]

/-- A sum of finite numbers that are not negative is the exact one, rounded. -/
theorem add_of_nonneg {a b : Number} (ha : a.magnitude < infinite) (hb : b.magnitude < infinite)
    (na : a.isNegative = false) (nb : b.isNegative = false) :
    a.add b = dyadic false (a.units + b.units) (-1074) := by
  have self (n : Number) (finite : n.magnitude < infinite) (nonneg : n.isNegative = false) :
      packed n.unpacked = dyadic false n.units (-1074) := by
    rw [packed_unpacked (Nat.le_of_lt finite), ← nonneg, dyadic_units finite]
  rw [add_eq]
  by_cases za : a.magnitude = 0
  · rw [units_of_zero za, Nat.zero_add, ← self b hb nb, unpacked_of_zero za, na]
    by_cases zb : b.magnitude = 0
    · rw [unpacked_of_zero zb, nb]
      rfl
    · rw [unpacked_of_finite hb zb]
      rfl
  · by_cases zb : b.magnitude = 0
    · rw [units_of_zero zb, Nat.add_zero, ← self a ha na, unpacked_of_zero zb,
        unpacked_of_finite ha za]
      rfl
    · have pa := Nat.ne_of_gt (significand_pos za)
      have pb := Nat.ne_of_gt (significand_pos zb)
      rw [unpacked_of_finite ha za, unpacked_of_finite hb zb, na, nb, add_finite]
      simp only [UnpackedFloat.decreaseExponent, Nat.shiftLeft_eq]
      generalize least : min a.exponent b.exponent = e
      have sa := (rounded_significand a).least
      have sb := (rounded_significand b).least
      have shift (n : Number) (above : e ≤ n.exponent) (low : -1074 ≤ e) :
          n.significand * 2 ^ (n.exponent - e).toNat * 2 ^ (e + 1074).toNat = n.units := by
        have places : (n.exponent - e).toNat + (e + 1074).toNat = n.scale - 1 := by
          simp only [exponent, scale] at *
          omega
        rw [units, Nat.mul_assoc, ← Nat.pow_add, places]
      have sum : (a.significand * 2 ^ (a.exponent - e).toNat +
          b.significand * 2 ^ (b.exponent - e).toNat) * 2 ^ (e + 1074).toNat =
          a.units + b.units := by
        rw [Nat.add_mul, shift a (by omega) (by omega), shift b (by omega) (by omega)]
      have unit : e - (e + 1074).toNat = -1074 := by omega
      have present : a.significand * 2 ^ (a.exponent - e).toNat +
          b.significand * 2 ^ (b.exponent - e).toNat ≠ 0 := by
        have := Nat.mul_ne_zero pa (Nat.ne_of_gt (Nat.two_pow_pos (a.exponent - e).toNat))
        omega
      rw [← sum, ← unit, dyadic_mul]
      exact packed_normalize e .positive present

/-! ## Not a number -/

theorem magnitude_dyadic_le (negative : Bool) (m : Nat) (e : Int) :
    (dyadic negative m e).magnitude ≤ infinite := by
  rw [dyadic, ofRatio, magnitude_ofMagnitude_of_le (roundRatio_le _ _)]
  exact roundRatio_le _ _

theorem unpacked_of_infinite {n : Number} (infinity : n.magnitude = infinite) :
    n.unpacked = .infinity (signOf n.isNegative) := by
  rw [unpacked, if_neg (by omega), if_pos infinity]

/-- Among numbers, only the product of zero and infinity is none. -/
theorem isNaN_mul_iff {a b : Number} (ha : a.magnitude ≤ infinite) (hb : b.magnitude ≤ infinite) :
    (a.mul b).isNaN = true ↔ (a.magnitude = infinite ∧ b.magnitude = 0) ∨
      (a.magnitude = 0 ∧ b.magnitude = infinite) := by
  have above : 0 < infinite := by decide
  have none : nan.isNaN = true := by decide
  have number (s : Sign) : (packed (.infinity s)).isNaN = false := by
    rw [packed_infinity, isNaN, magnitude_ofMagnitude_of_le (Nat.le_refl _)]
    exact decide_eq_false (Nat.lt_irrefl _)
  obtain fa | ia := Nat.lt_or_eq_of_le ha
  · obtain fb | ib := Nat.lt_or_eq_of_le hb
    · have real := magnitude_dyadic_le (a.isNegative != b.isNegative) (a.units * b.units) (-2148)
      rw [mul_of_finite fa fb, isNaN, decide_eq_true_eq]
      omega
    · rw [mul_eq, unpacked_of_infinite ib]
      by_cases za : a.magnitude = 0
      · rw [unpacked_of_zero za]
        change (packed .notANumber).isNaN = true ↔ _
        simp [none, za, ib]
      · rw [unpacked_of_finite fa za]
        change (packed (.infinity _)).isNaN = true ↔ _
        rw [number]
        simp [za, ib]
        omega
  · rw [mul_eq, unpacked_of_infinite ia]
    by_cases zb : b.magnitude = 0
    · rw [unpacked_of_zero zb]
      change (packed .notANumber).isNaN = true ↔ _
      simp [none, zb, ia]
    · have apart : a.magnitude ≠ 0 := by omega
      obtain fb | ib := Nat.lt_or_eq_of_le hb
      · rw [unpacked_of_finite fb zb]
        change (packed (.infinity _)).isNaN = true ↔ _
        rw [number]
        simp [zb, apart]
      · rw [unpacked_of_infinite ib]
        change (packed (.infinity _)).isNaN = true ↔ _
        rw [number]
        simp [zb, apart]

/-! ## Infinity -/

theorem unpacked_infinity : infinity.unpacked = .infinity .positive :=
  unpacked_of_infinite (by decide)

/-- Infinity stays what it is under multiplication by a positive number. -/
theorem infinity_mul {b : Number} (hb : b.magnitude < infinite) (positive : b.magnitude ≠ 0)
    (nb : b.isNegative = false) : infinity.mul b = infinity := by
  rw [mul_eq, unpacked_infinity, unpacked_of_finite hb positive, nb]
  exact packed_infinity .positive

/-- And when a finite number is added. -/
theorem infinity_add {b : Number} (hb : b.magnitude < infinite) : infinity.add b = infinity := by
  rw [add_eq, unpacked_infinity]
  by_cases zero : b.magnitude = 0
  · rw [unpacked_of_zero zero]
    exact packed_infinity .positive
  · rw [unpacked_of_finite hb zero]
    exact packed_infinity .positive

/-! ## Powers of two -/

theorem magnitude_twoPow {k : Nat} (small : k < 1024) :
    (twoPow k).magnitude = (k + 1023) * exponentWeight := by
  rw [twoPow, if_pos small, magnitude_ofMagnitude, Nat.mod_eq_of_lt]
  simp only [exponentWeight, signWeight]
  omega

theorem unpacked_twoPow {k : Nat} (small : k < 1024) :
    (twoPow k).unpacked = .finite .positive exponentWeight (k - 52) (by decide) := by
  have magnitude := magnitude_twoPow small
  have infinity : infinite = 2047 * exponentWeight := rfl
  have positive : (twoPow k).magnitude ≠ 0 := by
    rw [magnitude]
    simp only [exponentWeight]
    omega
  have sign : (twoPow k).isNegative = false := by
    rw [twoPow, if_pos small]
    exact isNegative_ofMagnitude _ _
  have significand : (twoPow k).significand = exponentWeight := by
    rw [Number.significand, magnitude]
    simp only [exponentWeight]
    rw [if_neg (by omega)]
    omega
  have exponent : (twoPow k).exponent = k - 52 := by
    rw [Number.exponent, magnitude]
    simp only [exponentWeight]
    omega
  rw [unpacked_of_finite _ positive, sign]
  · exact finite_congr rfl significand exponent
  · rw [magnitude, infinity]
    simp only [exponentWeight]
    omega

/-- A quotient of equal significands is a power of two, and exact. -/
theorem divCore_self {m : Nat} (positive : 0 < m) (e f : Int) :
    ∃ c : Nat, UnpackedFloat.divCore Format.binary64 m e m f = (2 ^ c, e - f - c, .exact) ∧
      (-1074 ≤ e - f → e - f - c ≤ lastPlace (2 ^ c) (e - f - c)) := by
  have total : totalExponent m e - totalExponent m f = e - f := by
    simp only [totalExponent]
    omega
  have target : Format.binary64.targetExponent (e - f) = max (e - f - 53) (-1074) := rfl
  refine ⟨(e - f - min (e - f) (max (e - f - 53) (-1074))).toNat, ?_, ?_⟩
  · simp only [UnpackedFloat.divCore, total, target, Nat.shiftLeft_eq,
      Nat.mul_div_cancel_left _ positive, Nat.mul_mod_right]
    refine Prod.ext rfl (Prod.ext ?_ rfl)
    dsimp only
    omega
  · intro above
    rw [lastPlace, Nat.log2_two_pow]
    omega

/-- The reciprocal of a power of two is exact. -/
theorem one_div_twoPow {k : Nat} (small : k < 1024) :
    (ofNat 1).div (twoPow k) = dyadic false 1 (-k) := by
  have one : ofNat 1 = twoPow 0 := by decide
  obtain ⟨c, core, low⟩ := divCore_self (by decide : 0 < exponentWeight) ((0 : Nat) - 52) (k - 52)
  have exponent : ((0 : Nat) - 52 - (k - 52) : Int) = -k := by omega
  rw [exponent] at core low
  rw [div_eq, one, unpacked_twoPow small, unpacked_twoPow (by decide : 0 < 1024),
    div_finite, core]
  have rounded := packed_roundWithAccuracy_eq (.positive / .positive)
    (Nat.ne_of_gt (Nat.two_pow_pos c)) (low (by omega))
  rw [← dyadic_mul false 1 c, Nat.one_mul]
  exact rounded

end ScriptMachine.Number

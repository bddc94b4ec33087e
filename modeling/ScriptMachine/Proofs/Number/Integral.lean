import Mathlib.Algebra.Group.Nat.Defs
import ScriptMachine.Table.Key

/-!
# Numbers that stand for integers

A finite double is a whole number of the smallest unit, `2 ^ -1074`. Counting in that unit turns
every question about exact values into one about naturals.

* `units_lt_units`: more magnitude is more value, so a value has one magnitude.
* `integer?_eq_some_iff`: the integer of a number is its count of units, divided exactly.
* `integer?_ofNat`: naturals up to `2 ^ 53` are doubles, and come back unchanged.
* `numberBits_eq_of_integer?`: as table keys, numbers with one integer are one key.
* `equals_iff_numberBits`: numbers are equal exactly when they are one key.
-/

namespace ScriptMachine.Number

/-- The exponent field, with the one of the subnormal numbers counted as one. -/
def scale (n : Number) : Nat := max (n.magnitude / exponentWeight) 1

def unitExponent : Nat := 1074

def unitsPerOne : Nat := 2 ^ unitExponent

/-- The absolute value of a finite number in units of `2 ^ -1074`. -/
def units (n : Number) : Nat := n.significand * 2 ^ (n.scale - 1)

theorem unitsPerOne_pos : 0 < unitsPerOne := Nat.two_pow_pos _

theorem one_le_scale (n : Number) : 1 ≤ n.scale := Nat.le_max_right _ _

/-- Sign and magnitude make the number. -/
theorem eq_of_magnitude {a b : Number} (sign : a.isNegative = b.isNegative)
    (same : a.magnitude = b.magnitude) : a = b := by
  have ha := a.bits.toNat_lt
  have hb := b.bits.toNat_lt
  simp only [isNegative, decide_eq_decide, magnitude, signWeight] at sign same
  have bits : a.bits.toNat = b.bits.toNat := by omega
  cases a; cases b
  simpa [UInt64.toNat_inj] using bits

theorem magnitude_ofMagnitude (negative : Bool) (m : Nat) :
    (ofMagnitude negative m).magnitude = m % signWeight := by
  simp only [ofMagnitude, magnitude, Nat.toUInt64, UInt64.toNat_ofNat', signWeight]
  split <;> omega

theorem isNegative_ofMagnitude (negative : Bool) (m : Nat) :
    (ofMagnitude negative m).isNegative = negative := by
  simp only [ofMagnitude, isNegative, Nat.toUInt64, UInt64.toNat_ofNat', signWeight]
  cases negative <;> simp <;> omega

theorem significand_lt (n : Number) : n.significand < 2 * exponentWeight := by
  simp only [significand, exponentWeight]
  split <;> omega

/-- The exponent field and the significand overlap in the leading bit. -/
theorem magnitude_eq (n : Number) :
    n.magnitude = (n.scale - 1) * exponentWeight + n.significand := by
  simp only [significand, scale, exponentWeight]
  split <;> omega

theorem exponentWeight_le_significand {n : Number} (h : 1 < n.scale) :
    exponentWeight ≤ n.significand := by
  simp only [significand, scale, exponentWeight] at *
  split <;> omega

theorem units_lt_units {a b : Number} (h : a.magnitude < b.magnitude) : a.units < b.units := by
  have small := a.significand_lt
  have sa := a.one_le_scale
  have sb := b.one_le_scale
  have ma := a.magnitude_eq
  have mb := b.magnitude_eq
  simp only [exponentWeight] at small ma mb
  by_cases same : a.scale = b.scale
  · rw [units, units, same]
    apply Nat.mul_lt_mul_of_pos_right _ (Nat.two_pow_pos _)
    rw [same] at ma
    omega
  · have larger : a.scale < b.scale := by
      apply Nat.lt_of_le_of_ne _ same
      apply Nat.le_of_not_lt
      intro smaller
      have := b.significand_lt
      have := exponentWeight_le_significand (n := a) (by omega)
      simp only [exponentWeight] at *
      omega
    have normal := exponentWeight_le_significand (n := b) (by omega)
    calc a.units < 2 * exponentWeight * 2 ^ (a.scale - 1) :=
          Nat.mul_lt_mul_of_pos_right a.significand_lt (Nat.two_pow_pos _)
      _ = exponentWeight * 2 ^ (a.scale - 1 + 1) := by rw [Nat.pow_succ]; ac_rfl
      _ ≤ b.significand * 2 ^ (b.scale - 1) :=
          Nat.mul_le_mul normal (Nat.pow_le_pow_right (by decide) (by omega))

theorem magnitude_eq_of_units {a b : Number} (h : a.units = b.units) :
    a.magnitude = b.magnitude := by
  rcases Nat.lt_trichotomy a.magnitude b.magnitude with less | same | more
  · have := units_lt_units less
    omega
  · exact same
  · have := units_lt_units more
    omega

/-- A finite number is the natural `w` exactly when it is so many units. -/
theorem whole_iff {n : Number} (w : Nat) :
    (n.fraction.1 % n.fraction.2 = 0 ∧ n.wholePart = w) ↔ n.units = w * unitsPerOne := by
  have positive := n.one_le_scale
  have exponent : n.exponent = (n.scale : Int) - 1075 := rfl
  simp only [wholePart, fraction, units, exponent, Nat.shiftLeft_eq, Nat.one_mul]
  by_cases low : n.scale < 1075
  · -- the unit of the last place is a fraction
    rw [if_pos (by omega)]
    have shift : (-((n.scale : Int) - 1075)).toNat = 1075 - n.scale := by omega
    have split : unitsPerOne = 2 ^ (1075 - n.scale) * 2 ^ (n.scale - 1) := by
      rw [unitsPerOne, ← Nat.pow_add]
      congr 1
      simp only [unitExponent]
      omega
    have pos := Nat.two_pow_pos (n.scale - 1)
    have pos' := Nat.two_pow_pos (1075 - n.scale)
    simp only [shift]
    rw [split, ← Nat.mul_assoc, Nat.mul_left_inj (Nat.ne_of_gt pos)]
    constructor
    · rintro ⟨exact_, rfl⟩
      exact (Nat.div_mul_cancel (Nat.dvd_of_mod_eq_zero exact_)).symm
    · intro h
      rw [h]
      exact ⟨Nat.mul_mod_left _ _, Nat.mul_div_cancel _ pos'⟩
  · rw [if_neg (by omega)]
    have shift : ((n.scale : Int) - 1075).toNat = n.scale - 1075 := by omega
    have split : 2 ^ (n.scale - 1) = 2 ^ (n.scale - 1075) * unitsPerOne := by
      rw [unitsPerOne, ← Nat.pow_add]
      congr 1
      simp only [unitExponent]
      omega
    simp only [shift, Nat.mod_one, Nat.div_one, true_and]
    rw [split, ← Nat.mul_assoc, Nat.mul_left_inj (Nat.ne_of_gt unitsPerOne_pos)]

theorem integer?_eq_some_iff {n : Number} {i : Int} :
    n.integer? = some i ↔ n.isFinite = true ∧ n.units = i.natAbs * unitsPerOne ∧
      i = if n.isNegative then -(i.natAbs : Int) else i.natAbs := by
  simp only [integer?, isIntegral, Bool.and_eq_true, beq_iff_eq]
  constructor
  · intro h
    split at h
    · rename_i integral
      obtain rfl := Option.some.inj h
      have abs : (if n.isNegative = true then -(n.wholePart : Int) else n.wholePart).natAbs =
          n.wholePart := by split <;> omega
      rw [abs]
      exact ⟨integral.1, (whole_iff _).1 ⟨integral.2, rfl⟩, rfl⟩
    · cases h
  · rintro ⟨finite, units, sign⟩
    obtain ⟨exact_, whole⟩ := (whole_iff _).2 units
    rw [if_pos ⟨finite, exact_⟩, whole, ← sign]

theorem roundRatio_le (num den : Nat) : roundRatio num den ≤ infinite := by
  simp only [roundRatio]
  split
  · exact Nat.zero_le _
  · exact Nat.min_le_left _ _

theorem roundDiv_of_dvd {num den : Nat} (positive : 0 < den) (exact_ : num % den = 0) :
    roundDiv num den = num / den := by
  simp only [roundDiv, exact_]
  rw [if_pos (by omega)]

theorem ratioLog2_one {n : Nat} (positive : 0 < n) : ratioLog2 n 1 = n.log2 := by
  have low := Nat.log2_self_le (Nat.ne_of_gt positive)
  have one : Nat.log2 1 = 0 := by decide
  simp only [ratioLog2, Nat.shiftLeft_eq, Nat.one_mul, one, Int.natCast_zero, Int.sub_zero,
    Int.toNat_natCast]
  have nonneg : ¬ ((n.log2 : Int) < 0) := by omega
  simp [nonneg, Nat.not_lt.2 low]

/-- The magnitude of a positive natural up to `2 ^ 53`: no bit is lost. -/
theorem roundRatio_of_le {n : Nat} (positive : 0 < n) (small : n ≤ 2 ^ 53) :
    ∃ m, roundRatio n 1 = (n.log2 + 1022) * exponentWeight + m ∧ exponentWeight ≤ m ∧
      m < 2 * exponentWeight ∧ m * 2 ^ n.log2 = n * exponentWeight ∧ n.log2 ≤ 53 := by
  have low := Nat.log2_self_le (Nat.ne_of_gt positive)
  have high := Nat.lt_log2_self (n := n)
  have log : n.log2 ≤ 53 := by
    apply Nat.le_of_not_lt
    intro large
    have := Nat.pow_le_pow_right (n := 2) (by decide) large
    omega
  have scale : max ((n.log2 : Int) - 52) (-1074) = (n.log2 : Int) - 52 := by omega
  have infinity : infinite = 2047 * exponentWeight := rfl
  simp only [roundRatio, Nat.ne_of_gt positive, if_false, ratioLog2_one positive, scale]
  -- the significand, whichever way it is shifted
  obtain ⟨m, hm, exact_⟩ : ∃ m, (if (n.log2 : Int) - 52 < 0 then
        roundDiv (n <<< (-((n.log2 : Int) - 52)).toNat) 1
      else roundDiv n (1 <<< ((n.log2 : Int) - 52).toNat)) = m ∧
        m * 2 ^ n.log2 = n * exponentWeight := by
    by_cases short : n.log2 < 52
    · have shift : (-((n.log2 : Int) - 52)).toNat = 52 - n.log2 := by omega
      refine ⟨_, rfl, ?_⟩
      rw [if_pos (by omega), shift, roundDiv_of_dvd (by decide) (Nat.mod_one _), Nat.div_one,
        Nat.shiftLeft_eq, Nat.mul_assoc, ← Nat.pow_add, Nat.sub_add_cancel (by omega)]
    · rw [if_neg (by omega)]
      by_cases full : n.log2 = 52
      · have shift : ((n.log2 : Int) - 52).toNat = 0 := by omega
        have weight : 2 ^ n.log2 = exponentWeight := (congrArg (2 ^ ·) full).trans (by decide)
        refine ⟨_, rfl, ?_⟩
        rw [shift, Nat.shiftLeft_zero, roundDiv_of_dvd (by decide) (Nat.mod_one _), Nat.div_one,
          weight]
      · -- only the bound itself has 54 bits
        have top : n.log2 = 53 := by omega
        obtain rfl : n = 2 ^ 53 := by rw [top] at low; omega
        exact ⟨2 ^ 52, by decide, by decide⟩
  rw [hm]
  have lower : exponentWeight ≤ m := by
    apply Nat.le_of_mul_le_mul_right _ (Nat.two_pow_pos n.log2)
    rw [exact_, Nat.mul_comm]
    exact Nat.mul_le_mul_right _ low
  have upper : m < 2 * exponentWeight := by
    apply Nat.lt_of_mul_lt_mul_right (a := 2 ^ n.log2)
    rw [exact_]
    calc n * exponentWeight < 2 ^ (n.log2 + 1) * exponentWeight :=
          Nat.mul_lt_mul_of_pos_right high (by decide)
      _ = 2 * exponentWeight * 2 ^ n.log2 := by rw [Nat.pow_succ]; ac_rfl
  refine ⟨m, ?_, lower, upper, exact_, log⟩
  have shift : ((n.log2 : Int) - 52 + 1074).toNat = n.log2 + 1022 := by omega
  rw [shift]
  simp only [infinity, exponentWeight] at *
  omega

theorem isNegative_ofNat (n : Nat) : (ofNat n).isNegative = false := isNegative_ofMagnitude _ _

theorem integer?_ofNat {n : Nat} (small : n ≤ 2 ^ 53) : (ofNat n).integer? = some (n : Int) := by
  rcases Nat.eq_zero_or_pos n with rfl | positive
  · decide
  · obtain ⟨m, round, lower, upper, exact_, log⟩ := roundRatio_of_le positive small
    have magnitude : (ofNat n).magnitude = (n.log2 + 1022) * exponentWeight + m := by
      rw [ofNat, ofRatio, magnitude_ofMagnitude, round, Nat.mod_eq_of_lt]
      simp only [exponentWeight, signWeight] at *
      omega
    have significand : (ofNat n).significand = m := by
      simp only [Number.significand, magnitude, exponentWeight] at *
      rw [if_neg (by omega)]
      omega
    have scale : (ofNat n).scale = n.log2 + 1023 := by
      simp only [Number.scale, magnitude, exponentWeight] at *
      omega
    apply integer?_eq_some_iff.2
    refine ⟨?_, ?_, ?_⟩
    · simp only [isFinite, infinite, magnitude, exponentWeight, decide_eq_true_eq] at *
      omega
    · have power : n.log2 + 1023 - 1 = n.log2 + (unitExponent - 52) := by
        simp only [unitExponent]
        omega
      have one : unitsPerOne = exponentWeight * 2 ^ (unitExponent - 52) := by
        have weight : exponentWeight = 2 ^ 52 := by decide
        have whole : 52 + (unitExponent - 52) = unitExponent := by decide
        rw [weight, ← Nat.pow_add, whole, unitsPerOne]
      rw [units, significand, scale, Int.natAbs_natCast, one, power, Nat.pow_add, ← Nat.mul_assoc,
        exact_, Nat.mul_assoc]
    · simp [isNegative_ofNat]

open Key (numberBits)

/-- Numbers are one key when they have one magnitude, and one sign unless they are zero. -/
theorem numberBits_eq_iff {a b : Number} : numberBits a = numberBits b ↔
    a.magnitude = b.magnitude ∧ (a.magnitude = 0 ∨ a.isNegative = b.isNegative) := by
  have canonical (n : Number) : (⟨numberBits n⟩ : Number).magnitude = n.magnitude ∧
      (⟨numberBits n⟩ : Number).isNegative = (n.isNegative && n.magnitude != 0) := by
    simp only [numberBits, isZero, beq_iff_eq]
    split
    · rename_i zero
      simp only [zero, bne_self_eq_false, Bool.and_false]
      exact ⟨by decide, by decide⟩
    · rename_i nonzero
      simp [nonzero]
  constructor
  · intro h
    have same : (⟨numberBits a⟩ : Number) = ⟨numberBits b⟩ := by rw [h]
    have magnitude := congrArg Number.magnitude same
    have sign := congrArg Number.isNegative same
    rw [(canonical a).1, (canonical b).1] at magnitude
    rw [(canonical a).2, (canonical b).2, ← magnitude] at sign
    refine ⟨magnitude, ?_⟩
    by_cases zero : a.magnitude = 0
    · exact .inl zero
    · have nonzero : (a.magnitude != 0) = true := by simpa using zero
      rw [nonzero, Bool.and_true, Bool.and_true] at sign
      exact .inr sign
  · rintro ⟨magnitude, sign⟩
    have same : (⟨numberBits a⟩ : Number) = ⟨numberBits b⟩ := by
      apply eq_of_magnitude
      · rw [(canonical a).2, (canonical b).2, ← magnitude]
        rcases sign with zero | sign
        · simp [zero]
        · rw [sign]
      · rw [(canonical a).1, (canonical b).1, magnitude]
    exact congrArg Number.bits same

/-- As keys, numbers with one integer are one key. -/
theorem numberBits_eq_of_integer? {a b : Number} {i : Int} (ha : a.integer? = some i)
    (hb : b.integer? = some i) : numberBits a = numberBits b := by
  obtain ⟨_, unitsA, signA⟩ := integer?_eq_some_iff.1 ha
  obtain ⟨_, unitsB, signB⟩ := integer?_eq_some_iff.1 hb
  have magnitude := magnitude_eq_of_units (unitsA.trans unitsB.symm)
  refine numberBits_eq_iff.2 ⟨magnitude, ?_⟩
  by_cases vanishes : i = 0
  · left
    have none : a.units = zero.units := by
      rw [unitsA, vanishes, Int.natAbs_zero, Nat.zero_mul]
      rfl
    exact magnitude_eq_of_units none
  · right
    cases na : a.isNegative <;> cases nb : b.isNegative <;>
      simp only [na, nb, if_true, if_false, Bool.false_eq_true] at signA signB ⊢ <;> omega

/-- The integer of a number depends on its key only. -/
theorem integer?_eq_of_numberBits {a b : Number} (h : numberBits a = numberBits b) :
    a.integer? = b.integer? := by
  obtain ⟨magnitude, zero | sign⟩ := numberBits_eq_iff.1 h
  · have finite (n : Number) (zero : n.magnitude = 0) : n.integer? = some 0 := by
      apply integer?_eq_some_iff.2
      simp [isFinite, infinite, units, significand, zero]
    rw [finite a zero, finite b (magnitude ▸ zero)]
  · rw [eq_of_magnitude sign magnitude]

/-- Two numbers are equal exactly when both are numbers and one key. -/
theorem equals_iff_numberBits {a b : Number} : a.equals b = true ↔
    a.isNaN = false ∧ b.isNaN = false ∧ numberBits a = numberBits b := by
  rw [numberBits_eq_iff]
  simp only [equals, Bool.and_eq_true, Bool.not_eq_true', beq_iff_eq, orderKey, and_assoc,
    and_congr_right_iff]
  intro _ _
  cases a.isNegative <;> cases b.isNegative <;> simp <;> omega

/-- To be equal to a number is to be one key with it. -/
theorem equals_iff_of_real {a b : Number} (real : b.isNaN = false) :
    a.equals b = true ↔ numberBits a = numberBits b := by
  rw [equals_iff_numberBits]
  constructor
  · exact fun h => h.2.2
  · intro same
    refine ⟨?_, real, same⟩
    rw [isNaN, (numberBits_eq_iff.1 same).1]
    exact real

end ScriptMachine.Number

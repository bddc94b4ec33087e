import ScriptMachine.Proofs.Number.Arithmetic

/-!
# Naturals in doubles

A double holds 53 bits. What becomes of a natural with more of them, and of sums and products of
naturals that are held.

* `nearest`: the natural that a double makes of a natural.
* `two_pow_le_nearest_iff`: which naturals are rounded to a power of two or more.
* `ofNat_of_lt`, `ofNat_of_le`: below `2 ^ 1024` a natural's double is that natural, from there on
  infinity.
* `ofNat_mul`, `ofNat_add`: the machine's operations on naturals.
-/

namespace ScriptMachine.Number

/-- An even natural is at most a rounded quotient from half a unit below on: the half goes to
it. -/
theorem le_roundDiv_iff {n : Nat} (even : n % 2 = 0) (num : Nat) {den : Nat} (positive : 0 < den) :
    n ≤ roundDiv num den ↔ 2 * (n * den) ≤ 2 * num + den := by
  have parts := Nat.div_add_mod num den
  have below := Nat.mod_lt num positive
  simp only [roundDiv]
  generalize num / den = q at *
  generalize num % den = r at *
  -- `n` against the quotient and the two naturals after it
  have upTo (k : Nat) (le : n ≤ k) : n * den ≤ k * den := Nat.mul_le_mul_right den le
  have from_ (k : Nat) (le : k ≤ n) : k * den ≤ n * den := Nat.mul_le_mul_right den le
  have split (k : Nat) : (q + k) * den = den * q + k * den := by
    rw [Nat.add_mul, Nat.mul_comm q]
  have c0 := Nat.mul_comm q den
  have c1 := split 1
  have c2 := split 2
  rcases Nat.lt_or_ge q n with more | less
  · rcases Nat.lt_or_ge (q + 1) n with more' | less'
    · have := from_ (q + 2) more'
      have low : ¬ 2 * (n * den) ≤ 2 * num + den := by omega
      split
      · omega
      · split
        · omega
        · split <;> omega
    · have same : n = q + 1 := by omega
      subst same
      split
      · omega
      · split
        · omega
        · rw [if_neg (by simp; omega)]
          omega
  · have := upTo q less
    have high : 2 * (n * den) ≤ 2 * num + den := by omega
    split
    · omega
    · split
      · omega
      · split <;> omega

/-- The natural that a double can hold and that is nearest to `x`: 53 bits of it, rounded. -/
def nearest (x : Nat) : Nat := roundDiv x (2 ^ (x.log2 - 52)) * 2 ^ (x.log2 - 52)

theorem nearest_of_dvd {x : Nat} (exact_ : 2 ^ (x.log2 - 52) ∣ x) : nearest x = x := by
  rw [nearest, roundDiv_of_dvd (Nat.two_pow_pos _) (Nat.mod_eq_zero_of_dvd exact_),
    Nat.div_mul_cancel exact_]

/-- A natural with at most 53 bits before its last zeros is held. -/
theorem nearest_mul_two_pow {r : Nat} (bits : r ≤ 2 ^ 53) (k : Nat) :
    nearest (r * 2 ^ k) = r * 2 ^ k := by
  apply nearest_of_dvd
  by_cases zero : r = 0
  · simp [zero]
  · rw [log2_mul_two_pow zero]
    by_cases top : r = 2 ^ 53
    · have log : (2 ^ 53).log2 + k - 52 = 1 + k := by
        rw [Nat.log2_two_pow]
        omega
      rw [top, log, Nat.pow_add]
      exact Nat.mul_dvd_mul_right (Nat.pow_dvd_pow 2 (by decide : 1 ≤ 53)) _
    · have log := (Nat.log2_lt zero).2 (Nat.lt_of_le_of_ne bits top)
      exact Nat.dvd_mul_left_of_dvd (Nat.pow_dvd_pow 2 (by omega)) _

theorem nearest_of_le {x : Nat} (small : x ≤ 2 ^ 53) : nearest x = x := by
  have same := nearest_mul_two_pow small 0
  rwa [Nat.pow_zero, Nat.mul_one] at same

/-- A natural with 53 bits or more keeps 53 of them, or is carried into one more. -/
theorem nearest_bounds {x : Nat} (long : 52 ≤ x.log2) :
    exponentWeight ≤ roundDiv x (2 ^ (x.log2 - 52)) ∧
      roundDiv x (2 ^ (x.log2 - 52)) ≤ 2 * exponentWeight := by
  have positive : x ≠ 0 := by
    rintro rfl
    simp at long
  have place : lastPlace x 0 = (x.log2 - 52 : Nat) := by
    rw [lastPlace]
    omega
  obtain ⟨bits, full⟩ := rounded_bounds positive (e := 0) (by omega)
  rw [place, Int.sub_zero, Int.toNat_natCast] at bits full
  exact ⟨full.resolve_right (by omega), bits⟩

theorem nearest_nearest (x : Nat) : nearest (nearest x) = nearest x := by
  by_cases long : 52 ≤ x.log2
  · exact nearest_mul_two_pow (nearest_bounds long).2 _
  · have whole : nearest x = x := by
      apply nearest_of_dvd
      rw [Nat.sub_eq_zero_of_le (by omega), Nat.pow_zero]
      exact Nat.one_dvd x
    rw [whole, whole]

/-- What is held stays held when it is shifted. -/
theorem nearest_shifted {x : Nat} (held : nearest x = x) (k : Nat) :
    nearest (x * 2 ^ k) = x * 2 ^ k := by
  by_cases long : 52 ≤ x.log2
  · have parts : x * 2 ^ k = roundDiv x (2 ^ (x.log2 - 52)) * 2 ^ (x.log2 - 52 + k) := by
      rw [Nat.pow_add, ← Nat.mul_assoc]
      exact congrArg (· * 2 ^ k) held.symm
    rw [parts]
    exact nearest_mul_two_pow (nearest_bounds long).2 _
  · by_cases zero : x = 0
    · rw [zero, Nat.zero_mul]
      exact nearest_of_le (Nat.zero_le _)
    · have short := (Nat.log2_lt zero (k := 53)).1 (by omega)
      exact nearest_mul_two_pow (Nat.le_of_lt short) k

/-- Rounding does not fall below a power of two. -/
theorem two_pow_le_nearest {i x : Nat} (above : 2 ^ i ≤ x) : 2 ^ i ≤ nearest x := by
  have positive : x ≠ 0 := by
    have := Nat.two_pow_pos i
    omega
  by_cases long : 52 ≤ x.log2
  · have weight : exponentWeight = 2 ^ 52 := by decide
    have power : 52 + (x.log2 - 52) = x.log2 := by omega
    have kept := Nat.mul_le_mul_right (2 ^ (x.log2 - 52)) (nearest_bounds long).1
    rw [weight, ← Nat.pow_add, power] at kept
    exact Nat.le_trans (Nat.pow_le_pow_right (by decide) ((Nat.le_log2 positive).2 above)) kept
  · have short := (Nat.log2_lt positive (k := 53)).1 (by omega)
    rwa [nearest_of_le (Nat.le_of_lt short)]

/-- Rounding reaches a power of two from a quarter of its unit below. -/
theorem two_pow_le_nearest_iff {i : Nat} (large : 54 ≤ i) (x : Nat) :
    2 ^ i ≤ nearest x ↔ 2 ^ i ≤ x + 2 ^ (i - 54) := by
  have small : 2 ^ (i - 54) < 2 ^ (i - 1) := Nat.pow_lt_pow_right (by decide) (by omega)
  have half : 2 ^ i = 2 * 2 ^ (i - 1) := by
    rw [← Nat.pow_succ']
    congr 1
    omega
  have weight : exponentWeight = 2 ^ 52 := by decide
  by_cases short : x ≤ 2 ^ 53
  · have bound : 2 ^ 53 ≤ 2 ^ (i - 1) := Nat.pow_le_pow_right (by decide) (by omega)
    rw [nearest_of_le short]
    omega
  · have positive : x ≠ 0 := by omega
    have long : 53 ≤ x.log2 := (Nat.le_log2 positive).2 (by omega)
    have bits := (nearest_bounds (x := x) (by omega)).2
    rcases Nat.lt_trichotomy (x.log2 + 1) i with less | same | more
    · -- too short to reach it even when carried into
      have below : x < 2 ^ (i - 1) := (Nat.log2_lt positive).1 (by omega)
      have carried : nearest x ≤ 2 ^ (x.log2 + 1) := by
        have := Nat.mul_le_mul_right (2 ^ (x.log2 - 52)) bits
        rw [weight, ← Nat.pow_succ', ← Nat.pow_add] at this
        rw [nearest]
        exact Nat.le_trans this (Nat.pow_le_pow_right (by decide) (by omega))
      have bound : 2 ^ (x.log2 + 1) ≤ 2 ^ (i - 1) := Nat.pow_le_pow_right (by decide) (by omega)
      omega
    · -- one bit short: a carry reaches it
      have place : x.log2 - 52 = i - 53 := by omega
      have unit : 2 ^ (i - 53) = 2 * 2 ^ (i - 54) := by
        rw [← Nat.pow_succ']
        congr 1
        omega
      have power : 2 ^ i = 2 ^ 53 * 2 ^ (i - 53) := by
        rw [← Nat.pow_add]
        congr 1
        omega
      rw [nearest, place]
      constructor
      · intro reached
        rw [power] at reached
        have top := (le_roundDiv_iff (by decide) x (Nat.two_pow_pos (i - 53))).1
          (Nat.le_of_mul_le_mul_right reached (Nat.two_pow_pos _))
        omega
      · intro close
        rw [power]
        apply Nat.mul_le_mul_right
        apply (le_roundDiv_iff (by decide) x (Nat.two_pow_pos (i - 53))).2
        omega
    · have above : 2 ^ i ≤ x := (Nat.le_log2 positive).1 (by omega)
      exact ⟨fun _ => Nat.le_trans above (Nat.le_add_right _ _),
        fun _ => two_pow_le_nearest above⟩

/-- What a natural is rounded to: its exponent and its significand. -/
theorem roundRatio_one {x : Nat} (positive : x ≠ 0) : ∃ j r, exponentWeight ≤ r ∧
    r ≤ 2 * exponentWeight ∧ r * 2 ^ j = nearest x * unitsPerOne ∧
      roundRatio x 1 = min infinite (j * exponentWeight + r) := by
  have round := roundRatio_dyadic positive 0
  simp only [Int.toNat_zero, Int.neg_zero, Nat.pow_zero, Nat.mul_one, Int.sub_zero, Int.zero_sub]
    at round
  have weight : exponentWeight = 2 ^ 52 := by decide
  by_cases long : 52 ≤ x.log2
  · have place : lastPlace x 0 = (x.log2 - 52 : Nat) := by
      rw [lastPlace]
      omega
    have none : (-((x.log2 - 52 : Nat) : Int)).toNat = 0 := by omega
    have exponent : ((x.log2 - 52 : Nat) + 1074 : Int).toNat = x.log2 - 52 + unitExponent := by
      simp only [unitExponent]
      omega
    rw [place, none, exponent, Int.toNat_natCast, Nat.pow_zero, Nat.mul_one] at round
    obtain ⟨full, bits⟩ := nearest_bounds long
    refine ⟨_, _, full, bits, ?_, round⟩
    rw [nearest, unitsPerOne, Nat.pow_add, Nat.mul_assoc]
  · have place : lastPlace x 0 = -(52 - x.log2 : Nat) := by
      rw [lastPlace]
      omega
    have none : (-((52 - x.log2 : Nat) : Int)).toNat = 0 := by omega
    have exponent : (-((52 - x.log2 : Nat) : Int) + 1074).toNat = unitExponent - (52 - x.log2) := by
      simp only [unitExponent]
      omega
    have exact_ := roundDiv_of_dvd Nat.one_pos (Nat.mod_one (x * 2 ^ (52 - x.log2)))
    rw [place, none, exponent, Int.neg_neg, Int.toNat_natCast, Nat.pow_zero, exact_, Nat.div_one]
      at round
    have small := (Nat.log2_lt positive).1 (Nat.lt_of_not_le long)
    refine ⟨_, _, ?_, ?_, ?_, round⟩
    · have low := Nat.mul_le_mul_right (2 ^ (52 - x.log2)) (Nat.log2_self_le positive)
      have power : x.log2 + (52 - x.log2) = 52 := by omega
      rwa [← Nat.pow_add, power, ← weight] at low
    · have high := Nat.mul_le_mul_right (2 ^ (52 - x.log2))
        (Nat.le_of_lt (Nat.lt_log2_self (n := x)))
      have power : x.log2 + 1 + (52 - x.log2) = 1 + 52 := by omega
      rwa [← Nat.pow_add, power, Nat.pow_add, Nat.pow_one, ← weight] at high
    · have whole := nearest_of_le (x := x) (by omega)
      have power : 52 - x.log2 + (unitExponent - (52 - x.log2)) = unitExponent := by
        simp only [unitExponent]
        omega
      rw [whole, unitsPerOne, Nat.mul_assoc, ← Nat.pow_add, power]

/-- A significand that was carried into is one place further on. -/
theorem carried_eq (j : Nat) : 2 * exponentWeight * 2 ^ j = exponentWeight * 2 ^ (j + 1) ∧
    j * exponentWeight + 2 * exponentWeight = (j + 1) * exponentWeight + exponentWeight := by
  rw [Nat.pow_succ, Nat.add_mul, Nat.one_mul, Nat.two_mul, Nat.add_mul, Nat.add_assoc, Nat.mul_two,
    Nat.mul_add]
  exact ⟨rfl, rfl⟩

/-- Exponent and significand next to each other, the significand perhaps carried into. -/
theorem units_of_parts {n : Number} {j r : Nat} (parts : n.magnitude = j * exponentWeight + r)
    (full : exponentWeight ≤ r) (bits : r ≤ 2 * exponentWeight) : n.units = r * 2 ^ j := by
  have short {j r : Nat} (parts : n.magnitude = j * exponentWeight + r)
      (full : exponentWeight ≤ r) (bits : r < 2 * exponentWeight) : n.units = r * 2 ^ j := by
    simp only [exponentWeight] at *
    have field : n.scale - 1 = j := by
      simp only [scale, exponentWeight]
      omega
    have fraction : n.significand = r := by
      simp only [Number.significand, exponentWeight]
      rw [if_neg (by omega)]
      omega
    rw [units, field, fraction]
  by_cases carried : r = 2 * exponentWeight
  · rw [carried, (carried_eq j).2] at parts
    rw [carried, (carried_eq j).1]
    exact short parts (Nat.le_refl _) (by decide)
  · exact short parts full (Nat.lt_of_le_of_ne bits carried)

/-- Exponent and significand reach infinity when their value reaches `2 ^ 1024`. -/
theorem lt_infinite_iff {j r : Nat} (full : exponentWeight ≤ r) (bits : r ≤ 2 * exponentWeight) :
    j * exponentWeight + r < infinite ↔ r * 2 ^ j < 2 ^ 1024 * unitsPerOne := by
  have top : 2 ^ 1024 * unitsPerOne = exponentWeight * 2 ^ 2046 := by
    have weight : exponentWeight = 2 ^ 52 := by decide
    have exponents : 1024 + unitExponent = 52 + 2046 := rfl
    rw [unitsPerOne, weight, ← Nat.pow_add, ← Nat.pow_add, exponents]
  have short {j r : Nat} (full : exponentWeight ≤ r) (bits : r < 2 * exponentWeight) :
      j * exponentWeight + r < 2047 * exponentWeight ↔ r * 2 ^ j < exponentWeight * 2 ^ 2046 := by
    constructor
    · intro below
      calc r * 2 ^ j < 2 * exponentWeight * 2 ^ j :=
            Nat.mul_lt_mul_of_pos_right bits (Nat.two_pow_pos j)
        _ = exponentWeight * 2 ^ (j + 1) := (carried_eq j).1
        _ ≤ exponentWeight * 2 ^ 2046 := by
          apply Nat.mul_le_mul_left
          apply Nat.pow_le_pow_right (by decide)
          simp only [exponentWeight] at *
          omega
    · intro below
      apply Nat.lt_of_not_le
      intro reached
      apply Nat.not_le.2 below
      apply Nat.mul_le_mul full
      apply Nat.pow_le_pow_right (by decide)
      simp only [exponentWeight] at *
      omega
  rw [top]
  by_cases carried : r = 2 * exponentWeight
  · rw [carried, (carried_eq j).1, (carried_eq j).2]
    exact short (Nat.le_refl _) (by decide)
  · exact short full (Nat.lt_of_le_of_ne bits carried)

/-- A natural that rounds to less than `2 ^ 1024` has a finite double, of so many units. -/
theorem ofNat_of_lt {x : Nat} (small : nearest x < 2 ^ 1024) :
    (ofNat x).magnitude < infinite ∧ (ofNat x).units = nearest x * unitsPerOne := by
  by_cases zero : x = 0
  · subst zero
    rw [units_of_zero (by decide), nearest_of_le (Nat.zero_le _), Nat.zero_mul]
    exact ⟨by decide, rfl⟩
  · obtain ⟨j, r, full, bits, value, round⟩ := roundRatio_one zero
    have below : j * exponentWeight + r < infinite := by
      apply (lt_infinite_iff full bits).2
      rw [value]
      exact Nat.mul_lt_mul_of_pos_right small unitsPerOne_pos
    have magnitude : (ofNat x).magnitude = j * exponentWeight + r := by
      rw [ofNat, ofRatio, magnitude_ofMagnitude_of_le (roundRatio_le _ _), round,
        Nat.min_eq_right (Nat.le_of_lt below)]
    exact ⟨magnitude ▸ below, (units_of_parts magnitude full bits).trans value⟩

/-- One that rounds to more has none. -/
theorem ofNat_of_le {x : Nat} (large : 2 ^ 1024 ≤ nearest x) : ofNat x = infinity := by
  have positive : x ≠ 0 := by
    rintro rfl
    have none : nearest 0 = 0 := nearest_of_le (Nat.zero_le _)
    have := Nat.two_pow_pos 1024
    omega
  obtain ⟨j, r, full, bits, value, round⟩ := roundRatio_one positive
  have above : infinite ≤ j * exponentWeight + r := by
    apply Nat.le_of_not_lt
    intro below
    have small := (lt_infinite_iff full bits).1 below
    rw [value] at small
    exact Nat.not_le.2 (Nat.lt_of_mul_lt_mul_right small) large
  rw [ofNat, ofRatio, round, Nat.min_eq_left above]
  rfl

/-- A natural that is held has so many units itself. -/
theorem ofNat_of_held {x : Nat} (held : nearest x = x) (small : x < 2 ^ 1024) :
    (ofNat x).magnitude < infinite ∧ (ofNat x).units = x * unitsPerOne := by
  rw [← held] at small
  have real := ofNat_of_lt small
  rwa [held] at real

theorem ofNat_of_two_pow_le {x : Nat} (large : 2 ^ 1024 ≤ x) : ofNat x = infinity :=
  ofNat_of_le (two_pow_le_nearest large)

theorem dyadic_unitsPerOne (x : Nat) : dyadic false (x * unitsPerOne) (-1074) = ofNat x := by
  have unit : (-1074 : Int) = 0 - unitExponent := rfl
  rw [unitsPerOne, unit, dyadic_mul, dyadic, Int.neg_zero, Int.toNat_zero, Nat.pow_zero,
    Nat.mul_one]
  rfl

theorem ofNat_nearest (x : Nat) : ofNat (nearest x) = ofNat x := by
  rcases Nat.lt_or_ge (nearest x) (2 ^ 1024) with small | large
  · obtain ⟨-, units⟩ := ofNat_of_lt small
    obtain ⟨-, again⟩ := ofNat_of_lt (x := nearest x) (by rwa [nearest_nearest])
    rw [nearest_nearest] at again
    apply eq_of_magnitude
    · rw [isNegative_ofNat, isNegative_ofNat]
    · exact magnitude_eq_of_units (again.trans units.symm)
  · rw [ofNat_of_le large, ofNat_of_le (by rwa [nearest_nearest])]

/-- The machine multiplies naturals that doubles hold exactly, and rounds. -/
theorem ofNat_mul {x y : Nat} (hx : nearest x = x) (hy : nearest y = y) (sx : x < 2 ^ 1024)
    (sy : y < 2 ^ 1024) : (ofNat x).mul (ofNat y) = ofNat (x * y) := by
  obtain ⟨fx, ux⟩ := ofNat_of_held hx sx
  obtain ⟨fy, uy⟩ := ofNat_of_held hy sy
  have product : x * unitsPerOne * (y * unitsPerOne) = x * y * unitsPerOne * 2 ^ unitExponent := by
    rw [Nat.mul_mul_mul_comm, ← Nat.mul_assoc]
    rfl
  have unit : (-2148 : Int) = -1074 - unitExponent := rfl
  rw [mul_of_finite fx fy, ux, uy, product, unit, dyadic_mul, isNegative_ofNat, isNegative_ofNat]
  exact dyadic_unitsPerOne (x * y)

/-- It adds them exactly, and rounds. -/
theorem ofNat_add {x y : Nat} (hx : nearest x = x) (hy : nearest y = y) (sx : x < 2 ^ 1024)
    (sy : y < 2 ^ 1024) : (ofNat x).add (ofNat y) = ofNat (x + y) := by
  obtain ⟨fx, ux⟩ := ofNat_of_held hx sx
  obtain ⟨fy, uy⟩ := ofNat_of_held hy sy
  rw [add_of_nonneg fx fy (isNegative_ofNat x) (isNegative_ofNat y), ux, uy, ← Nat.add_mul,
    dyadic_unitsPerOne]

end ScriptMachine.Number

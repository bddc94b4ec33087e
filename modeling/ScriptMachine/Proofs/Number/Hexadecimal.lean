import ScriptMachine.Proofs.Number.Grammar
import ScriptMachine.Proofs.Number.Nearest

/-!
# Hexadecimal numerals that are no numbers

The digits of a hexadecimal numeral and its power of two are two doubles. Each may leave the range
of doubles on its own side, and zero times infinity is not a number.

* `gather_eq`: the gathered digits, as a natural that is rounded at every digit.
* `gather_infinite_iff`: rounding at every digit overflows where rounding once would.
* `read_isNaN_iff`: the numerals that are read as not-a-number.
-/

namespace ScriptMachine.Numeral

open Number

def digitValue (c : Char) : Nat := (Text.hexDigit? c).getD 0

/-- The natural that hexadecimal digits stand for. -/
def hexNatural (ds : List Char) : Nat := ds.foldl (fun n c => 16 * n + digitValue c) 0

/-- What one more digit makes of the natural so far, in a double. -/
def gatherDigit (g : Nat) (c : Char) : Nat := nearest (16 * g + digitValue c)

theorem digitValue_lt (c : Char) : digitValue c < 16 := by
  unfold digitValue Text.hexDigit?
  split
  · rename_i range
    have high : c.toNat ≤ '9'.toNat := range.2
    have nine : '9'.toNat = 57 := rfl
    simp only [Option.getD_some]
    omega
  · split
    · rename_i range
      have high : c.toNat ≤ 'f'.toNat := range.2
      have last : 'f'.toNat = 102 := rfl
      simp only [Option.getD_some]
      omega
    · split
      · rename_i range
        have high : c.toNat ≤ 'F'.toNat := range.2
        have last : 'F'.toNat = 70 := rfl
        simp only [Option.getD_some]
        omega
      · decide

/-- One step of gathering is a step on naturals. -/
theorem ofNat_gatherDigit {g : Nat} (held : nearest g = g) (c : Char) :
    ((ofNat g).mul (.ofNat 16)).add (.ofNat (digitValue c)) = ofNat (gatherDigit g c) := by
  have small := digitValue_lt c
  have heldDigit : nearest (digitValue c) = digitValue c := nearest_of_le (by omega)
  have held16 : nearest 16 = 16 := nearest_of_le (by decide)
  have heldShift : nearest (g * 16) = g * 16 := nearest_shifted held 4
  have bound : 2 ^ 53 < 2 ^ 1024 := by
    apply Nat.pow_lt_pow_right
    · decide
    · decide
  have finite {d : Nat} (low : d ≤ 16) : (ofNat d).magnitude < infinite := by
    exact (ofNat_of_held (nearest_of_le (by omega)) (by omega)).1
  rw [gatherDigit, ofNat_nearest]
  rcases Nat.lt_or_ge (g * 16) (2 ^ 1024) with below | above
  · rw [ofNat_mul held held16 (by omega) (by omega),
      ofNat_add heldShift heldDigit below (by omega), Nat.mul_comm g]
  · have whole : ofNat (16 * g + digitValue c) = infinity :=
      ofNat_of_two_pow_le (by omega)
    have product : (ofNat g).mul (ofNat 16) = infinity := by
      rcases Nat.lt_or_ge g (2 ^ 1024) with within | beyond
      · rw [ofNat_mul held held16 within (by omega)]
        exact ofNat_of_two_pow_le above
      · rw [ofNat_of_two_pow_le beyond]
        exact infinity_mul (finite (Nat.le_refl _)) (by decide) (isNegative_ofNat 16)
    rw [product, whole]
    exact infinity_add (finite (by omega))

/-- Digits are gathered into the double of a natural, which holds it. -/
theorem gather_eq (ds : List Char) :
    gather ds = ofNat (ds.foldl gatherDigit 0) ∧
      nearest (ds.foldl gatherDigit 0) = ds.foldl gatherDigit 0 := by
  have from_ (ds : List Char) : ∀ g, nearest g = g →
      ds.foldl (fun n c => (n.mul (.ofNat 16)).add (.ofNat (digitValue c))) (ofNat g) =
        ofNat (ds.foldl gatherDigit g) ∧
      nearest (ds.foldl gatherDigit g) = ds.foldl gatherDigit g := by
    induction ds with
    | nil => exact fun g held => ⟨rfl, held⟩
    | cons c ds ih =>
      intro g held
      rw [List.foldl_cons, List.foldl_cons, ofNat_gatherDigit held]
      exact ih _ (nearest_nearest _)
  exact from_ ds 0 (nearest_of_le (Nat.zero_le _))

/-- How a natural that is rounded at every digit compares with the one that is not: they are one
below `2 ^ 53`, and they pass each power of sixteen together, up to the last rounding. -/
structure Follows (g v : Nat) : Prop where
  exact_ : g < 2 ^ 53 ∨ v < 2 ^ 53 → g = v
  pass (j : Nat) (long : 14 ≤ j) : 2 ^ (4 * j) ≤ g ↔ 2 ^ (4 * j) ≤ v + 2 ^ (4 * j - 54)

theorem Follows.digit {g v : Nat} (follows : Follows g v) (held : nearest g = g) (c : Char) :
    Follows (gatherDigit g c) (16 * v + digitValue c) := by
  have small := digitValue_lt c
  constructor
  · intro below
    have same : 16 * g + digitValue c < 2 ^ 53 := by
      rcases below with rounded | plain
      · apply Nat.lt_of_not_le
        intro large
        exact Nat.not_lt.2 (two_pow_le_nearest large) rounded
      · rw [follows.exact_ (.inr (by omega))]
        exact plain
    rw [gatherDigit, nearest_of_le (Nat.le_of_lt same), follows.exact_ (.inl (by omega))]
  · intro j long
    rw [gatherDigit, two_pow_le_nearest_iff (by omega)]
    obtain ⟨k, rfl⟩ : ∃ k, j = k + 1 := ⟨j - 1, by omega⟩
    by_cases first : k = 13
    · subst first
      -- the first power that digits are lost at
      by_cases exact_ : g < 2 ^ 53 ∨ v < 2 ^ 53
      · rw [follows.exact_ exact_]
      · constructor
        · intro
          omega
        · intro
          omega
    · have power : 2 ^ (4 * (k + 1)) = 16 * 2 ^ (4 * k) := by
        rw [Nat.mul_add, Nat.pow_add]
        omega
      have unit : 2 ^ (4 * (k + 1) - 54) = 16 * 2 ^ (4 * k - 54) := by
        have exponent : 4 * (k + 1) - 54 = 4 * k - 54 + 4 := by omega
        rw [exponent, Nat.pow_add]
        omega
      have before := follows.pass k (by omega)
      have again := two_pow_le_nearest_iff (i := 4 * k) (by omega) g
      rw [held, before] at again
      rw [power, unit]
      omega

theorem follows_foldl (ds : List Char) {g v : Nat} (follows : Follows g v) (held : nearest g = g) :
    Follows (ds.foldl gatherDigit g) (ds.foldl (fun n c => 16 * n + digitValue c) v) := by
  induction ds generalizing g v with
  | nil => exact follows
  | cons c ds ih => exact ih (follows.digit held c) (nearest_nearest _)

theorem follows_gathered (ds : List Char) : Follows (ds.foldl gatherDigit 0) (hexNatural ds) := by
  apply follows_foldl ds _ (nearest_of_le (Nat.zero_le _))
  constructor
  · exact fun _ => rfl
  · intro j long
    have smaller : 2 ^ (4 * j - 54) < 2 ^ (4 * j) := Nat.pow_lt_pow_right (by decide) (by omega)
    have positive := Nat.two_pow_pos (4 * j)
    omega

/-- Gathered digits are never negative and never not-a-number. -/
theorem gather_real (ds : List Char) :
    (gather ds).isNegative = false ∧ (gather ds).magnitude ≤ infinite := by
  rw [(gather_eq ds).1]
  refine ⟨isNegative_ofNat _, ?_⟩
  rw [ofNat, ofRatio, magnitude_ofMagnitude_of_le (roundRatio_le _ _)]
  exact roundRatio_le _ _

/-- They are zero when all of them are. -/
theorem gather_zero_iff (ds : List Char) : (gather ds).magnitude = 0 ↔ hexNatural ds = 0 := by
  obtain ⟨whole, held⟩ := gather_eq ds
  have follows := follows_gathered ds
  rw [whole]
  generalize ds.foldl gatherDigit 0 = g at *
  have below : 2 ^ 53 < 2 ^ 1024 := by
    apply Nat.pow_lt_pow_right
    · decide
    · decide
  constructor
  · intro zero
    have small : g < 2 ^ 1024 := by
      apply Nat.lt_of_not_le
      intro large
      rw [ofNat_of_two_pow_le large] at zero
      exact absurd zero (by decide)
    obtain ⟨-, units⟩ := ofNat_of_held held small
    rw [units_of_zero zero] at units
    have none : g = 0 := (Nat.mul_eq_zero.1 units.symm).resolve_right
      (Nat.ne_of_gt unitsPerOne_pos)
    rw [← follows.exact_ (.inl (by omega)), none]
  · intro zero
    rw [follows.exact_ (.inr (by omega)), zero]
    decide

/-- Rounding at every digit overflows where rounding once would: half a place below `2 ^ 1024`. -/
theorem gather_infinite_iff (ds : List Char) :
    (gather ds).magnitude = infinite ↔ 2 ^ 1024 ≤ hexNatural ds + 2 ^ 970 := by
  obtain ⟨whole, held⟩ := gather_eq ds
  have pass := (follows_gathered ds).pass 256 (by decide)
  have power : 4 * 256 = 1024 := rfl
  rw [power] at pass
  rw [whole]
  generalize ds.foldl gatherDigit 0 = g at *
  rw [← pass]
  constructor
  · intro infinity
    apply Nat.le_of_not_lt
    intro small
    exact Nat.ne_of_lt (ofNat_of_held held small).1 infinity
  · intro large
    rw [ofNat_of_two_pow_le large]
    decide

/-- The reciprocal of a power of two in range is neither zero nor infinite. -/
theorem dyadic_one_real {k : Nat} (small : k < 1024) :
    0 < (dyadic false 1 (-k)).magnitude ∧ (dyadic false 1 (-k)).magnitude < infinite := by
  have log : Nat.log2 1 = 0 := by decide
  have infinity : infinite = 2047 * exponentWeight := rfl
  have none : (lastPlace 1 (-k) - -k).toNat = 0 := by
    rw [lastPlace, log]
    omega
  have shift : (-(k : Int) - lastPlace 1 (-k)).toNat ≤ 52 := by
    rw [lastPlace, log]
    omega
  have field : (lastPlace 1 (-k) + 1074).toNat ≤ 1022 := by
    rw [lastPlace, log]
    omega
  have magnitude := magnitude_dyadic false Nat.one_ne_zero (-(k : Int))
  rw [none, Nat.pow_zero, Nat.one_mul, roundDiv_of_dvd Nat.one_pos (Nat.mod_one _), Nat.div_one]
    at magnitude
  have positive := Nat.two_pow_pos (-(k : Int) - lastPlace 1 (-k)).toNat
  have bound : 2 ^ (-(k : Int) - lastPlace 1 (-k)).toNat ≤ 2 ^ 52 :=
    Nat.pow_le_pow_right (by decide) shift
  have weight : exponentWeight = 2 ^ 52 := by decide
  rw [← weight] at bound
  have sum := Nat.mul_le_mul_right exponentWeight field
  rw [magnitude, infinity]
  simp only [exponentWeight] at *
  omega

/-- A power of two is positive, and a double unless it is too small or too large for one. -/
theorem binaryPower_real (k : Int) :
    (binaryPower k).isNegative = false ∧ (binaryPower k).magnitude ≤ infinite ∧
      ((binaryPower k).magnitude = infinite ↔ 1024 ≤ k) ∧
      ((binaryPower k).magnitude = 0 ↔ k ≤ -1024) := by
  have infinity : infinite = 2047 * exponentWeight := rfl
  have limit : Number.infinity.magnitude = infinite := by decide
  unfold binaryPower
  split
  · rename_i negative
    by_cases small : (-k).toNat < 1024
    · have real := dyadic_one_real small
      rw [one_div_twoPow small]
      refine ⟨isNegative_ofMagnitude _ _, ?_, ?_, ?_⟩
      all_goals omega
    · have beyond : twoPow (-k).toNat = Number.infinity := if_neg small
      have zero : (ofNat 1).div Number.infinity = Number.zero := by
        have one : ofNat 1 = twoPow 0 := by decide
        rw [div_eq, one, unpacked_twoPow (by decide : 0 < 1024), unpacked_infinity]
        exact packed_zero .positive
      have none : Number.zero.magnitude = 0 := by decide
      rw [beyond, zero, none]
      refine ⟨by decide, Nat.zero_le _, ?_, ?_⟩
      · simp only [infinity, exponentWeight]
        omega
      · omega
  · rename_i nonneg
    by_cases small : k.toNat < 1024
    · rw [magnitude_twoPow small, infinity]
      refine ⟨?_, ?_, ?_, ?_⟩
      · rw [twoPow, if_pos small]
        exact isNegative_ofMagnitude _ _
      all_goals
        simp only [exponentWeight]
        omega
    · have beyond : twoPow k.toNat = Number.infinity := if_neg small
      rw [beyond, limit]
      refine ⟨by decide, Nat.le_refl _, ?_, ?_⟩
      · omega
      · simp only [infinity, exponentWeight]
        omega

def hexadecimalValue (whole part : List Char) (e : Int) : Number :=
  (gather (whole ++ part)).mul
    (binaryPower (max (-4096) (min 4096 (clampExponent e - 4 * part.length))))

/-- The digits of a numeral are zero and its power of two is infinite, or the other way around. -/
def Clashes (digits : Nat) (scale : Int) : Prop :=
  (digits = 0 ∧ 1024 ≤ scale) ∨ (2 ^ 1024 ≤ digits + 2 ^ 970 ∧ scale ≤ -1024)

theorem isNaN_hexadecimalValue (whole part : List Char) (e : Int) :
    (hexadecimalValue whole part e).isNaN = true ↔
      Clashes (hexNatural (whole ++ part)) (clampExponent e - 4 * part.length) := by
  obtain ⟨-, real⟩ := gather_real (whole ++ part)
  rw [hexadecimalValue]
  generalize clampExponent e - 4 * (part.length : Int) = scale
  obtain ⟨-, real', infinite_, zero_⟩ := binaryPower_real (max (-4096) (min 4096 scale))
  -- the scale is held where powers of two are zero or infinite already
  have above : 1024 ≤ max (-4096) (min 4096 scale) ↔ 1024 ≤ scale := by omega
  have below : max (-4096) (min 4096 scale) ≤ -1024 ↔ scale ≤ -1024 := by omega
  rw [isNaN_mul_iff real real', gather_infinite_iff, gather_zero_iff, infinite_, zero_, above,
    below, Clashes, or_comm]

/-- Digits that are zero make a zero, unless the power of two is infinite. -/
theorem hexadecimalValue_zero {whole part : List Char} {e : Int}
    (zero : hexNatural (whole ++ part) = 0) (finite : clampExponent e - 4 * part.length < 1024) :
    hexadecimalValue whole part e = ofMagnitude false 0 := by
  obtain ⟨sign, -⟩ := gather_real (whole ++ part)
  have none := (gather_zero_iff (whole ++ part)).2 zero
  obtain ⟨sign', real', infinite_, -⟩ := binaryPower_real
    (max (-4096) (min 4096 (clampExponent e - 4 * part.length)))
  have within := Nat.lt_of_le_of_ne real' (mt infinite_.1 (by omega))
  have start : (gather (whole ++ part)).magnitude < infinite := by
    rw [none]
    decide
  rw [hexadecimalValue, mul_of_finite start within, sign, sign', units_of_zero none, Nat.zero_mul,
    dyadic_zero]
  rfl

theorem isNaN_neg (n : Number) : n.neg.isNaN = n.isNaN := by
  rw [neg, isNaN, isNaN, magnitude_ofMagnitude, Nat.mod_eq_of_lt n.magnitude_lt]

/-- A decimal numeral is a number. -/
theorem isNaN_ofDecimal (negative : Bool) (coefficient : Nat) (scale : Int) :
    (ofDecimal negative coefficient scale).isNaN = false := by
  have real {m : Nat} (le : m ≤ infinite) : (ofMagnitude negative m).isNaN = false := by
    rw [isNaN, magnitude_ofMagnitude_of_le le]
    exact decide_eq_false (Nat.not_lt.2 le)
  unfold ofDecimal
  dsimp only
  split
  · exact real (Nat.zero_le _)
  · split
    · exact real (Nat.le_refl _)
    · split
      · exact real (Nat.zero_le _)
      · split
        · exact real (roundRatio_le _ _)
        · exact real (roundRatio_le _ _)

/-- A hexadecimal numeral is read as its value with its sign. -/
theorem IsHexadecimal.read_eq {text : String} {negative : Bool} {whole part : List Char} {e : Int}
    (looks : IsHexadecimal negative whole part e (Text.trim text.toList)) :
    read text = some (if negative then (hexadecimalValue whole part e).neg
      else hexadecimalValue whole part e) := by
  obtain ⟨marked, looks, signed⟩ := looks
  have split := signed.sign_eq (unsigned_zero _)
  apply read_eq_some_iff.2
  rw [split]
  exact ⟨_, (unsigned_hexadecimal marked _).2 (hexadecimal_eq_some_iff.2 ⟨_, _, _, looks, rfl⟩), rfl⟩

/-- **Numerals that are read as not-a-number.** Reading a text gives not-a-number exactly for the
hexadecimal numerals whose digits are zero and whose power of two overflows, and for those whose
digits overflow and whose power of two vanishes. One whose digits are zero is read as zero, with its
sign, whenever its power of two does not overflow. -/
theorem read_isNaN_iff (text : String) :
    ((read text).any Number.isNaN = true ↔ ∃ negative whole part e,
      IsHexadecimal negative whole part e (Text.trim text.toList) ∧
        Clashes (hexNatural (whole ++ part)) (clampExponent e - 4 * part.length)) ∧
    ∀ negative whole part e, IsHexadecimal negative whole part e (Text.trim text.toList) →
      hexNatural (whole ++ part) = 0 → clampExponent e - 4 * part.length < 1024 →
        read text = some (ofMagnitude negative 0) := by
  refine ⟨⟨?_, ?_⟩, ?_⟩
  · intro nan
    obtain ⟨x, read, nan⟩ := (Option.any_eq_true _ _).1 nan
    obtain ⟨y, reads, rfl⟩ := read_eq_some_iff.1 read
    have nan : y.isNaN = true := by
      split at nan
      · rwa [isNaN_neg] at nan
      · exact nan
    have signed := signed_sign (Text.trim text.toList)
    obtain ⟨mark, body, marked, same, read⟩ | read := unsigned_eq_some_iff.1 reads
    · obtain ⟨whole, part, e, looks, rfl⟩ := hexadecimal_eq_some_iff.1 read
      rw [same] at signed
      exact ⟨_, whole, part, e, .intro marked looks signed,
        (isNaN_hexadecimalValue whole part e).1 nan⟩
    · obtain ⟨negative, body, whole, part, e, -, -, rfl⟩ := decimal_eq_some_iff.1 read
      rw [isNaN_ofDecimal] at nan
      contradiction
  · rintro ⟨negative, whole, part, e, looks, clash⟩
    have nan := (isNaN_hexadecimalValue whole part e).2 clash
    rw [looks.read_eq, Option.any_some]
    split
    · rwa [isNaN_neg]
    · exact nan
  · intro negative whole part e looks zero finite
    rw [looks.read_eq, hexadecimalValue_zero zero finite]
    cases negative
    · rfl
    · rfl

/-- Digits behind the point make the power of two smaller: the sign of the zero is kept. -/
theorem read_isNaN_iff_zero :
    IsHexadecimal true ['0'] ['0', '0'] 1030 (Text.trim "-0x0.00p1030".toList) ∧
      hexNatural (['0'] ++ ['0', '0']) = 0 ∧ clampExponent 1030 - 4 * 2 < 1024 ∧
        read "-0x0.00p1030" = some (ofMagnitude true 0) := by
  have mantissa : Mantissa isHexDigit ['0'] ['0', '0'] ['0', '.', '0', '0'] :=
    .pointed (by decide) (List.all_eq_true.1 rfl) (List.all_eq_true.1 rfl)
  have exponent : Exponent 'p' 'P' 1030 ['p', '1', '0', '3', '0'] :=
    @Exponent.marked _ _ 'p' false ['1', '0', '3', '0'] _ (.inl rfl) .bare (by decide)
      (List.all_eq_true.1 rfl)
  have looks : IsHexadecimal true ['0'] ['0', '0'] 1030 (Text.trim "-0x0.00p1030".toList) :=
    .intro (.inl rfl) (.intro mantissa exponent) .minus
  exact ⟨looks, by decide, by decide, (read_isNaN_iff _).2 _ _ _ _ looks (by decide) (by decide)⟩

/-- Zero times two to the power of 1024 is not a number. -/
theorem zero_overflows :
    hexNatural ['0'] = 0 ∧ (read "0x0p1024").any Number.isNaN = true ∧
      read "0x0p1024" ≠ some .zero := by
  have exponent : Exponent 'p' 'P' 1024 ['p', '1', '0', '2', '4'] :=
    @Exponent.marked _ _ 'p' false ['1', '0', '2', '4'] _ (.inl rfl) .bare (by decide)
      (List.all_eq_true.1 rfl)
  have looks : IsHexadecimal false ['0'] [] 1024 (Text.trim "0x0p1024".toList) :=
    .intro (.inl rfl) (.intro (.whole (by decide) (List.all_eq_true.1 rfl)) exponent) .bare
  have nan : (hexadecimalValue ['0'] [] 1024).isNaN = true :=
    (isNaN_hexadecimalValue _ _ _).2 (.inl ⟨by decide, by decide⟩)
  have reads := looks.read_eq
  rw [if_neg (by decide)] at reads
  refine ⟨by decide, ?_, ?_⟩
  · rw [reads, Option.any_some, nan]
  · rw [reads]
    intro same
    rw [Option.some.inj same] at nan
    exact absurd nan (by decide)

end ScriptMachine.Numeral

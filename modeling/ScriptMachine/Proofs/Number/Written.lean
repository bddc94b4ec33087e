import Mathlib.Data.List.TakeWhile
import Mathlib.Data.Nat.Digits.Defs
import ScriptMachine.Number.Text
import ScriptMachine.Proofs.Number.Grammar
import ScriptMachine.Proofs.Number.Integral

/-!
# Number text reads back

What is written of a number is a numeral, in each of the three layouts. Integers that are written
in full read back as the number they were.

* `mantissa_trimFraction`: a mantissa stays one when its last zeros are dropped.
* `decimalBody_formatMagnitude`: the text of a finite number is the body of a numeral.
* `isBlank_of_mem_body`: no blanks are in it.
* `ofDecimal_of_lt`: an integer is read exactly.
* `read_format`: all of this together.
-/

namespace ScriptMachine

open Numeral

namespace Decimal

theorem isDigit_of_mem_digits {n : Nat} : ∀ c ∈ digits n, isDigit c = true := by
  intro c member
  have digit : c.isDigit = true := Nat.isDigit_of_mem_toDigits (by decide) (by decide) member
  simpa [Char.isDigit, isDigit, Char.le_def] using digit

theorem digits_ne_nil (n : Nat) : digits n ≠ [] := Nat.toDigits_ne_nil

/-- The digits of a natural stand for it. -/
theorem naturalOf_digits (n : Nat) : naturalOf (digits n) = n := Nat.ofDigitChars_ten_toDigits

theorem isDigit_of_mem_padded {n count : Nat} :
    ∀ c ∈ List.replicate count '0' ++ digits n, isDigit c = true := by
  intro c member
  rcases List.mem_append.1 member with zero | digit
  · rw [List.eq_of_mem_replicate zero]
    decide
  · exact isDigit_of_mem_digits c digit

/-- One digit in front of the point. -/
theorem Scaled.mantissa_looks (d : Scaled) :
    ∃ whole part, whole ≠ [] ∧ Mantissa isDigit whole part d.mantissa := by
  have all := isDigit_of_mem_digits (n := d.coefficient)
  have nonempty := digits_ne_nil d.coefficient
  unfold Scaled.mantissa
  generalize digits d.coefficient = ds at all nonempty
  match ds with
  | [] => exact absurd rfl nonempty
  | [c] => exact ⟨[c], [], by simp, .whole (by simp) all⟩
  | c :: c' :: rest =>
    have looks : Mantissa isDigit [c] (c' :: rest) ([c] ++ '.' :: c' :: rest) :=
      .pointed (by simp) (fun x hx => all x (by simp_all)) fun x hx => all x (.tail _ hx)
    exact ⟨[c], c' :: rest, by simp, looks⟩

/-- At least one digit in front of the point, if there is one. -/
theorem Scaled.positional_looks (d : Scaled) :
    ∃ whole part, whole ≠ [] ∧ Mantissa isDigit whole part d.positional := by
  unfold Scaled.positional
  split
  · exact ⟨_, [], digits_ne_nil _, .whole (digits_ne_nil _) isDigit_of_mem_digits⟩
  · dsimp only
    generalize (-d.scale).toNat = count
    have all := @isDigit_of_mem_padded d.coefficient
      (count + 1 - (digits d.coefficient).length)
    have long : count < (List.replicate (count + 1 - (digits d.coefficient).length) '0' ++
        digits d.coefficient).length := by
      rw [List.length_append, List.length_replicate]
      omega
    generalize List.replicate _ '0' ++ digits d.coefficient = padded at all long
    have front : padded.take (padded.length - count) ≠ [] := by
      intro none
      have := congrArg List.length none
      rw [List.length_take, List.length_nil] at this
      omega
    have some_ := List.append_ne_nil_of_left_ne_nil front (padded.drop (padded.length - count))
    exact ⟨_, _, front, .pointed some_ (fun c hc => all c (List.mem_of_mem_take hc))
      fun c hc => all c (List.mem_of_mem_drop hc)⟩

end Decimal

namespace Numeral

theorem ne_point_of_isDigit {c : Char} (digit : isDigit c = true) : c ≠ '.' := by
  rintro rfl
  exact absurd digit (by decide)

/-- The part behind the point loses zeros, and the point goes with the last of them. -/
theorem mantissa_trimFraction {whole part cs : List Char} (present : whole ≠ [])
    (looks : Mantissa isDigit whole part cs) :
    ∃ part', Mantissa isDigit whole part' (Number.trimFraction cs) := by
  cases looks with
  | whole _ all =>
    have none : '.' ∉ whole := fun member => ne_point_of_isDigit (all _ member) rfl
    rw [Number.trimFraction, if_neg none]
    exact ⟨[], .whole present all⟩
  | pointed _ all all' =>
    have split : (whole ++ '.' :: part).reverse = part.reverse ++ '.' :: whole.reverse := by simp
    rw [Number.trimFraction, if_pos (by simp), split, List.dropWhile_append]
    have fewer : ∀ c ∈ part.reverse.dropWhile (· == '0'), isDigit c = true := fun c hc =>
      all' c (List.mem_reverse.1 ((List.dropWhile_sublist _).subset hc))
    cases left : part.reverse.dropWhile (· == '0') with
    | nil =>
      have kept : whole.reverse.dropWhile (· == '.') = whole.reverse :=
        List.dropWhile_eq_self_iff.2 fun long => by
          have member := List.mem_reverse.1 (List.getElem_mem long)
          simpa using ne_point_of_isDigit (all _ member)
      refine ⟨[], ?_⟩
      simp only [List.isEmpty_nil, if_true]
      rw [List.dropWhile_cons_of_neg (by decide), List.dropWhile_cons_of_pos (by decide), kept,
        List.reverse_reverse]
      exact .whole present all
    | cons d ds =>
      rw [left] at fewer
      have digit := ne_point_of_isDigit (fewer d (.head _))
      refine ⟨(d :: ds).reverse, ?_⟩
      simp only [List.isEmpty_cons, Bool.false_eq_true, if_false]
      rw [List.cons_append, List.dropWhile_cons_of_neg (by simpa using digit), ← List.cons_append]
      have text : (d :: ds ++ '.' :: whole.reverse).reverse =
          whole ++ '.' :: (d :: ds).reverse := by
        simp
      rw [text]
      exact .pointed (by simp [present]) all fun c hc => fewer c (List.mem_reverse.1 hc)

theorem exponent_paddedExponent (e : Int) :
    ∃ e', Exponent 'e' 'E' e' ('e' :: Number.paddedExponent e) := by
  have signed : ∃ negative, Signed negative
      (List.replicate (2 - (Decimal.digits e.natAbs).length) '0' ++ Decimal.digits e.natAbs)
      (Number.paddedExponent e) := by
    simp only [Number.paddedExponent]
    split
    · exact ⟨true, .minus⟩
    · exact ⟨false, .plus⟩
  obtain ⟨negative, signed⟩ := signed
  exact ⟨_, .marked (.inl rfl) signed (by simp [Decimal.digits_ne_nil])
    Decimal.isDigit_of_mem_padded⟩

theorem decimalBody_of_mantissa {whole part cs : List Char}
    (looks : Mantissa isDigit whole part cs) : DecimalBody whole part 0 cs := by
  have body : DecimalBody whole part 0 (cs ++ []) := .intro looks .absent
  rwa [List.append_nil] at body

theorem decimalBody_digits (w : Nat) : DecimalBody (Decimal.digits w) [] 0 (Decimal.digits w) :=
  decimalBody_of_mantissa (.whole (Decimal.digits_ne_nil w) Decimal.isDigit_of_mem_digits)

/-- The text of a finite number, without its sign: all digits, or an exponent, or a point. -/
theorem formatMagnitude_of_finite {n : Number} (finite : n.isFinite = true) :
    n.formatMagnitude = if n.isIntegral && n.wholePart < 10 ^ 15 then Decimal.digits n.wholePart
      else n.formatPositive := by
  have real : n.isNaN = false ∧ n.isInfinite = false := by
    simp only [Number.isFinite, Number.isNaN, Number.isInfinite, decide_eq_true_eq,
      decide_eq_false_iff_not, beq_eq_false_iff_ne] at *
    omega
  simp only [Number.formatMagnitude, real.1, real.2, Bool.false_eq_true, if_false]
  rfl

/-- It is the body of a numeral. -/
theorem decimalBody_formatMagnitude {n : Number} (finite : n.isFinite = true) :
    ∃ whole part e, DecimalBody whole part e n.formatMagnitude := by
  rw [formatMagnitude_of_finite finite]
  split
  · exact ⟨_, _, _, decimalBody_digits n.wholePart⟩
  · unfold Number.formatPositive
    dsimp only
    split
    · obtain ⟨whole, part, present, looks⟩ := Decimal.Scaled.mantissa_looks
        (Decimal.significant n.fraction.1 n.fraction.2 14)
      obtain ⟨part', trimmed⟩ := mantissa_trimFraction present looks
      obtain ⟨e, exponent⟩ := exponent_paddedExponent
        (Decimal.significant n.fraction.1 n.fraction.2 14).exponent
      exact ⟨whole, part', e, .intro trimmed exponent⟩
    · obtain ⟨whole, part, present, looks⟩ := Decimal.Scaled.positional_looks
        (Decimal.places n.fraction.1 n.fraction.2
          (13 - (Decimal.significant n.fraction.1 n.fraction.2 14).exponent).toNat)
      obtain ⟨part', trimmed⟩ := mantissa_trimFraction present looks
      exact ⟨whole, part', 0, decimalBody_of_mantissa trimmed⟩

/-- The sign of a number stands in front of its text. -/
theorem signed_format (n : Number) :
    Signed n.isNegative n.formatMagnitude n.format.toList := by
  rw [Number.format, String.toList_ofList]
  split
  · rename_i negative
    rw [negative]
    exact .minus
  · rename_i positive
    rw [Bool.not_eq_true] at positive
    rw [positive]
    exact .bare

theorem isBlank_of_isDigit {c : Char} (digit : isDigit c = true) : Text.isBlank c = false := by
  simp only [isDigit, Bool.and_eq_true, decide_eq_true_eq, Char.le_def, UInt32.le_iff_toNat_le]
    at digit
  have low : 48 ≤ c.toNat := digit.1
  have high : c.toNat ≤ 57 := digit.2
  simp only [Text.isBlank, Bool.or_eq_false_iff, Bool.and_eq_false_iff, decide_eq_false_iff_not,
    beq_eq_false_iff_ne]
  omega

theorem isBlank_of_mem_signed {negative : Bool} {body cs : List Char}
    (signed : Signed negative body cs) (unblank : ∀ c ∈ body, Text.isBlank c = false) :
    ∀ c ∈ cs, Text.isBlank c = false := by
  cases signed with
  | bare => exact unblank
  | plus => exact List.forall_mem_cons.2 ⟨by decide, unblank⟩
  | minus => exact List.forall_mem_cons.2 ⟨by decide, unblank⟩

theorem isBlank_of_mem_body {whole part : List Char} {e : Int} {cs : List Char}
    (body : DecimalBody whole part e cs) : ∀ c ∈ cs, Text.isBlank c = false := by
  obtain ⟨mantissa, exponent⟩ := body
  refine List.forall_mem_append.2 ⟨?_, ?_⟩
  · cases mantissa with
    | whole _ all => exact fun c hc => isBlank_of_isDigit (all c hc)
    | pointed _ all all' =>
      refine List.forall_mem_append.2 ⟨fun c hc => isBlank_of_isDigit (all c hc), ?_⟩
      exact List.forall_mem_cons.2 ⟨by decide, fun c hc => isBlank_of_isDigit (all' c hc)⟩
  · cases exponent with
    | absent => simp
    | marked marked signed _ all =>
      refine List.forall_mem_cons.2 ⟨?_, isBlank_of_mem_signed signed fun c hc =>
        isBlank_of_isDigit (all c hc)⟩
      obtain rfl | rfl := marked <;> decide

/-- Nothing is trimmed where there are no blanks. -/
theorem trim_eq_self {cs : List Char} (unblank : ∀ c ∈ cs, Text.isBlank c = false) :
    Text.trim cs = cs := by
  have kept {ds : List Char} (unblank : ∀ c ∈ ds, Text.isBlank c = false) :
      ds.dropWhile Text.isBlank = ds :=
    List.dropWhile_eq_self_iff.2 fun long => by
      rw [unblank _ (List.getElem_mem long)]
      exact Bool.false_ne_true
  rw [Text.trim, kept unblank, kept fun c hc => unblank c (List.mem_reverse.1 hc),
    List.reverse_reverse]

/-- An integer of at most fifteen digits is read exactly. -/
theorem ofDecimal_of_lt {w : Nat} (small : w < 10 ^ 15) :
    ofDecimal false w 0 = Number.ofNat w := by
  have length : (Nat.toDigits 10 w).length ≤ 15 := Nat.toDigits_length 10 w 15 (by decide) small
  unfold ofDecimal
  dsimp only
  split
  · rename_i zero
    rw [zero]
    rfl
  · rw [if_neg (by omega), if_neg (by omega), if_neg (by decide)]
    exact congrArg (Number.ofRatio false · 1) (Nat.mul_one w)

theorem isIntegral_of_integer? {n : Number} {i : Int} (integer : n.integer? = some i) :
    n.isIntegral = true ∧ n.wholePart = i.natAbs := by
  unfold Number.integer? at integer
  split at integer
  · rename_i integral
    obtain rfl := Option.some.inj integer
    refine ⟨integral, ?_⟩
    split <;> omega
  · cases integer

/-- A number is given by its sign and the natural it stands for. -/
theorem eq_of_wholePart {n : Number} (integral : n.isIntegral = true)
    (small : n.wholePart ≤ 2 ^ 53) :
    (if n.isNegative then (Number.ofNat n.wholePart).neg else Number.ofNat n.wholePart) = n := by
  have exact_ : n.fraction.1 % n.fraction.2 = 0 := by
    simp only [Number.isIntegral, Bool.and_eq_true, beq_iff_eq] at integral
    exact integral.2
  have units := (Number.whole_iff n.wholePart).1 ⟨exact_, rfl⟩
  have units' := (Number.integer?_eq_some_iff.1 (Number.integer?_ofNat small)).2.1
  have magnitude : (Number.ofNat n.wholePart).magnitude = n.magnitude :=
    Number.magnitude_eq_of_units (units'.trans units.symm)
  split
  · rename_i negative
    have bound : n.magnitude < Number.signWeight := Nat.mod_lt _ (by decide)
    refine Number.eq_of_magnitude ?_ ?_
    · rw [Number.neg, Number.isNegative_ofMagnitude, Number.isNegative_ofNat, negative]
      rfl
    · rw [Number.neg, Number.magnitude_ofMagnitude, magnitude, Nat.mod_eq_of_lt bound]
  · rename_i positive
    refine Number.eq_of_magnitude ?_ magnitude
    rw [Number.isNegative_ofNat, Bool.eq_false_iff.2 positive]

/-- A body behind the sign of a number is read, and then the sign. -/
theorem read_format_of_body {n : Number} {whole part : List Char} {e : Int}
    (body : DecimalBody whole part e n.formatMagnitude) :
    read n.format = some (
      let x := ofDecimal false (naturalOf (whole ++ part)) (e - part.length)
      if n.isNegative then x.neg else x) := by
  have signed := signed_format n
  have trimmed := trim_eq_self (isBlank_of_mem_signed signed (isBlank_of_mem_body body))
  have split := signed.sign_eq (body.unsigned isDigit_plus isDigit_minus)
  have reads : unsigned n.formatMagnitude = some _ := unsigned_eq_some_iff.2
    (.inr (decimal_eq_some_iff.2 ⟨false, _, whole, part, e, .bare, body, rfl⟩))
  apply read_eq_some_iff.2
  rw [trimmed, split]
  exact ⟨_, reads, rfl⟩

/-- **Number text reads back.** What is written of a finite number is read as a number, and what is
written of an integer below `10 ^ 15` as the same number, with the sign of a zero. -/
theorem read_format {n : Number} (finite : n.isFinite = true) :
    (read n.format).isSome = true ∧
      ∀ i, n.integer? = some i → i.natAbs < 10 ^ 15 → read n.format = some n := by
  constructor
  · obtain ⟨whole, part, e, body⟩ := decimalBody_formatMagnitude finite
    rw [read_format_of_body body]
    rfl
  · intro i integer small
    obtain ⟨integral, whole⟩ := isIntegral_of_integer? integer
    rw [← whole] at small
    have text : n.formatMagnitude = Decimal.digits n.wholePart := by
      rw [formatMagnitude_of_finite finite, integral, decide_eq_true small]
      rfl
    have body : DecimalBody (Decimal.digits n.wholePart) [] 0 n.formatMagnitude := by
      rw [text]
      exact decimalBody_digits n.wholePart
    have value : naturalOf (Decimal.digits n.wholePart ++ []) = n.wholePart := by
      rw [List.append_nil, Decimal.naturalOf_digits]
    have scale : (0 : Int) - ([] : List Char).length = 0 := rfl
    rw [read_format_of_body body, value, scale, ofDecimal_of_lt small]
    exact congrArg some (eq_of_wholePart integral (by omega))

/-- A small fraction is cut off and gets an exponent; a negative zero keeps its sign. -/
theorem read_format_negative :
    let fraction := Number.ofRatio true 1 30000
    let zero := Number.ofMagnitude true 0
    fraction.isFinite = true ∧ fraction.format = "-3.3333333333333e-05" ∧
      (read fraction.format).isSome = true ∧
    zero.isFinite = true ∧ zero.integer? = some 0 ∧ zero.format = "-0" ∧
      read zero.format = some zero := by
  intro fraction zero
  have finite : fraction.isFinite = true := by decide +kernel
  have finite' : zero.isFinite = true := by decide +kernel
  have integer : zero.integer? = some 0 := by decide +kernel
  exact ⟨finite, by decide +kernel, (read_format finite).1, finite', integer, by decide +kernel,
    (read_format finite').2 0 integer (by decide)⟩

end Numeral

end ScriptMachine

import DensityGraph.Proofs.Constraint.Acceptance
/-!
# Doubles on the extended line

Doubles that are numbers are ordered like what they stand for, between the infinities, and a
double stands for a whole number if its denominator divides its numerator.
-/

namespace DensityGraph

namespace Extended

open Constraint DensityGraph.Interval

/-!
# Order

A double stands for a place on the extended line, unless it is undefined.  All comparisons are
read from the order of these places.
-/

noncomputable def toEReal : Extended → EReal
  | finite x => x
  | infinite true => ⊥
  | infinite false => ⊤
  | undefined => ⊥

theorem compare_coe (u v : ℝ) : compare (u : EReal) v = compare u v := by
  rcases lt_trichotomy u v with hlt | rfl | hgt
  · rw [compare_lt_iff_lt.mpr hlt, compare_lt_iff_lt.mpr (EReal.coe_lt_coe hlt)]
  · rw [compare_eq_iff_eq.mpr rfl, compare_eq_iff_eq.mpr rfl]
  · rw [compare_gt_iff_gt.mpr hgt, compare_gt_iff_gt.mpr (EReal.coe_lt_coe hgt)]

theorem order_eq_toEReal {x y : Extended} (hx : x ≠ undefined) (hy : y ≠ undefined) :
    order x y = some (compare x.toEReal y.toEReal) := by
  cases x with
  | undefined => exact absurd rfl hx
  | finite u =>
      cases y with
      | undefined => exact absurd rfl hy
      | finite v => exact congrArg some (compare_coe u v).symm
      | infinite s =>
          cases s with
          | true => exact congrArg some (compare_gt_iff_gt.mpr (EReal.bot_lt_coe u)).symm
          | false => exact congrArg some (compare_lt_iff_lt.mpr (EReal.coe_lt_top u)).symm
  | infinite s =>
      cases y with
      | undefined => exact absurd rfl hy
      | finite v =>
          cases s with
          | true => exact congrArg some (compare_lt_iff_lt.mpr (EReal.bot_lt_coe v)).symm
          | false => exact congrArg some (compare_gt_iff_gt.mpr (EReal.coe_lt_top v)).symm
      | infinite t =>
          cases s <;> cases t
          · exact congrArg some (compare_eq_iff_eq.mpr rfl).symm
          · exact congrArg some (compare_gt_iff_gt.mpr bot_lt_top).symm
          · exact congrArg some (compare_lt_iff_lt.mpr bot_lt_top).symm
          · exact congrArg some (compare_eq_iff_eq.mpr rfl).symm

theorem less_eq_toEReal {x y : Extended} (hx : x ≠ undefined) (hy : y ≠ undefined) :
    Scalar.less x y = decide (x.toEReal < y.toEReal) := by
  rw [less_eq_order, order_eq_toEReal hx hy, Bool.eq_iff_iff]
  simp [compare_lt_iff_lt]

theorem equal_eq_toEReal {x y : Extended} (hx : x ≠ undefined) (hy : y ≠ undefined) :
    Scalar.equal x y = decide (x.toEReal = y.toEReal) := by
  rw [equal_eq_order, order_eq_toEReal hx hy, Bool.eq_iff_iff]
  simp

theorem eq_of_equal {x y : Extended} (h : Scalar.equal x y = true) : x = y := by
  cases x with
  | undefined => cases h
  | finite u =>
      cases y with
      | finite v => exact congrArg finite (of_decide_eq_true h)
      | _ => cases h
  | infinite s =>
      cases y with
      | infinite t => exact congrArg infinite (eq_of_beq h)
      | _ => cases h

variable {x y : Float}

theorem ofFloat_ne_undefined (hx : x.isNaN = false) : ofFloat x ≠ undefined := by
  intro hundefined
  rw [ofFloat_eq_undefined_iff, hx] at hundefined
  cases hundefined

theorem lt_iff (hx : x.isNaN = false) (hy : y.isNaN = false) :
    x < y ↔ (ofFloat x).toEReal < (ofFloat y).toEReal := by
  have hless := less_eq_toEReal (ofFloat_ne_undefined hx) (ofFloat_ne_undefined hy)
  rw [less_ofFloat] at hless
  exact decide_eq_decide.mp hless

theorem beq_iff (hx : x.isNaN = false) (hy : y.isNaN = false) :
    (x == y) = true ↔ (ofFloat x).toEReal = (ofFloat y).toEReal := by
  rw [← equal_ofFloat, equal_eq_toEReal (ofFloat_ne_undefined hx) (ofFloat_ne_undefined hy)]
  exact decide_eq_true_iff

theorem lessEq_ofFloat (x y : Float) :
    Scalar.lessEq (ofFloat x) (ofFloat y) = decide (x ≤ y) := by
  have hle : decide (x ≤ y) = (order (ofFloat x) (ofFloat y)).any Ordering.isLE := by
    rw [order_ofFloat]
    rw [Bool.eq_iff_iff, decide_eq_true_iff]
    exact decide_eq_true_iff
  unfold Scalar.lessEq
  rw [less_eq_order, equal_eq_order, hle]
  cases order (ofFloat x) (ofFloat y) with
  | none => rfl
  | some o => cases o <;> rfl

theorem not_lt_iff (hx : x.isNaN = false) (hy : y.isNaN = false) : ¬x < y ↔ y ≤ x := by
  have hle := lessEq_of_ne (ofFloat_ne_undefined hy) (ofFloat_ne_undefined hx)
  rw [Extended.lessEq_ofFloat, less_ofFloat] at hle
  rw [← decide_eq_true_iff (p := y ≤ x), hle]
  simp

theorem isNaN_of_le (h : x ≤ y) : x.isNaN = false ∧ y.isNaN = false := by
  have hle := Extended.lessEq_ofFloat x y
  rw [decide_eq_true h] at hle
  constructor
  · rw [← Bool.not_eq_true, ← ofFloat_eq_undefined_iff]
    intro hx
    rw [hx] at hle
    cases hle
  · rw [← Bool.not_eq_true, ← ofFloat_eq_undefined_iff]
    intro hy
    rw [hy] at hle
    cases hx : ofFloat x <;> rw [hx] at hle <;> cases hle

theorem le_of_lt (h : x < y) : x ≤ y := by
  have hle := Extended.lessEq_ofFloat x y
  unfold Scalar.lessEq at hle
  rw [less_ofFloat, decide_eq_true h, Bool.true_or] at hle
  exact of_decide_eq_true hle.symm

theorem isNaN_of_lt (h : x < y) : x.isNaN = false ∧ y.isNaN = false :=
  isNaN_of_le (le_of_lt h)

end Extended

/-!
# Whole numbers
-/

namespace Dyadic

theorem mantissa_mul (d : Dyadic) :
    (d.mantissa : ℝ) * 2 ^ d.exponent = (d.numerator : ℝ) / d.denominator := by
  have hexponent : d.exponent = (d.exponent.toNat : Int) - ((-d.exponent).toNat : Int) := by
    omega
  have hpower : (2 : ℝ) ^ d.exponent = 2 ^ d.exponent.toNat / 2 ^ (-d.exponent).toNat := by
    calc
      (2 : ℝ) ^ d.exponent = 2 ^ ((d.exponent.toNat : Int) - ((-d.exponent).toNat : Int)) :=
        congrArg _ hexponent
      _ = _ := by rw [zpow_sub₀ two_ne_zero, zpow_natCast, zpow_natCast]
  have hnumerator : d.numerator = d.mantissa * 2 ^ d.exponent.toNat := rfl
  have hdenominator : d.denominator = 2 ^ (-d.exponent).toNat := rfl
  rw [hpower, hnumerator, hdenominator]
  push_cast
  ring

theorem isWhole_iff (x : Float) : isWhole x = true ↔
    x.isInf = true ∨ x.isFinite = true ∧ ∃ k : ℤ, toReal x = k := by
  unfold isWhole
  rw [Bool.or_eq_true, Bool.and_eq_true, beq_iff_eq, ← Nat.dvd_iff_mod_eq_zero]
  apply or_congr_right
  apply and_congr_right
  intro hx
  have hpos : ((ofFloat x).denominator : ℝ) ≠ 0 := by
    have hpower : (ofFloat x).denominator = 2 ^ (-(ofFloat x).exponent).toNat := rfl
    rw [hpower]
    positivity
  have habs : toReal x = (if (ofFloat x).negative then -1 else 1) *
      ((ofFloat x).numerator / (ofFloat x).denominator) := by
    unfold toReal
    rw [if_pos hx, mul_assoc, mantissa_mul]
  rw [habs]
  constructor
  · rintro ⟨q, hq⟩
    rw [hq, Nat.cast_mul, mul_div_cancel_left₀ _ hpos]
    split
    · exact ⟨-q, by push_cast; ring⟩
    · exact ⟨q, by push_cast; ring⟩
  · rintro ⟨k, hk⟩
    have hwhole : ∃ j : ℤ, ((ofFloat x).numerator : ℝ) / (ofFloat x).denominator = j := by
      split at hk
      · exact ⟨-k, by rw [Int.cast_neg, ← hk]; ring⟩
      · exact ⟨k, by rw [← hk]; ring⟩
    rcases hwhole with ⟨j, hj⟩
    rw [div_eq_iff hpos] at hj
    have hint : ((ofFloat x).numerator : ℤ) = j * (ofFloat x).denominator := by
      exact_mod_cast hj
    exact Int.natCast_dvd_natCast.mp ⟨j, hint.trans (mul_comm _ _)⟩

end Dyadic

end DensityGraph

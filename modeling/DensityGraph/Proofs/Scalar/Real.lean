import Mathlib.Analysis.SpecialFunctions.Artanh
import Mathlib.Analysis.SpecialFunctions.Sigmoid
import Mathlib.Analysis.SpecialFunctions.Trigonometric.Arctan
import Mathlib.Probability.CDF
import Mathlib.Probability.Distributions.Beta
import Mathlib.Probability.Distributions.Gamma
import Mathlib.Probability.Distributions.Gaussian.Real
import DensityGraph.Proofs.Evaluation.Total
/-!
# Exact scalars

Constraints, operations and densities mean what they do over the real numbers, which are
added exactly.
-/

namespace DensityGraph

noncomputable def Dyadic.toReal (x : Float) : ℝ :=
  let d := Dyadic.ofFloat x
  if x.isFinite then (if d.negative then -1 else 1) * d.mantissa * (2 : ℝ) ^ d.exponent else 0

open Float.Model in
/-- The number that an unpacked double stands for. -/
noncomputable def Dyadic.value : UnpackedFloat → ℝ
  | .finite .positive m e _ => m * (2 : ℝ) ^ e
  | .finite .negative m e _ => -(m * (2 : ℝ) ^ e)
  | _ => 0

open ProbabilityTheory Classical in
/-- Functions have their values on the reals in all precisions, and zero outside their
domains. -/
noncomputable instance : Scalar ℝ where
  ofNat n := n
  constant _ x := Dyadic.toReal x
  undefined := 0
  pi := Real.pi
  exp := Real.exp
  log := Real.log
  log1p x := Real.log (1 + x)
  expm1 x := Real.exp x - 1
  sqrt := Real.sqrt
  abs x := |x|
  tanh := Real.tanh
  arctan := Real.arctan
  sigmoid := Real.sigmoid
  softplus x := Real.log (1 + Real.exp x)
  power x y := x ^ y
  xlogy x y := x * Real.log y
  xlog1py x y := x * Real.log (1 + y)
  logGamma x := Real.log |Real.Gamma x|
  logNormalCdf x := Real.log (cdf (gaussianReal 0 1) x)
  gammaCdf a x := cdf (gammaMeasure a 1) x
  betaCdf a b x := cdf (betaMeasure a b) x
  isFinite _ := true
  less x y := decide (x < y)
  equal x y := decide (x = y)
  select c x y := if c then x else y

theorem Dyadic.toReal_zero : Dyadic.toReal 0.0 = 0 := by
  have hmantissa : (Dyadic.ofFloat 0.0).mantissa = 0 := by decide +kernel
  unfold toReal
  simp only [hmantissa, Nat.cast_zero, mul_zero, zero_mul]
  exact ite_self 0

instance : Scalar.Exact ℝ where
  add_comm := add_comm
  add_assoc := add_assoc
  constant_zero _ := Dyadic.toReal_zero.trans Nat.cast_zero.symm

/-!
# Literals, sums and inverses
-/

namespace Scalar

@[simp] theorem zero_real : (zero : ℝ) = 0 := Nat.cast_zero

@[simp] theorem one_real : (one : ℝ) = 1 := Nat.cast_one

theorem lessEq_real {x y : ℝ} (h : y < x) : lessEq x y = false := by
  unfold lessEq
  rw [Bool.or_eq_false_iff]
  exact ⟨decide_eq_false (not_lt_of_gt h), decide_eq_false (ne_of_gt h)⟩

theorem half_real : (half : ℝ) = 1 / 2 := by
  unfold half
  rw [one_real]
  change (1 : ℝ) / ((2 : ℕ) : ℝ) = 1 / 2
  rw [Nat.cast_ofNat]

theorem sum_real (xs : List ℝ) : sum xs = xs.sum := by
  unfold sum
  rw [zero_real, List.sum_eq_foldl]

theorem arctanh_real {x : ℝ} (hx : x ∈ Set.Ioo (-1) 1) : arctanh x = Real.artanh x := by
  have hplus : 1 + x ≠ 0 := by linarith [hx.1]
  have hminus : 1 - x ≠ 0 := by linarith [hx.2]
  rw [Real.artanh_eq_half_log (Set.Ioo_subset_Icc_self hx), Real.log_div hplus hminus]
  unfold arctanh
  rw [half_real]
  change (Real.log (1 + x) - Real.log (1 + -x)) * (1 / 2) = _
  rw [← sub_eq_add_neg, mul_comm]

end Scalar

end DensityGraph

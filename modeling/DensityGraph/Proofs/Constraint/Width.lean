import DensityGraph.Proofs.Graph.Edit
import DensityGraph.Proofs.Number.Rounding
/-!
# Widths of intervals

A variable in an interval has a lower bound below its upper one, and their difference is
not rounded to zero.  Where the interval is asked for without bounds, its width is
infinite.
-/

namespace DensityGraph
namespace Interval

open Float.Model UnpackedFloat Number Rounding

variable {b : Interval}

def IsInfinity (s : Sign) (x : Float) : Bool :=
  match x.toModel.unpack, s with
  | .infinity .positive, .positive => true
  | .infinity .negative, .negative => true
  | _, _ => false

theorem unpack_of_isInfinity {s : Sign} {x : Float} (h : IsInfinity s x = true) :
    x.toModel.unpack = .infinity s := by
  unfold IsInfinity at h
  split at h
  · assumption
  · assumption
  · cases h

theorem unpack_of_beq {s : Sign} {x y : Float} (hy : IsInfinity s y = true)
    (h : (x == y) = true) : x.toModel.unpack = .infinity s := by
  change x.toModel.unpack.beq y.toModel.unpack = true at h
  rw [unpack_of_isInfinity hy] at h
  cases hx : x.toModel.unpack with
  | infinity s' =>
      rw [hx] at h
      cases s <;> cases s' <;> first | rfl | cases h
  | notANumber =>
      rw [hx] at h
      cases h
  | zero s' =>
      rw [hx] at h
      cases s <;> cases h
  | finite s' m e hm =>
      rw [hx] at h
      cases s <;> cases h

theorem isPositive_of_unconstrained (h : Constraint.ofBounds b = .unconstrained) :
    IsPositive (b.upper - b.lower).toModel.unpack := by
  unfold Constraint.ofBounds at h
  split at h
  · rename_i hwhole
    rw [Bool.and_eq_true] at hwhole
    apply isPositive_sub_infinity
    · exact unpack_of_beq (by decide +kernel) hwhole.2
    · exact unpack_of_beq (by decide +kernel) hwhole.1
  · split at h
    · cases h
    · split at h <;> cases h

theorem isPositive_of_interval (h : Constraint.ofBounds b = .interval)
    (hproper : b.isProper = true) (hordered : ¬b.upper ≤ b.lower) :
    IsPositive (b.upper - b.lower).toModel.unpack := by
  unfold isProper at hproper
  rw [h] at hproper
  simp only [Bool.and_eq_true] at hproper
  exact isPositive_sub hproper.2 hproper.1 hordered

theorem Fits.width (h : b.Fits .interval) :
    Scalar.lessEq (Scalar.literal b.upper - Scalar.literal b.lower : Number) Scalar.zero =
      false := by
  apply lessEq_literal_sub
  rcases h.constraint with hbounds | hbounds
  · exact isPositive_of_interval hbounds.symm h.proper h.ordered
  · exact isPositive_of_unconstrained hbounds

end Interval
end DensityGraph

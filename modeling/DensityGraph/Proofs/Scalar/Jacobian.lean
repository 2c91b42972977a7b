import Mathlib.Analysis.Calculus.Deriv.Comp
import Mathlib.Analysis.Calculus.Deriv.Pi
import Mathlib.Analysis.Calculus.Deriv.Prod
import Mathlib.Data.List.GetD
import Mathlib.LinearAlgebra.Matrix.Block
import Mathlib.Topology.Algebra.Module.Determinant
import Mathlib.Topology.Algebra.Module.ModuleTopology
/-!
# Triangular Jacobians

If each entry of a map depends on no later coordinate than its own, the Jacobian of the map
is triangular, and its determinant is the product of the slopes of the entries along their
own coordinates.  Coordinates in another order than the entries change no more than the sign.
-/

namespace DensityGraph

variable {k : Nat} {F : (Fin k → ℝ) → Fin k → ℝ} {x : Fin k → ℝ}

theorem hasDerivAt_coordinate (hF : DifferentiableAt ℝ F x) (p q : Fin k) :
    HasDerivAt (fun v => F (Function.update x q v) p) (fderiv ℝ F x (Pi.single q 1) p) (x q) := by
  have hself : Function.update x q (x q) = x := Function.update_eq_self q x
  have hF' : HasFDerivAt F (fderiv ℝ F x) (Function.update x q (x q)) := by
    rw [hself]
    exact hF.hasFDerivAt
  exact hasDerivAt_pi.mp (hF'.comp_hasDerivAt (x q) (hasDerivAt_update x q (x q))) p

theorem sign_mul_det_fderiv {d : Fin k → ℝ} (σ : Equiv.Perm (Fin k))
    (hF : DifferentiableAt ℝ F x)
    (hlater : forall p q, p < q -> forall v, F (Function.update x (σ q) v) p = F x p)
    (hown : forall p, HasDerivAt (fun v => F (Function.update x (σ p) v) p) (d p) (x (σ p))) :
    (((Equiv.Perm.sign σ : ℤˣ) : ℤ) : ℝ) * (fderiv ℝ F x).det = ∏ p, d p := by
  let J := LinearMap.toMatrix' (fderiv ℝ F x : (Fin k → ℝ) →ₗ[ℝ] Fin k → ℝ)
  have hentry : forall p q, J p q = fderiv ℝ F x (Pi.single q 1) p := fun p q =>
    LinearMap.toMatrix'_apply _ p q
  have htriangular : (J.submatrix id σ).IsLowerTriangular := by
    intro p q hpq
    have hconstant : HasDerivAt (fun v => F (Function.update x (σ q) v) p) 0 (x (σ q)) := by
      rw [funext (hlater p q hpq)]
      exact hasDerivAt_const (x (σ q)) (F x p)
    rw [Matrix.submatrix_apply, id_eq, hentry]
    exact (hasDerivAt_coordinate hF p (σ q)).unique hconstant
  have hdiagonal : forall p, J.submatrix id σ p p = d p := by
    intro p
    rw [Matrix.submatrix_apply, id_eq, hentry]
    exact (hasDerivAt_coordinate hF p (σ p)).unique (hown p)
  calc (((Equiv.Perm.sign σ : ℤˣ) : ℤ) : ℝ) * (fderiv ℝ F x).det
      = (((Equiv.Perm.sign σ : ℤˣ) : ℤ) : ℝ) * J.det :=
        congrArg _ (LinearMap.det_toMatrix' _).symm
    _ = (J.submatrix id σ).det := (Matrix.det_permute' σ J).symm
    _ = ∏ p, J.submatrix id σ p p := Matrix.det_of_isLowerTriangular _ htriangular
    _ = ∏ p, d p := Finset.prod_congr rfl fun p _ => hdiagonal p

theorem det_fderiv_of_triangular {d : Fin k → ℝ} (hF : DifferentiableAt ℝ F x)
    (hlater : forall p q, p < q -> forall v, F (Function.update x q v) p = F x p)
    (hown : forall p, HasDerivAt (fun v => F (Function.update x p v) p) (d p) (x p)) :
    (fderiv ℝ F x).det = ∏ p, d p := by
  have hdet := sign_mul_det_fderiv (1 : Equiv.Perm (Fin k)) hF hlater hown
  rw [Equiv.Perm.sign_one, Units.val_one, Int.cast_one, one_mul] at hdet
  exact hdet

theorem abs_det_fderiv_of_triangular {d : Fin k → ℝ} (σ : Equiv.Perm (Fin k))
    (hF : DifferentiableAt ℝ F x)
    (hlater : forall p q, p < q -> forall v, F (Function.update x (σ q) v) p = F x p)
    (hown : forall p, HasDerivAt (fun v => F (Function.update x (σ p) v) p) (d p) (x (σ p))) :
    |(fderiv ℝ F x).det| = |∏ p, d p| := by
  have hsign : |(((Equiv.Perm.sign σ : ℤˣ) : ℤ) : ℝ)| = 1 := by
    rw [← Int.cast_abs, Int.isUnit_iff_abs_eq.mp (Units.isUnit _), Int.cast_one]
  rw [← sign_mul_det_fderiv σ hF hlater hown, abs_mul, hsign, one_mul]

/-!
# Coordinates

Vectors are indexed by natural numbers, with zeros behind their end.
-/

section Coordinates

theorem getD_ofFn_of_lt (v : Fin k → ℝ) (p : Fin k) : (List.ofFn v).getD p 0 = v p := by
  rw [List.getD_eq_getElem _ _ (by rw [List.length_ofFn]; exact p.isLt), List.getElem_ofFn]

theorem getD_ofFn_of_ge (v : Fin k → ℝ) {p : Nat} (hp : k ≤ p) : (List.ofFn v).getD p 0 = 0 :=
  List.getD_eq_default _ _ (by rw [List.length_ofFn]; exact hp)

theorem getD_ofFn_update (v : Fin k → ℝ) (q : Fin k) (u : ℝ) {p : Nat} (hp : p ≠ q.1) :
    (List.ofFn (Function.update v q u)).getD p 0 = (List.ofFn v).getD p 0 := by
  rcases Nat.lt_or_ge p k with hlt | hge
  · have hne : (⟨p, hlt⟩ : Fin k) ≠ q := fun heq => hp (congrArg Fin.val heq)
    rw [getD_ofFn_of_lt _ ⟨p, hlt⟩, getD_ofFn_of_lt _ ⟨p, hlt⟩, Function.update_of_ne hne]
  · rw [getD_ofFn_of_ge _ hge, getD_ofFn_of_ge _ hge]

theorem differentiableAt_getD_ofFn (p : Nat) (v : Fin k → ℝ) :
    DifferentiableAt ℝ (fun v : Fin k → ℝ => (List.ofFn v).getD p 0) v := by
  rcases Nat.lt_or_ge p k with hlt | hge
  · simp only [fun v => getD_ofFn_of_lt v ⟨p, hlt⟩]
    exact differentiableAt_apply _ v
  · simp only [fun v : Fin k → ℝ => getD_ofFn_of_ge v hge]
    exact differentiableAt_const 0

end Coordinates

end DensityGraph

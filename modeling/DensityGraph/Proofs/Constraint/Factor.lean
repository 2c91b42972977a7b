import DensityGraph.Proofs.Tensor.Cholesky
import DensityGraph.Proofs.Constraint.Square
import DensityGraph.Constraint.Inverse
/-!
# Matrices from factors

Both matrix constraints multiply a lower triangular factor by its transpose, and take the
factor of the product to get back.  What this needs of the factor does not depend on the
constraint, nor does the way in which batches of free vectors become batches of matrices.
-/

namespace DensityGraph
namespace Constraint

open Rows

variable {l : Rows ℝ} {t : Tensor ℝ} {n : Nat}

/-!
# Products

The product of a lower triangle with its transpose is symmetric and positive definite, and the
factorization finds the triangle again.
-/

theorem gram_map_pad (n : Nat) (l : Rows ℝ) : gram (l.map (pad n)) = gram l := by
  have hdot : forall xs ys : List ℝ, dot (pad n xs) (pad n ys) = dot xs ys := by
    intro xs ys
    unfold pad
    rw [Scalar.zero_real, dot_zeros, dot_comm, dot_zeros, dot_comm]
  unfold gram
  simp only [List.map_map, Function.comp_def, hdot]

theorem length_gram (l : Rows ℝ) : (gram l).length = l.length := by
  unfold gram
  rw [List.length_map]

theorem length_row_gram {r : List ℝ} (hr : r ∈ gram l) : r.length = l.length := by
  rcases List.mem_map.mp hr with ⟨_, _, rfl⟩
  rw [List.length_map]

theorem isClose_iff {x y : ℝ} :
    isClose x y = true ↔ |x - y| ≤ 1 / 10 ^ 8 + 1 / 10 ^ 5 * |y| := by
  have hpow : forall k : Nat, (Scalar.ofNat (Nat.pow 10 k) : ℝ) = 10 ^ k := by
    intro k
    exact (Nat.cast_pow 10 k).trans (by rw [Nat.cast_ofNat])
  have hclose : isClose x y = (decide (|x - y| < 1 / 10 ^ 8 + 1 / 10 ^ 5 * |y|) ||
      decide (|x - y| = 1 / 10 ^ 8 + 1 / 10 ^ 5 * |y|) || decide (x = y)) := by
    unfold isClose
    rw [hpow, hpow, Scalar.one_real]
    rfl
  rw [hclose, Bool.or_eq_true, Bool.or_eq_true, decide_eq_true_eq, decide_eq_true_eq,
    decide_eq_true_eq, ← le_iff_lt_or_eq]
  constructor
  · rintro (h | rfl)
    · exact h
    · rw [sub_self, abs_zero]
      positivity
  · exact Or.inl

theorem isClose_self (a : ℝ) : isClose a a = true := by
  unfold isClose
  have hequal : Scalar.equal a a = true := decide_eq_true rfl
  rw [hequal, Bool.or_true]

theorem isSymmetric_gram (l : Rows ℝ) : isSymmetric (gram l) = true := by
  unfold isSymmetric
  rw [length_gram, List.all_eq_true]
  intro i hi
  rw [List.all_eq_true]
  intro j hj
  rw [List.mem_range] at hi hj
  rw [get_gram hi hj, get_gram hj hi, dot_comm]
  exact isClose_self _

theorem factorOf_eq_ok_iff {α : Type} [Scalar α] {t : Tensor α} {n : Nat} {rows l : Rows α}
    (ht : t.shape = [n, n]) : factorOf t = .ok (rows, l) ↔
      rows = ofTensor t [] ∧ isSymmetric rows = true ∧ cholesky? rows = some l := by
  unfold factorOf
  rw [ht]
  simp only [decide_true, Bool.true_and]
  constructor
  · intro h
    split at h
    · split at h
      · cases h
        exact ⟨rfl, by assumption, by assumption⟩
      · cases h
    · cases h
  · rintro ⟨rfl, hsymmetric, hcholesky⟩
    rw [hsymmetric, hcholesky]
    rfl

theorem rows_ofTensor {α : Type} [Scalar α] {t : Tensor α} {n : Nat} (ht : t.shape = [n, n]) :
    (ofTensor t []).length = n ∧ forall r, r ∈ ofTensor t [] -> r.length = n := by
  have hcolumns := Tensor.columns_square ht
  unfold ofTensor Rows.ofFn
  constructor
  · rw [List.length_map, List.length_range, hcolumns]
  · intro r hr
    rcases List.mem_map.mp hr with ⟨i, _, rfl⟩
    rw [List.length_map, List.length_range, hcolumns]

/-- The rows of the factor of an accepted matrix have the entries of its lower triangle as
products. -/
theorem factors_of_factorOf {t : Tensor ℝ} {n : Nat} {rows l : Rows ℝ} (ht : t.shape = [n, n])
    (h : factorOf t = .ok (rows, l)) :
    rows = ofTensor t [] ∧ Factors l (fun i j => t.get [i, j]) ∧ l.length = n := by
  rcases (factorOf_eq_ok_iff ht).mp h with ⟨rfl, _, hcholesky⟩
  rcases rows_ofTensor ht with ⟨hlength, hrows⟩
  have hwidth : forall r, r ∈ ofTensor t [] -> (ofTensor t []).length ≤ r.length := by
    intro r hr
    rw [hlength, hrows r hr]
  rcases cholesky?_spec hwidth hcholesky with ⟨hl, hn⟩
  rw [hlength] at hn
  refine ⟨rfl, hl.congr ?_, hn⟩
  intro i j hi hj
  rw [hn] at hi
  exact Tensor.get_ofTensor ht hi (Nat.lt_of_le_of_lt hj hi)

theorem factorOf_gram (h : IsFactor l) (hshape : t.shape = [l.length, l.length])
    (hrows : ofTensor t [] = gram l) : factorOf t = .ok (gram l, l) :=
  (factorOf_eq_ok_iff hshape).mpr ⟨hrows.symm, isSymmetric_gram l, cholesky?_gram h⟩

/-!
# Positive definite matrices
-/

/-- Symmetric positive definite matrices. -/
structure IsCovariance (n : Nat) (t : Tensor ℝ) : Prop where
  shape : t.shape = [n, n]
  posDef : (Matrix.of fun i j : Fin n => t.get [i, j]).PosDef

theorem isCovariance_of_factor (h : IsFactor l) (hn : l.length = n) (hshape : t.shape = [n, n])
    (hget : forall i j, i < n -> j < n -> t.get [i, j] = (gram l).get i j) :
    IsCovariance n t where
  shape := hshape
  posDef := by
    have heq : (Matrix.of fun i j : Fin n => t.get [i, j]) = (gram l).toMatrix n := by
      ext i j
      exact hget i j i.isLt j.isLt
    rw [heq]
    exact posDef_gram h hn

theorem IsCovariance.exists_factor (h : IsCovariance n t) :
    ∃ l, IsFactor l ∧ l.length = n ∧
      forall i j, i < n -> j < n -> t.get [i, j] = (gram l).get i j := by
  rcases Rows.exists_factor h.posDef with ⟨l, hfactor, hn, hgram⟩
  refine ⟨l, hfactor, hn, ?_⟩
  intro i j hi hj
  exact (congrFun (congrFun hgram ⟨i, hi⟩) ⟨j, hj⟩).symm

/-!
# Matrices from free vectors
-/

section Forward

variable {c : Constraint} {lower upper : ℝ} {b k : Nat} {f : List ℝ → Rows ℝ}

def MakesMatrices (c : Constraint) (lower upper : ℝ) (k n : Nat) (f : List ℝ → Rows ℝ) : Prop :=
  forall x : Tensor ℝ, x.shape.getLast? = some k ->
    c.forward lower upper x = .ok (x.mapVectors [n, n] fun v => (f v).flatten)

theorem MakesMatrices.vector (h : MakesMatrices c lower upper k n f) {x : List ℝ}
    (hx : x.length = k) (hf : f x = gram l) (hn : l.length = n) :
    ∃ t, c.forward lower upper (Tensor.vector x) = .ok t ∧ t.shape = [n, n] ∧
      ofTensor t [] = gram l := by
  have hforward := h (Tensor.vector x) (congrArg some hx)
  rw [Tensor.mapVectors_vector, hf] at hforward
  refine ⟨_, hforward, rfl, ?_⟩
  apply Tensor.ofTensor_ofFn
  · rw [length_gram, hn]
  · intro r hr
    rw [length_row_gram hr, hn]

theorem MakesMatrices.batch (h : MakesMatrices c lower upper k n f) {x : Tensor ℝ}
    (hx : x.shape = [b, k]) :
    ∃ t, c.forward lower upper x = .ok t ∧ t.shape = [b, n, n] ∧
      forall r, r < b ->
        c.forward lower upper (Tensor.vector (x.row r).toList) = .ok (t.row r) := by
  have hlast : x.shape.getLast? = some k := by
    rw [hx]
    rfl
  rcases Tensor.mapVectors_rows [n, n] (fun v => (f v).flatten) hx with ⟨hshape, hrows⟩
  refine ⟨_, h x hlast, hshape, ?_⟩
  intro r hr
  have hlength : (x.row r).toList.length = k := by
    rw [Tensor.length_toList, Tensor.shape_row hx, Shape.size_cons, Shape.size_nil, Nat.mul_one]
  rw [h (Tensor.vector (x.row r).toList) (congrArg some hlength), Tensor.mapVectors_vector,
    hrows r hr]

/-- A constraint whose inverse finds every free vector again, and whose values are all that
satisfy a condition, is a correspondence of free vectors and such values. -/
theorem exists_equiv {P : Tensor ℝ → Prop}
    (hinverse : forall x : List ℝ, x.length = k -> ∃ t,
      c.forward lower upper (Tensor.vector x) = .ok t ∧ P t ∧ c.inverse lower upper t = .ok x)
    (hvalue : forall t, P t -> ∃ x : List ℝ, x.length = k ∧
      c.forward lower upper (Tensor.vector x) = .ok t) :
    ∃ e : {x : List ℝ // x.length = k} ≃ {t : Tensor ℝ // P t},
      (forall x, c.forward lower upper (Tensor.vector x.1) = .ok (e x).1) ∧
        forall t, c.inverse lower upper t.1 = .ok (e.symm t).1 := by
  choose g hforward hP hback using
    fun x : {x : List ℝ // x.length = k} => hinverse x.1 x.2
  have hbijective : Function.Bijective fun x => (⟨g x, hP x⟩ : {t : Tensor ℝ // P t}) := by
    constructor
    · intro x y hxy
      have hsame := hback x
      rw [Subtype.mk.inj hxy, hback y] at hsame
      exact Subtype.ext (Except.ok.inj hsame).symm
    · intro t
      rcases hvalue t.1 t.2 with ⟨x, hx, hforward'⟩
      have hsame := hforward ⟨x, hx⟩
      rw [hforward'] at hsame
      exact ⟨⟨x, hx⟩, Subtype.ext (Except.ok.inj hsame).symm⟩
  refine ⟨Equiv.ofBijective _ hbijective, hforward, ?_⟩
  intro t
  rcases hbijective.2 t with ⟨x, rfl⟩
  rw [Equiv.ofBijective_symm_apply_apply]
  exact hback x

end Forward

end Constraint
end DensityGraph

import DensityGraph.Proofs.Constraint.Factor
import DensityGraph.Proofs.Constraint.Triangle
/-!
# Covariance matrices

The free vector of a covariance matrix holds the logarithms of the diagonal of the Cholesky
factor in front of the rows below the diagonal.  Every factor is made of one such vector, and
hence free vectors and covariance matrices correspond to each other.
-/

namespace DensityGraph
namespace Constraint

open Rows

variable {n : Nat} {x : List ℝ} {l : Rows ℝ} {t : Tensor ℝ}

/-!
# Factors of free vectors
-/

noncomputable def lowerRows (n : Nat) (x : List ℝ) : Rows ℝ :=
  List.zipWith (fun cs d => cs ++ [Real.exp d]) (Triangle.rows n (x.drop n)) (x.take n)

noncomputable def freeVector (l : Rows ℝ) : List ℝ :=
  (l.map fun r => Real.log (r.getLastD 1)) ++ (l.map List.dropLast).flatten

theorem gram_covarianceFactor (n : Nat) (x : List ℝ) :
    gram (covarianceFactor n x) = gram (lowerRows n x) := by
  have hpad : covarianceFactor n x = (lowerRows n x).map (pad n) := by
    unfold covarianceFactor lowerRows
    rw [List.map_zipWith]
    rfl
  rw [hpad, gram_map_pad]

theorem length_take_size (hx : x.length = Triangle.size n) : (x.take n).length = n := by
  rw [List.length_take_of_le]
  rw [hx]
  exact Triangle.le_size n

theorem length_drop_size (hx : x.length = Triangle.size n) :
    (x.drop n).length = Triangle.start n := by
  rw [List.length_drop, hx, ← Triangle.start_add, Nat.add_sub_cancel]

theorem length_lowerRows (hx : x.length = Triangle.size n) : (lowerRows n x).length = n := by
  unfold lowerRows
  rw [List.length_zipWith, Triangle.length_rows, length_take_size hx, Nat.min_self]

theorem isFactor_lowerRows (hx : x.length = Triangle.size n) : IsFactor (lowerRows n x) := by
  intro i r hr
  rcases List.getElem?_zipWith_eq_some.mp hr with ⟨cs, d, hcs, _, rfl⟩
  exact ⟨cs, Real.exp d, rfl, Triangle.length_row (length_drop_size hx) hcs, Real.exp_pos d⟩

theorem freeVector_lowerRows (hx : x.length = Triangle.size n) :
    freeVector (lowerRows n x) = x := by
  have hlength : (Triangle.rows n (x.drop n)).length = (x.take n).length := by
    rw [Triangle.length_rows, length_take_size hx]
  have hdiagonal : (lowerRows n x).map (fun r => Real.log (r.getLastD 1)) = x.take n := by
    unfold lowerRows
    rw [List.map_zipWith]
    simp only [List.getLastD_concat, Real.log_exp]
    exact (List.map_zip_eq_zipWith (f := Prod.snd)).symm.trans (List.map_snd_zip hlength.ge)
  have hrows : (lowerRows n x).map List.dropLast = Triangle.rows n (x.drop n) := by
    unfold lowerRows
    rw [List.map_zipWith]
    simp only [List.dropLast_concat]
    exact (List.map_zip_eq_zipWith (f := Prod.fst)).symm.trans (List.map_fst_zip hlength.le)
  unfold freeVector
  rw [hdiagonal, hrows, Triangle.flatten_rows (length_drop_size hx), List.take_append_drop]

section OfFactor

variable (h : IsFactor l)
include h

theorem map_length_dropLast : (l.map List.dropLast).map List.length = List.range l.length := by
  rw [List.map_map]
  apply List.ext_getElem
  · rw [List.length_map, List.length_range]
  · intro i hi _
    rw [List.length_map] at hi
    rw [List.getElem_map, List.getElem_range, Function.comp_apply, List.length_dropLast,
      h.length_row hi, Nat.add_sub_cancel]

theorem length_freeVector : (freeVector l).length = Triangle.size l.length := by
  unfold freeVector
  rw [List.length_append, List.length_map, Triangle.length_flatten (map_length_dropLast h),
    Nat.add_comm, Triangle.start_add]

theorem lowerRows_freeVector : lowerRows l.length (freeVector l) = l := by
  have hdiagonal : (l.map fun r => Real.log (r.getLastD 1)).length = l.length :=
    List.length_map _
  have hrow : forall r, r ∈ l -> r.dropLast ++ [Real.exp (Real.log (r.getLastD 1))] = r := by
    intro r hr
    rcases List.mem_iff_getElem?.mp hr with ⟨i, hi⟩
    rcases h i r hi with ⟨cs, d, rfl, _, hd⟩
    rw [List.dropLast_concat, List.getLastD_concat, Real.exp_log hd]
  unfold lowerRows freeVector
  rw [List.drop_left' hdiagonal, List.take_left' hdiagonal,
    Triangle.rows_flatten (map_length_dropLast h), List.zipWith_map, List.zipWith_self]
  exact (List.map_congr_left hrow).trans (List.map_id l)

theorem inverseCovariance_gram (hshape : t.shape = [l.length, l.length])
    (hrows : ofTensor t [] = gram l) : inverseCovariance t = .ok (freeVector l) := by
  unfold inverseCovariance freeVector
  rw [factorOf_gram h hshape hrows, Scalar.one_real, ← List.flatMap_def]
  rfl

end OfFactor

/-!
# Free vectors and covariance matrices
-/

theorem makesMatrices_covariance (lower upper : ℝ) (hn : 1 ≤ n) :
    MakesMatrices covariance lower upper (Triangle.size n) n (covarianceMatrix n) := by
  intro x hx
  unfold forward sideOf
  rw [hx]
  simp only [Triangle.root?_size hn]
  rfl

theorem exists_covariance (lower upper : ℝ) (hn : 1 ≤ n) (hx : x.length = Triangle.size n) :
    ∃ t, covariance.forward lower upper (Tensor.vector x) = .ok t ∧ IsCovariance n t ∧
      covariance.inverse lower upper t = .ok x := by
  have hlength := length_lowerRows hx
  have hfactor := isFactor_lowerRows hx
  rcases (makesMatrices_covariance lower upper hn).vector hx (gram_covarianceFactor n x) hlength
    with ⟨t, hforward, hshape, hrows⟩
  refine ⟨t, hforward, isCovariance_of_factor hfactor hlength hshape ?_, ?_⟩
  · intro i j hi hj
    rw [← hrows, Tensor.get_ofTensor hshape hi hj]
  · change inverseCovariance t = _
    rw [inverseCovariance_gram hfactor (by rw [hlength, hshape]) hrows, freeVector_lowerRows hx]

theorem IsCovariance.exists_forward (lower upper : ℝ) (hn : 1 ≤ n) (ht : IsCovariance n t) :
    ∃ x : List ℝ, x.length = Triangle.size n ∧
      covariance.forward lower upper (Tensor.vector x) = .ok t := by
  rcases ht.exists_factor with ⟨l, hfactor, rfl, hget⟩
  have hlength := length_freeVector hfactor
  have hgram : covarianceMatrix l.length (freeVector l) = gram l := by
    unfold covarianceMatrix
    rw [gram_covarianceFactor, lowerRows_freeVector hfactor]
  rcases (makesMatrices_covariance lower upper hn).vector hlength hgram rfl with
    ⟨u, hforward, hshape, hrows⟩
  have heq : t = u := by
    apply Tensor.ext_square ht.shape hshape
    intro i j hi hj
    rw [hget i j hi hj, ← hrows, Tensor.get_ofTensor hshape hi hj]
  exact ⟨_, hlength, heq ▸ hforward⟩

/-- Free vectors of length `n * (n + 1) / 2` correspond one to one to covariance matrices with
`n` rows.  The map of the constraint goes one way, and its inverse goes back.  A batch of free
vectors goes the same way, one by one. -/
theorem exists_covariance_equiv {n : Nat} (hn : 2 ≤ n) (lower upper : ℝ) :
    ∃ e : {x : List ℝ // x.length = n * (n + 1) / 2} ≃ {t : Tensor ℝ // IsCovariance n t},
      (forall x, covariance.forward lower upper (Tensor.vector x.1) = .ok (e x).1) ∧
        (forall t, covariance.inverse lower upper t.1 = .ok (e.symm t).1) ∧
        forall b x, x.shape = [b, n * (n + 1) / 2] ->
          ∃ t, covariance.forward lower upper x = .ok t ∧ t.shape = [b, n, n] ∧
            forall r, r < b ->
              covariance.forward lower upper (Tensor.vector (x.row r).toList) = .ok (t.row r) := by
  have hn' : 1 ≤ n := Nat.le_of_succ_le hn
  rw [Triangle.half_mul_succ]
  rcases exists_equiv (fun x => exists_covariance lower upper hn')
    (fun t ht => IsCovariance.exists_forward lower upper hn' ht) with ⟨e, hforward, hinverse⟩
  exact ⟨e, hforward, hinverse, fun b x => (makesMatrices_covariance lower upper hn').batch⟩

theorem exists_covariance_equiv_three : 2 ≤ 3 ∧
    ∃ e : {x : List ℝ // x.length = 6} ≃ {t : Tensor ℝ // IsCovariance 3 t},
      (forall x, covariance.forward 0 0 (Tensor.vector x.1) = .ok (e x).1) ∧
        (forall t, covariance.inverse 0 0 t.1 = .ok (e.symm t).1) ∧
          ∃ t, covariance.forward 0 0 (Tensor.full [2, 6] (0 : ℝ)) = .ok t ∧
            t.shape = [2, 3, 3] := by
  rcases exists_covariance_equiv (show 2 ≤ 3 by decide) 0 0 with ⟨e, hforward, hinverse, hbatch⟩
  rcases hbatch 2 (Tensor.full [2, 6] 0) rfl with ⟨t, ht, hshape, _⟩
  exact ⟨by decide, e, hforward, hinverse, t, ht, hshape⟩

end Constraint
end DensityGraph

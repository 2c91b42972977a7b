import Mathlib.Analysis.SpecialFunctions.Log.Deriv
import DensityGraph.Proofs.Constraint.Covariance
import DensityGraph.Proofs.Scalar.Jacobian
/-!
# The Jacobian of covariance matrices

An entry on or below the diagonal of a covariance matrix depends on the entries of the factor
in its own row and in the row of its column, up to its own column.  Row by row, none of them
comes after the entry of the factor in its own cell.  In the free vector they are in another
order, with the diagonal in front, which does not change the absolute determinant.
-/

namespace DensityGraph
namespace Constraint

open Rows

/-!
# Places in the free vector
-/

section Slots

variable {k n i j i' j' : Nat}

def slot (n i j : Nat) : Nat :=
  if j < i then n + (Triangle.start i + j) else i

theorem slot_of_lt (h : j < i) : slot n i j = n + (Triangle.start i + j) := if_pos h

theorem slot_self (n i : Nat) : slot n i i = i := if_neg (lt_irrefl i)

theorem slot_lt (hj : j ≤ i) (hi : i < n) : slot n i j < Triangle.size n := by
  rw [← Triangle.start_add]
  rcases Nat.lt_or_eq_of_le hj with hlt | rfl
  · have hle := Triangle.start_le hi
    rw [slot_of_lt hlt]
    omega
  · rw [slot_self]
    exact Nat.lt_add_left _ hi

theorem slot_inj (hj : j ≤ i) (hi : i < n) (hj' : j' ≤ i') (hi' : i' < n)
    (h : slot n i j = slot n i' j') : i = i' ∧ j = j' := by
  rcases Nat.lt_or_eq_of_le hj with hlt | rfl
  · rw [slot_of_lt hlt] at h
    rcases Nat.lt_or_eq_of_le hj' with hlt' | rfl
    · rw [slot_of_lt hlt'] at h
      have hcell := Triangle.getElem?_cells.mpr ⟨hlt, hi, rfl⟩
      rw [Nat.add_left_cancel h, Triangle.getElem?_cells.mpr ⟨hlt', hi', rfl⟩] at hcell
      cases hcell
      exact ⟨rfl, rfl⟩
    · rw [slot_self] at h
      omega
  · rw [slot_self] at h
    rcases Nat.lt_or_eq_of_le hj' with hlt' | rfl
    · rw [slot_of_lt hlt'] at h
      omega
    · rw [slot_self] at h
      exact ⟨h, h⟩

theorem slot_ne (hj : j ≤ i) (hi : i < n) (hj' : j' ≤ i') (hi' : i' < n)
    (h : Triangle.size i + j < Triangle.size i' + j') : slot n i j ≠ slot n i' j' := by
  intro heq
  rcases slot_inj hj hi hj' hi' heq with ⟨rfl, rfl⟩
  exact lt_irrefl _ h

theorem exists_slots (hk : k = Triangle.size n) :
    ∃ σ : Equiv.Perm (Fin k), forall (p : Fin k) i j, (Triangle.closedCells n).getD p (0, 0) = (i, j) ->
      (σ p).1 = slot n i j := by
  have hslot : forall p : Fin k, ∃ q : Fin k, forall i j,
      (Triangle.closedCells n).getD p (0, 0) = (i, j) -> q.1 = slot n i j := by
    intro p
    rcases Triangle.exists_closedCell hk p with ⟨i, j, hcell, hj, hi, _⟩
    refine ⟨⟨slot n i j, hk ▸ slot_lt hj hi⟩, ?_⟩
    intro i' j' hcell'
    cases hcell.symm.trans hcell'
    rfl
  choose f hf using hslot
  have hinjective : Function.Injective f := by
    intro p p' h
    rcases Triangle.exists_closedCell hk p with ⟨i, j, hcell, hj, hi, hp⟩
    rcases Triangle.exists_closedCell hk p' with ⟨i', j', hcell', hj', hi', hp'⟩
    have hsame : slot n i j = slot n i' j' := by
      rw [← hf p i j hcell, h, hf p' i' j' hcell']
    rcases slot_inj hj hi hj' hi' hsame with ⟨rfl, rfl⟩
    exact Fin.ext (hp.trans hp'.symm)
  exact ⟨Equiv.ofBijective f (Finite.injective_iff_bijective.mp hinjective), hf⟩

end Slots

/-!
# Entries on and below the diagonal

The free vector gives the factor row by row, with the logarithms of the diagonal first.  The
entries of the matrix are products of rows of the factor.
-/

section Entries

variable {k n i j : Nat}

/-- The entries of a square tensor on and below its diagonal, row by row. -/
noncomputable def lowerTriangle (n k : Nat) (t : Tensor ℝ) : Fin k → ℝ := fun p =>
  let cell := (Triangle.closedCells n).getD p (0, 0)
  t.get [cell.1, cell.2]

noncomputable def lowerEntry (n : Nat) (v : Fin k → ℝ) (i j : Nat) : ℝ :=
  let free := (List.ofFn v).getD (slot n i j) 0
  if j < i then free else Real.exp free

noncomputable def covarianceEntry (n : Nat) (v : Fin k → ℝ) (i j : Nat) : ℝ :=
  ∑ l ∈ Finset.range (j + 1), lowerEntry n v i l * lowerEntry n v j l

noncomputable def covarianceEntries (n : Nat) (v : Fin k → ℝ) : Fin k → ℝ := fun p =>
  let cell := (Triangle.closedCells n).getD p (0, 0)
  covarianceEntry n v cell.1 cell.2

theorem lowerEntry_of_lt (v : Fin k → ℝ) (h : j < i) :
    lowerEntry n v i j = (List.ofFn v).getD (slot n i j) 0 := if_pos h

theorem lowerEntry_self (n : Nat) (v : Fin k → ℝ) (i : Nat) :
    lowerEntry n v i i = Real.exp ((List.ofFn v).getD i 0) := by
  unfold lowerEntry
  rw [if_neg (lt_irrefl i), slot_self]

theorem lowerRows_ofFn (hk : k = Triangle.size n) (v : Fin k → ℝ) (hi : i < n) :
    (lowerRows n (List.ofFn v))[i]? = some ((List.range (i + 1)).map (lowerEntry n v i)) := by
  have hstart := Triangle.start_le hi
  have hlength : (List.ofFn v).length = Triangle.start n + n := by
    rw [List.length_ofFn, hk, Triangle.start_add]
  have hget : forall p, (hp : p < (List.ofFn v).length) ->
      (List.ofFn v)[p] = (List.ofFn v).getD p 0 := fun p hp =>
    (List.getD_eq_getElem _ _ hp).symm
  have hdiagonal : ((List.ofFn v).take n)[i]? = some ((List.ofFn v).getD i 0) := by
    rw [List.getElem?_take_of_lt hi, List.getElem?_eq_getElem (by omega), hget]
  have hrow : (((List.ofFn v).drop n).drop (Triangle.start i)).take i =
      (List.range i).map (lowerEntry n v i) := by
    apply List.ext_getElem
    · rw [List.length_take, List.length_drop, List.length_drop, List.length_map,
        List.length_range]
      omega
    · intro j _ hj
      rw [List.length_map, List.length_range] at hj
      rw [List.getElem_take, List.getElem_drop, List.getElem_drop, List.getElem_map,
        List.getElem_range, lowerEntry_of_lt v hj, slot_of_lt hj, hget]
  unfold lowerRows
  rw [List.getElem?_zipWith_eq_some]
  refine ⟨_, _, Triangle.getElem?_rows hi _, hdiagonal, ?_⟩
  rw [hrow, List.range_succ, List.map_append, List.map_singleton, lowerEntry_self]

theorem dot_lowerEntry (v : Fin k → ℝ) (hj : j ≤ i) :
    dot ((List.range (i + 1)).map (lowerEntry n v i))
      ((List.range (j + 1)).map (lowerEntry n v j)) = covarianceEntry n v i j := by
  have hget : forall {m l}, l < m + 1 ->
      ((List.range (m + 1)).map (lowerEntry n v m)).getD l 0 = lowerEntry n v m l := by
    intro m l hl
    rw [List.getD_eq_getElem _ _ (by rwa [List.length_map, List.length_range]),
      List.getElem_map, List.getElem_range]
  have hlength : ((List.range (j + 1)).map (lowerEntry n v j)).length ≤ j + 1 := by
    rw [List.length_map, List.length_range]
  rw [dot_comm, dot_eq_sum hlength]
  apply Finset.sum_congr rfl
  intro l hl
  have hlt : l < j + 1 := Finset.mem_range.mp hl
  rw [hget hlt, hget (by omega), mul_comm]

theorem covarianceEntries_forward (lower upper : ℝ) (hn : 1 ≤ n)
    (v : Fin (Triangle.size n) → ℝ) :
    ∃ t, covariance.forward lower upper (Tensor.vector (List.ofFn v)) = .ok t ∧
      covarianceEntries n v = lowerTriangle n _ t := by
  have hlength : (List.ofFn v).length = Triangle.size n := List.length_ofFn
  rcases (makesMatrices_covariance lower upper hn).vector hlength (gram_covarianceFactor n _)
    (length_lowerRows hlength) with ⟨t, hforward, hshape, hrows⟩
  refine ⟨t, hforward, ?_⟩
  funext p
  rcases Triangle.exists_closedCell rfl p with ⟨i, j, hcell, hj, hi, _⟩
  have hj' : j < n := lt_of_le_of_lt hj hi
  rcases List.getElem?_eq_some_iff.mp (lowerRows_ofFn rfl v hi) with ⟨hrow, hget⟩
  rcases List.getElem?_eq_some_iff.mp (lowerRows_ofFn rfl v hj') with ⟨hcolumn, hget'⟩
  unfold covarianceEntries lowerTriangle
  rw [hcell]
  show covarianceEntry n v i j = t.get [i, j]
  rw [← Tensor.get_ofTensor hshape hi hj', hrows, get_gram hrow hcolumn, hget, hget',
    dot_lowerEntry v hj]

end Entries

/-!
# The map is triangular
-/

section Triangular

variable {k n i j : Nat}

theorem differentiableAt_covarianceEntries (n : Nat) (v : Fin k → ℝ) :
    DifferentiableAt ℝ (covarianceEntries n) v := by
  have hentry : forall i j, DifferentiableAt ℝ (fun v : Fin k → ℝ => lowerEntry n v i j) v := by
    intro i j
    have hfree := differentiableAt_getD_ofFn (slot n i j) v
    unfold lowerEntry
    by_cases hlt : j < i
    · simp only [if_pos hlt]
      exact hfree
    · simp only [if_neg hlt]
      exact hfree.exp
  rw [differentiableAt_pi]
  intro p
  unfold covarianceEntries covarianceEntry
  exact DifferentiableAt.fun_sum fun l _ => (hentry _ l).fun_mul (hentry _ l)

theorem lowerEntry_update (v : Fin k → ℝ) {q : Fin k} (u : ℝ) (h : slot n i j ≠ q.1) :
    lowerEntry n (Function.update v q u) i j = lowerEntry n v i j := by
  unfold lowerEntry
  rw [getD_ofFn_update v q u h]

theorem lowerEntry_update_self (v : Fin k → ℝ) {q : Fin k} (u : ℝ) (h : q.1 = slot n i j) :
    lowerEntry n (Function.update v q u) i j = if j < i then u else Real.exp u := by
  unfold lowerEntry
  rw [← h, getD_ofFn_of_lt, Function.update_self]

theorem covarianceEntry_update (v : Fin k → ℝ) {q : Fin k} (u : ℝ) {i' j' : Nat}
    (hj : j ≤ i) (hi : i < n) (hj' : j' ≤ i') (hi' : i' < n) (hq : q.1 = slot n i' j')
    (hle : Triangle.size i + j ≤ Triangle.size i' + j') :
    covarianceEntry n (Function.update v q u) i j =
      (∑ l ∈ Finset.range j, lowerEntry n v i l * lowerEntry n v j l) +
        lowerEntry n (Function.update v q u) i j * lowerEntry n (Function.update v q u) j j := by
  have hsize : Triangle.size j ≤ Triangle.size i := Triangle.size_strictMono.monotone hj
  have hsum : forall l, l ∈ Finset.range j ->
      lowerEntry n (Function.update v q u) i l * lowerEntry n (Function.update v q u) j l =
        lowerEntry n v i l * lowerEntry n v j l := by
    intro l hl
    have hlt : l < j := Finset.mem_range.mp hl
    have hrow : slot n i l ≠ q.1 := hq ▸ slot_ne (by omega) hi hj' hi' (by omega)
    have hcolumn : slot n j l ≠ q.1 := hq ▸ slot_ne hlt.le (by omega) hj' hi' (by omega)
    rw [lowerEntry_update v u hrow, lowerEntry_update v u hcolumn]
  unfold covarianceEntry
  rw [Finset.sum_range_succ, Finset.sum_congr rfl hsum]

theorem covarianceEntry_update_of_lt (v : Fin k → ℝ) {q : Fin k} (u : ℝ) {i' j' : Nat}
    (hj : j ≤ i) (hi : i < n) (hj' : j' ≤ i') (hi' : i' < n) (hq : q.1 = slot n i' j')
    (hlt : Triangle.size i + j < Triangle.size i' + j') :
    covarianceEntry n (Function.update v q u) i j = covarianceEntry n v i j := by
  have hsize : Triangle.size j ≤ Triangle.size i := Triangle.size_strictMono.monotone hj
  have hrow : slot n i j ≠ q.1 := hq ▸ slot_ne hj hi hj' hi' hlt
  have hcolumn : slot n j j ≠ q.1 := hq ▸ slot_ne (le_refl j) (by omega) hj' hi' (by omega)
  rw [covarianceEntry_update v u hj hi hj' hi' hq hlt.le, lowerEntry_update v u hrow,
    lowerEntry_update v u hcolumn]
  unfold covarianceEntry
  rw [Finset.sum_range_succ]

noncomputable def covarianceSlope (v : Fin k → ℝ) (i j : Nat) : ℝ :=
  if j < i then Real.exp ((List.ofFn v).getD j 0)
  else Real.exp ((List.ofFn v).getD j 0) * Real.exp ((List.ofFn v).getD j 0) +
    Real.exp ((List.ofFn v).getD j 0) * Real.exp ((List.ofFn v).getD j 0)

theorem hasDerivAt_covarianceEntry (v : Fin k → ℝ) {q : Fin k} (hj : j ≤ i) (hi : i < n)
    (hq : q.1 = slot n i j) :
    HasDerivAt (fun u => covarianceEntry n (Function.update v q u) i j)
      (covarianceSlope v i j) (v q) := by
  simp only [fun u => covarianceEntry_update v u hj hi hj hi hq (le_refl _)]
  apply HasDerivAt.const_add
  unfold covarianceSlope
  rcases Nat.lt_or_eq_of_le hj with hlt | rfl
  · have hsize : Triangle.size j < Triangle.size i := Triangle.size_strictMono hlt
    have hcolumn : slot n j j ≠ q.1 := hq ▸ slot_ne (le_refl j) (by omega) hj hi (by omega)
    simp only [fun u => lowerEntry_update v u hcolumn, fun u => lowerEntry_update_self v u hq,
      if_pos hlt, lowerEntry_self]
    exact ((hasDerivAt_id (v q)).mul_const _).congr_deriv (one_mul _)
  · have hentry : (List.ofFn v).getD j 0 = v q := by
      rw [← slot_self n j, ← hq, getD_ofFn_of_lt]
    simp only [fun u => lowerEntry_update_self v u hq, if_neg (lt_irrefl j), hentry]
    exact (Real.hasDerivAt_exp (v q)).mul (Real.hasDerivAt_exp (v q))

theorem abs_det_covarianceEntries (hk : k = Triangle.size n) (v : Fin k → ℝ) :
    |(fderiv ℝ (covarianceEntries n) v).det| =
      |∏ p : Fin k, covarianceSlope v ((Triangle.closedCells n).getD p (0, 0)).1
        ((Triangle.closedCells n).getD p (0, 0)).2| := by
  rcases exists_slots hk with ⟨σ, hσ⟩
  apply abs_det_fderiv_of_triangular σ (differentiableAt_covarianceEntries n v)
  · intro p q hpq u
    rcases Triangle.exists_closedCell hk p with ⟨i, j, hcell, hj, hi, hp⟩
    rcases Triangle.exists_closedCell hk q with ⟨i', j', hcell', hj', hi', hq⟩
    have hlt : p.1 < q.1 := hpq
    rw [hp, hq] at hlt
    unfold covarianceEntries
    rw [hcell]
    exact covarianceEntry_update_of_lt v u hj hi hj' hi' (hσ q i' j' hcell') hlt
  · intro p
    rcases Triangle.exists_closedCell hk p with ⟨i, j, hcell, hj, hi, _⟩
    unfold covarianceEntries
    rw [hcell]
    exact hasDerivAt_covarianceEntry v hj hi (hσ p i j hcell)

end Triangular

/-!
# The logarithm of the determinant
-/

section Logarithm

variable {k n : Nat}

theorem covarianceSlope_pos (v : Fin k → ℝ) (i j : Nat) : 0 < covarianceSlope v i j := by
  unfold covarianceSlope
  split
  · exact Real.exp_pos _
  · positivity

theorem log_covarianceSlope_of_lt (v : Fin k → ℝ) {i j : Nat} (h : j < i) :
    Real.log (covarianceSlope v i j) = (List.ofFn v).getD j 0 := by
  unfold covarianceSlope
  rw [if_pos h, Real.log_exp]

theorem log_covarianceSlope_self (v : Fin k → ℝ) (i : Nat) :
    Real.log (covarianceSlope v i i) = Real.log 2 + 2 * (List.ofFn v).getD i 0 := by
  unfold covarianceSlope
  rw [if_neg (lt_irrefl i), ← two_mul, ← Real.exp_add, Real.log_mul two_ne_zero (Real.exp_ne_zero _),
    Real.log_exp, two_mul ((List.ofFn v).getD i 0)]

theorem sum_log_covarianceSlope (n : Nat) (v : Fin k → ℝ) :
    ∑ i ∈ Finset.range n, ∑ j ∈ Finset.range (i + 1), Real.log (covarianceSlope v i j) =
      n * Real.log 2 + ∑ i ∈ Finset.range n, ((n : ℝ) + 1 - i) * (List.ofFn v).getD i 0 := by
  have hrow : forall i, i ∈ Finset.range n ->
      ∑ j ∈ Finset.range (i + 1), Real.log (covarianceSlope v i j) =
        ∑ j ∈ Finset.range i, (List.ofFn v).getD j 0 +
          (Real.log 2 + 2 * (List.ofFn v).getD i 0) := by
    intro i _
    rw [Finset.sum_range_succ, log_covarianceSlope_self]
    congr 1
    exact Finset.sum_congr rfl fun j hj => log_covarianceSlope_of_lt v (Finset.mem_range.mp hj)
  have hweight : forall i, ((n : ℝ) + 1 - i) * (List.ofFn v).getD i 0 =
      ((n : ℝ) - 1 - i) * (List.ofFn v).getD i 0 + 2 * (List.ofFn v).getD i 0 := by
    intro i
    ring
  rw [Finset.sum_congr rfl hrow, Finset.sum_add_distrib, Finset.sum_add_distrib,
    Triangle.sum_columns, Finset.sum_const, Finset.card_range, nsmul_eq_mul]
  simp only [hweight, Finset.sum_add_distrib]
  ring

theorem abs_det_pos (hk : k = Triangle.size n) (v : Fin k → ℝ) :
    0 < |(fderiv ℝ (covarianceEntries n) v).det| := by
  rw [abs_det_covarianceEntries hk v, abs_pos]
  exact Finset.prod_ne_zero_iff.mpr fun p _ => ne_of_gt (covarianceSlope_pos v _ _)

theorem log_abs_det (hk : k = Triangle.size n) (v : Fin k → ℝ) :
    Real.log |(fderiv ℝ (covarianceEntries n) v).det| =
      n * Real.log 2 + ∑ i ∈ Finset.range n, ((n : ℝ) + 1 - i) * (List.ofFn v).getD i 0 := by
  have hlength : k = (Triangle.closedCells n).length := by rw [Triangle.length_closedCells, hk]
  rw [abs_det_covarianceEntries hk v, Real.log_abs,
    Real.log_prod fun p _ => ne_of_gt (covarianceSlope_pos v _ _),
    Triangle.sum_getD hlength (0, 0) fun cell => Real.log (covarianceSlope v cell.1 cell.2),
    Triangle.sum_closedCells n fun i j => Real.log (covarianceSlope v i j),
    sum_log_covarianceSlope]

end Logarithm

/-!
# The Jacobian of the constraint
-/

theorem get_covarianceLogJacobian {n k : Nat} {batch : Shape} {index : List Nat} {x : Tensor ℝ}
    (hx : x.shape = batch ++ [k]) (hk : k = Triangle.size n) (hindex : batch.Within index) :
    (covarianceLogJacobian n x).get index =
      Real.log |(fderiv ℝ (covarianceEntries n) fun p : Fin k => x.get (index ++ [p.1])).det| := by
  have hwithin : Shape.Within x.shape.dropLast index := by
    rw [hx, List.dropLast_concat]
    exact hindex
  have hsum : forall i, i ∈ Finset.range n ->
      (Scalar.ofNat (n + 1 - i) : ℝ) * x.get (index ++ [i]) =
        ((n : ℝ) + 1 - i) * (List.ofFn fun p : Fin k => x.get (index ++ [p.1])).getD i 0 := by
    intro i hi
    rw [Finset.mem_range] at hi
    have hlt : i < k := by
      have hle := Triangle.le_size n
      omega
    have hweight : (Scalar.ofNat (n + 1 - i) : ℝ) = (n : ℝ) + 1 - i := by
      show ((n + 1 - i : ℕ) : ℝ) = _
      rw [Nat.cast_sub (by omega)]
      push_cast
      rfl
    rw [hweight, getD_ofFn_of_lt _ ⟨i, hlt⟩]
  unfold covarianceLogJacobian
  rw [Tensor.get_ofFn _ hwithin, log_abs_det hk, Scalar.sum_real]
  show (n : ℝ) * Real.log ((2 : ℕ) : ℝ) + ∑ i ∈ Finset.range n, _ = _
  rw [Finset.sum_congr rfl hsum, Nat.cast_ofNat]

/-- The logarithm of the Jacobian is that of the absolute determinant of the derivative of the
map from the free vector to the entries of the matrix on and below the diagonal. -/
theorem exists_covariance_derivative {n : Nat} (hn : 2 ≤ n) (lower upper : ℝ) :
    ∃ F : (Fin (n * (n + 1) / 2) → ℝ) → Fin (n * (n + 1) / 2) → ℝ,
      (forall v, ∃ t, covariance.forward lower upper (Tensor.vector (List.ofFn v)) = .ok t ∧
        F v = lowerTriangle n _ t) ∧
      forall (batch : Shape) x, x.shape = batch ++ [n * (n + 1) / 2] ->
        ∃ t, covariance.logJacobian lower upper x = .ok t ∧ t.shape = batch ∧
          forall index, batch.Within index ->
            DifferentiableAt ℝ F (fun p => x.get (index ++ [p.1])) ∧
              (fderiv ℝ F fun p => x.get (index ++ [p.1])).det ≠ 0 ∧
                t.get index = Real.log |(fderiv ℝ F fun p => x.get (index ++ [p.1])).det| := by
  have hn' : 1 ≤ n := Nat.le_of_succ_le hn
  rw [Triangle.half_mul_succ]
  refine ⟨covarianceEntries n, covarianceEntries_forward lower upper hn', ?_⟩
  intro batch x hx
  have hjacobian : covariance.logJacobian lower upper x = .ok (covarianceLogJacobian n x) := by
    unfold logJacobian sideOf
    simp [hx, Triangle.root?_size hn', Except.map]
  have hshape : (covarianceLogJacobian n x).shape = batch := by
    show x.shape.dropLast = batch
    rw [hx, List.dropLast_concat]
  refine ⟨_, hjacobian, hshape, ?_⟩
  intro index hindex
  refine ⟨differentiableAt_covarianceEntries n _, ?_, get_covarianceLogJacobian hx rfl hindex⟩
  exact abs_pos.mp (abs_det_pos rfl _)

theorem exists_covariance_derivative_three :
    2 ≤ 3 ∧ (Tensor.full [1, 6] (0 : ℝ)).shape = [1] ++ [6] ∧ Shape.Within [1] [0] ∧
      ∃ F : (Fin 6 → ℝ) → Fin 6 → ℝ,
        (forall v, ∃ t, covariance.forward 0 0 (Tensor.vector (List.ofFn v)) = .ok t ∧
          F v = lowerTriangle 3 _ t) ∧
        ∃ t, covariance.logJacobian 0 0 (Tensor.full [1, 6] (0 : ℝ)) = .ok t ∧
          t.get [0] =
            Real.log |(fderiv ℝ F fun p => (Tensor.full [1, 6] (0 : ℝ)).get [0, p.1]).det| := by
  have hwithin : Shape.Within [1] [0] := ⟨Nat.one_pos, trivial⟩
  refine ⟨by decide, rfl, hwithin, ?_⟩
  rcases exists_covariance_derivative (show 2 ≤ 3 by decide) 0 0 with ⟨F, hF, hjacobian⟩
  rcases hjacobian [1] (Tensor.full [1, 6] 0) rfl with ⟨t, ht, _, hentry⟩
  exact ⟨F, hF, t, ht, (hentry [0] hwithin).2.2⟩

end Constraint
end DensityGraph

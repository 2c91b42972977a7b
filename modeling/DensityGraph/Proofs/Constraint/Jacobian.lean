import Mathlib.Analysis.SpecialFunctions.Sqrt
import Mathlib.Analysis.SpecialFunctions.Trigonometric.DerivHyp
import DensityGraph.Proofs.Constraint.Correlation
import DensityGraph.Proofs.Scalar.Jacobian
/-!
# The Jacobian of correlation matrices

An entry below the diagonal of a correlation matrix depends on the partial correlations in
its own row and in the row of its column, up to its own column.  Row by row, none of them
comes after its own partial correlation.  The Jacobian is therefore triangular, and it is
left to count how often each partial correlation contributes to the diagonal.
-/

namespace DensityGraph
namespace Constraint

open Rows

/-!
# Entries from partial correlations

Entry `(i, j)` of the factor is the partial correlation there times the root of what the
entries in front of it leave over of the row.  The entry of the matrix is a product of two
such rows.
-/

section Entries

variable {y y' : Nat → Nat → ℝ} {i j : Nat}

noncomputable def remainder (y : Nat → Nat → ℝ) (i j : Nat) : ℝ :=
  ∏ k ∈ Finset.range j, (1 - y i k * y i k)

noncomputable def factorEntry (y : Nat → Nat → ℝ) (i j : Nat) : ℝ :=
  y i j * √(remainder y i j)

noncomputable def matrixEntry (y : Nat → Nat → ℝ) (i j : Nat) : ℝ :=
  (∑ k ∈ Finset.range j, factorEntry y j k * factorEntry y i k) +
    √(remainder y j j) * factorEntry y i j

theorem remainder_succ (y : Nat → Nat → ℝ) (i j : Nat) :
    remainder y i (j + 1) = remainder y i j * (1 - y i j * y i j) :=
  Finset.prod_range_succ _ j

theorem remainder_pos (hy : forall k, k < j -> y i k ∈ Set.Ioo (-1) 1) :
    0 < remainder y i j :=
  Finset.prod_pos fun k hk => sub_pos.mpr (mul_self_lt_one (hy k (Finset.mem_range.mp hk)))

theorem remainder_congr (h : forall k, k < j -> y' i k = y i k) :
    remainder y' i j = remainder y i j := by
  apply Finset.prod_congr rfl
  intro k hk
  rw [h k (Finset.mem_range.mp hk)]

theorem factorEntry_congr (h : forall k, k < j -> y' i k = y i k) :
    factorEntry y' i j = y' i j * √(remainder y i j) := by
  unfold factorEntry
  rw [remainder_congr h]

theorem matrixEntry_congr (hcolumn : forall k, k < j -> y' j k = y j k)
    (hrow : forall k, k < j -> y' i k = y i k) :
    matrixEntry y' i j = (∑ k ∈ Finset.range j, factorEntry y j k * factorEntry y i k) +
      √(remainder y j j) * (y' i j * √(remainder y i j)) := by
  have hsum : forall k, k ∈ Finset.range j ->
      factorEntry y' j k * factorEntry y' i k = factorEntry y j k * factorEntry y i k := by
    intro k hk
    have hlt : k < j := Finset.mem_range.mp hk
    rw [factorEntry_congr fun l hl => hcolumn l (hl.trans hlt),
      factorEntry_congr fun l hl => hrow l (hl.trans hlt), hcolumn k hlt, hrow k hlt]
    rfl
  unfold matrixEntry
  rw [Finset.sum_congr rfl hsum, remainder_congr hcolumn, factorEntry_congr hrow]

theorem unitRow_range {g : Nat → ℝ} {s : ℝ} (hs : s < 1) (n : Nat)
    (hg : forall k, k < n -> g k ∈ Set.Ioo (-1) 1) :
    unitRow s ((List.range n).map g) =
      (List.range n).map (fun j => g j * √((1 - s) * ∏ k ∈ Finset.range j, (1 - g k * g k))) ++
        [√((1 - s) * ∏ k ∈ Finset.range n, (1 - g k * g k))] := by
  induction n generalizing g s with
  | zero => simp [unitRow_nil]
  | succ n ih =>
      have hsum := one_sub_sumsq hs.le (g 0)
      have hs' : s + g 0 * √(1 - s) * (g 0 * √(1 - s)) < 1 := by
        rw [← sub_pos, hsum]
        exact mul_pos (sub_pos.mpr hs) (sub_pos.mpr (mul_self_lt_one (hg 0 (Nat.succ_pos n))))
      have hproduct : forall j, (1 - s) * (1 - g 0 * g 0) *
          ∏ k ∈ Finset.range j, (1 - g (k + 1) * g (k + 1)) =
            (1 - s) * ∏ k ∈ Finset.range (j + 1), (1 - g k * g k) := by
        intro j
        rw [Finset.prod_range_succ', mul_assoc, mul_comm (1 - g 0 * g 0)]
      have hrest := ih (g := g ∘ Nat.succ) hs' fun k hk => hg (k + 1) (Nat.succ_lt_succ hk)
      simp only [Function.comp_apply, Nat.succ_eq_add_one, hsum, hproduct] at hrest
      rw [List.range_succ_eq_map, List.map_cons, List.map_map, unitRow_cons, hrest]
      simp only [List.map_cons, List.map_map, Finset.range_zero, Finset.prod_empty, mul_one,
        List.cons_append]
      rfl

theorem unitRow_factorEntry (hy : forall k, y i k ∈ Set.Ioo (-1) 1) :
    unitRow 0 ((List.range i).map (y i)) =
      (List.range i).map (factorEntry y i) ++ [√(remainder y i i)] := by
  rw [unitRow_range one_pos i fun k _ => hy k]
  simp only [sub_zero, one_mul]
  rfl

theorem dot_unitRow (hj : j < i) (hy : forall i k, y i k ∈ Set.Ioo (-1) 1) :
    dot (unitRow 0 ((List.range i).map (y i))) (unitRow 0 ((List.range j).map (y j))) =
      matrixEntry y i j := by
  have hentry : forall {m k} (last : List ℝ), k < m ->
      ((List.range m).map (factorEntry y m) ++ last).getD k 0 = factorEntry y m k := by
    intro m k last hk
    rw [List.getD_append _ _ _ _ (by simpa using hk), List.getD_eq_getElem _ _ (by simpa using hk),
      List.getElem_map, List.getElem_range]
  have hlast : ((List.range j).map (factorEntry y j) ++ [√(remainder y j j)]).getD j 0 =
      √(remainder y j j) := by
    rw [List.getD_append_right _ _ _ _ (by simp)]
    simp
  rw [dot_comm, unitRow_factorEntry (hy i), unitRow_factorEntry (hy j),
    dot_eq_sum (n := j + 1) (by simp), Finset.sum_range_succ, hlast, hentry _ hj]
  unfold matrixEntry
  congr 1
  apply Finset.sum_congr rfl
  intro k hk
  have hlt : k < j := Finset.mem_range.mp hk
  rw [hentry _ hlt, hentry _ (hlt.trans hj)]

end Entries

/-!
# Slopes of entries
-/

section Slopes

theorem hasDerivAt_tanh (v : ℝ) : HasDerivAt Real.tanh (1 - Real.tanh v * Real.tanh v) v := by
  have hcosh : Real.cosh v ≠ 0 := ne_of_gt (Real.cosh_pos v)
  have hquotient := (Real.hasDerivAt_sinh v).div (Real.hasDerivAt_cosh v) hcosh
  have htanh : Real.sinh / Real.cosh = Real.tanh := by
    funext u
    exact (Real.tanh_eq_sinh_div_cosh u).symm
  rw [htanh] at hquotient
  refine hquotient.congr_deriv ?_
  rw [Real.tanh_eq_sinh_div_cosh]
  field_simp

variable {E : Type} [NormedAddCommGroup E] [NormedSpace ℝ E] {y : E → Nat → Nat → ℝ} {x : E}

theorem differentiableAt_remainder (hy : forall i j, DifferentiableAt ℝ (fun v => y v i j) x)
    (i j : Nat) : DifferentiableAt ℝ (fun v => remainder (y v) i j) x := by
  induction j with
  | zero => exact differentiableAt_const 1
  | succ j ih =>
      have hfactor : DifferentiableAt ℝ (fun v => 1 - y v i j * y v i j) x :=
        ((hy i j).mul (hy i j)).const_sub 1
      simp only [remainder_succ]
      exact ih.mul hfactor

theorem differentiableAt_matrixEntry (hy : forall i j, DifferentiableAt ℝ (fun v => y v i j) x)
    (hrange : forall i j, y x i j ∈ Set.Ioo (-1) 1) (i j : Nat) :
    DifferentiableAt ℝ (fun v => matrixEntry (y v) i j) x := by
  have hroot : forall i j, DifferentiableAt ℝ (fun v => √(remainder (y v) i j)) x := fun i j =>
    (differentiableAt_remainder hy i j).sqrt (ne_of_gt (remainder_pos fun k _ => hrange i k))
  have hentry : forall i j, DifferentiableAt ℝ (fun v => factorEntry (y v) i j) x := fun i j =>
    (hy i j).mul (hroot i j)
  exact (DifferentiableAt.fun_sum fun k _ => (hentry j k).mul (hentry i k)).add
    ((hroot j j).mul (hentry i j))

end Slopes

/-!
# The map below the diagonal
-/

section Map

variable {k n : Nat}

/-- The entries of a square tensor below its diagonal, row by row. -/
noncomputable def belowDiagonal (n k : Nat) (t : Tensor ℝ) : Fin k → ℝ := fun p =>
  let cell := (Triangle.cells n).getD p (0, 0)
  t.get [cell.1, cell.2]

noncomputable def partials (v : Fin k → ℝ) (i j : Nat) : ℝ :=
  Real.tanh ((List.ofFn v).getD (Triangle.start i + j) 0)

noncomputable def correlationEntries (n : Nat) (v : Fin k → ℝ) : Fin k → ℝ := fun p =>
  let cell := (Triangle.cells n).getD p (0, 0)
  matrixEntry (partials v) cell.1 cell.2

theorem partials_mem (v : Fin k → ℝ) (i j : Nat) : partials v i j ∈ Set.Ioo (-1) 1 :=
  tanh_mem_Ioo _

theorem partials_update (v : Fin k → ℝ) (q : Fin k) (u : ℝ) {i j : Nat}
    (h : Triangle.start i + j ≠ q.1) : partials (Function.update v q u) i j = partials v i j := by
  unfold partials
  rw [getD_ofFn_update v q u h]

theorem partials_self (v : Fin k → ℝ) {p : Fin k} {i j : Nat}
    (hp : p.1 = Triangle.start i + j) : partials v i j = Real.tanh (v p) := by
  unfold partials
  rw [← hp, getD_ofFn_of_lt]

/-!
# The map is that of the constraint
-/

theorem unitRows_ofFn (hk : k = Triangle.start n) (v : Fin k → ℝ) {i : Nat} (hi : i < n) :
    (unitRows n ((List.ofFn v).map Real.tanh))[i]? =
      some (unitRow 0 ((List.range i).map (partials v i))) := by
  have hle := Triangle.start_le hi
  have hrow : (((List.ofFn v).map Real.tanh).drop (Triangle.start i)).take i =
      (List.range i).map (partials v i) := by
    apply List.ext_getElem
    · simp only [List.length_take, List.length_drop, List.length_map, List.length_ofFn,
        List.length_range]
      omega
    · intro j _ hj
      rw [List.length_map, List.length_range] at hj
      have hlt : Triangle.start i + j < k := by omega
      rw [List.getElem_take, List.getElem_drop, List.getElem_map, List.getElem_ofFn,
        List.getElem_map, List.getElem_range]
      exact (partials_self v (p := ⟨Triangle.start i + j, hlt⟩) rfl).symm
  unfold unitRows
  rw [List.getElem?_map, Triangle.getElem?_rows hi, Option.map_some, hrow]

theorem forward_ofFn (lower upper : ℝ) {m : Nat} (hm : 1 ≤ m) (v : Fin (Triangle.size m) → ℝ) :
    ∃ t, correlation.forward lower upper (Tensor.vector (List.ofFn v)) = .ok t ∧
      correlationEntries (m + 1) v = belowDiagonal (m + 1) _ t := by
  have hk := (Triangle.start_succ_eq_size m).symm
  rcases forward_vector lower upper hm (x := List.ofFn v) List.length_ofFn with
    ⟨t, hforward, hshape, hrows⟩
  refine ⟨t, hforward, ?_⟩
  funext p
  rcases Triangle.exists_cell hk p with ⟨i, j, hcell, hj, hi, _⟩
  unfold correlationEntries belowDiagonal
  rw [hcell]
  rcases List.getElem?_eq_some_iff.mp (unitRows_ofFn hk v hi) with ⟨hi', hrow⟩
  rcases List.getElem?_eq_some_iff.mp (unitRows_ofFn hk v (hj.trans hi)) with ⟨hj', hcolumn⟩
  change matrixEntry (partials v) i j = t.get [i, j]
  rw [← Tensor.get_ofTensor hshape hi (hj.trans hi), hrows, get_gram hi' hj', hrow, hcolumn,
    dot_unitRow hj (partials_mem v)]

/-!
# The map is triangular
-/

theorem differentiableAt_correlationEntries (n : Nat) (v : Fin k → ℝ) :
    DifferentiableAt ℝ (correlationEntries n) v := by
  rw [differentiableAt_pi]
  intro p
  apply differentiableAt_matrixEntry
  · intro i j
    exact (hasDerivAt_tanh _).differentiableAt.comp v (differentiableAt_getD_ofFn _ v)
  · exact partials_mem v

theorem correlationEntries_update (v : Fin k → ℝ) {p q : Fin k}
    (hpq : p ≤ q) (u : ℝ) {i j : Nat} (hcell : (Triangle.cells n).getD p (0, 0) = (i, j))
    (hj : j < i) (hp : p.1 = Triangle.start i + j) :
    correlationEntries n (Function.update v q u) p =
      (∑ l ∈ Finset.range j, factorEntry (partials v) j l * factorEntry (partials v) i l) +
        √(remainder (partials v) j j) *
          (partials (Function.update v q u) i j * √(remainder (partials v) i j)) := by
  have hle : p.1 ≤ q.1 := hpq
  have hstart := Triangle.start_le hj
  unfold correlationEntries
  rw [hcell]
  change matrixEntry (partials (Function.update v q u)) i j = _
  apply matrixEntry_congr
  · intro l hl
    exact partials_update v q u (by omega)
  · intro l hl
    exact partials_update v q u (by omega)

noncomputable def slope (y : Nat → Nat → ℝ) (i j : Nat) : ℝ :=
  √(remainder y j j) * ((1 - y i j * y i j) * √(remainder y i j))

theorem det_correlationEntries (hk : k = Triangle.start n) (v : Fin k → ℝ) :
    (fderiv ℝ (correlationEntries n) v).det =
      ∏ p : Fin k, slope (partials v) ((Triangle.cells n).getD p (0, 0)).1
        ((Triangle.cells n).getD p (0, 0)).2 := by
  apply det_fderiv_of_triangular (differentiableAt_correlationEntries n v)
  · intro p q hpq u
    rcases Triangle.exists_cell hk p with ⟨i, j, hcell, hj, _, hp⟩
    have hne : Triangle.start i + j ≠ q.1 := by
      rw [← hp]
      exact ne_of_lt hpq
    rw [correlationEntries_update v hpq.le u hcell hj hp, partials_update v q u hne]
    unfold correlationEntries
    rw [hcell]
    rfl
  · intro p
    rcases Triangle.exists_cell hk p with ⟨i, j, hcell, hj, _, hp⟩
    have hself : forall u, partials (Function.update v p u) i j = Real.tanh u := by
      intro u
      rw [partials_self _ hp, Function.update_self]
    rw [hcell]
    simp only [fun u => correlationEntries_update v (le_refl p) u hcell hj hp, hself]
    unfold slope
    rw [partials_self v hp]
    exact (((hasDerivAt_tanh (v p)).mul_const _).const_mul _).const_add _

end Map

/-!
# Counting contributions
-/

section Sums

/-- A partial correlation in column `j` contributes to the entry of its own cell, to half of
the entries to the right of it, and to half of the entries in the column of its row. -/
theorem sum_contributions (n : Nat) (g : Nat → Nat → ℝ) :
    ∑ i ∈ Finset.range n, ∑ j ∈ Finset.range i,
        (1 / 2 * ∑ l ∈ Finset.range j, g j l + g i j + 1 / 2 * ∑ l ∈ Finset.range j, g i l) =
      ∑ i ∈ Finset.range n, ∑ j ∈ Finset.range i, g i j +
        1 / 2 * ∑ i ∈ Finset.range n, ∑ j ∈ Finset.range i,
          (correlationPower n j : ℝ) * g i j := by
  -- Row `j` is the row of the column of `n - 1 - j` cells, and `i - 1 - l` cells are to the
  -- right of cell `(i, l)`.
  have hcolumn : ∑ i ∈ Finset.range n, ∑ j ∈ Finset.range i, ∑ l ∈ Finset.range j, g j l =
      ∑ i ∈ Finset.range n, ∑ j ∈ Finset.range i, ((n : ℝ) - 1 - i) * g i j := by
    rw [Triangle.sum_columns]
    simp only [Finset.mul_sum]
  have hrow : forall i, ∑ j ∈ Finset.range i, ∑ l ∈ Finset.range j, g i l =
      ∑ j ∈ Finset.range i, ((i : ℝ) - 1 - j) * g i j := fun i => Triangle.sum_columns i (g i)
  have hpower : forall i j, i ∈ Finset.range n -> j ∈ Finset.range i ->
      (correlationPower n j : ℝ) = (n : ℝ) - 1 - i + (i - 1 - j) := by
    intro i j hi hj
    rw [Finset.mem_range] at hi hj
    unfold correlationPower
    rw [Nat.sub_sub, Nat.cast_sub (by omega)]
    push_cast
    ring
  have hweighted : ∑ i ∈ Finset.range n, ∑ j ∈ Finset.range i,
      (correlationPower n j : ℝ) * g i j =
        ∑ i ∈ Finset.range n, ∑ j ∈ Finset.range i, ((n : ℝ) - 1 - i) * g i j +
          ∑ i ∈ Finset.range n, ∑ j ∈ Finset.range i, ((i : ℝ) - 1 - j) * g i j := by
    simp only [← Finset.sum_add_distrib]
    apply Finset.sum_congr rfl
    intro i hi
    apply Finset.sum_congr rfl
    intro j hj
    rw [hpower i j hi hj, add_mul]
  simp only [Finset.sum_add_distrib, ← Finset.mul_sum]
  rw [hcolumn, Finset.sum_congr rfl fun i _ => hrow i, hweighted]
  ring

end Sums

/-!
# The logarithm of the determinant
-/

section Logarithm

variable {y : Nat → Nat → ℝ} {k n : Nat}

theorem slope_pos (hy : forall i j, y i j ∈ Set.Ioo (-1) 1) (i j : Nat) : 0 < slope y i j := by
  have hroot : forall i j, 0 < √(remainder y i j) := fun i j =>
    Real.sqrt_pos.mpr (remainder_pos fun k _ => hy i k)
  exact mul_pos (hroot j j) (mul_pos (sub_pos.mpr (mul_self_lt_one (hy i j))) (hroot i j))

theorem log_slope (hy : forall i j, y i j ∈ Set.Ioo (-1) 1) (i j : Nat) :
    Real.log (slope y i j) =
      1 / 2 * ∑ l ∈ Finset.range j, Real.log (1 - y j l * y j l) + Real.log (1 - y i j * y i j) +
        1 / 2 * ∑ l ∈ Finset.range j, Real.log (1 - y i l * y i l) := by
  have hfactor : forall i j, 1 - y i j * y i j ≠ 0 := fun i j =>
    ne_of_gt (sub_pos.mpr (mul_self_lt_one (hy i j)))
  have hroot : forall i j, Real.log √(remainder y i j) =
      1 / 2 * ∑ l ∈ Finset.range j, Real.log (1 - y i l * y i l) := by
    intro i j
    rw [Real.log_sqrt (remainder_pos fun k _ => hy i k).le]
    unfold remainder
    rw [Real.log_prod fun l _ => hfactor i l]
    ring
  have hne : forall i j, √(remainder y i j) ≠ 0 := fun i j =>
    ne_of_gt (Real.sqrt_pos.mpr (remainder_pos fun k _ => hy i k))
  unfold slope
  rw [Real.log_mul (hne j j) (mul_ne_zero (hfactor i j) (hne i j)),
    Real.log_mul (hfactor i j) (hne i j), hroot, hroot, add_assoc]

theorem det_pos (hk : k = Triangle.start n) (v : Fin k → ℝ) :
    0 < (fderiv ℝ (correlationEntries n) v).det := by
  rw [det_correlationEntries hk v]
  exact Finset.prod_pos fun p _ => slope_pos (partials_mem v) _ _

theorem log_det (hk : k = Triangle.start n) (v : Fin k → ℝ) :
    Real.log (fderiv ℝ (correlationEntries n) v).det =
      ∑ i ∈ Finset.range n, ∑ j ∈ Finset.range i,
          Real.log (1 - partials v i j * partials v i j) +
        1 / 2 * ∑ i ∈ Finset.range n, ∑ j ∈ Finset.range i,
          (correlationPower n j : ℝ) * Real.log (1 - partials v i j * partials v i j) := by
  have hlength : k = (Triangle.cells n).length := by rw [Triangle.length_cells, hk]
  rw [det_correlationEntries hk v,
    Real.log_prod fun p _ => ne_of_gt (slope_pos (partials_mem v) _ _),
    Triangle.sum_getD hlength (0, 0) fun cell => Real.log (slope (partials v) cell.1 cell.2),
    Triangle.sum_cells n fun i j => Real.log (slope (partials v) i j)]
  simp only [log_slope (partials_mem v)]
  exact sum_contributions n _

end Logarithm

/-!
# The Jacobian of the constraint
-/

theorem logOneMinusTanhSquare_real (x : ℝ) :
    logOneMinusTanhSquare x = Real.log (1 - Real.tanh x * Real.tanh x) := by
  have hcosh : Real.cosh x = Real.exp x * (1 + Real.exp (-2 * x)) / 2 := by
    rw [Real.cosh_eq, mul_add, mul_one, ← Real.exp_add]
    ring_nf
  have hpos : 0 < 1 + Real.exp (-2 * x) := by positivity
  have hlog : Real.log (Real.cosh x) = x + Real.log (1 + Real.exp (-2 * x)) - Real.log 2 := by
    rw [hcosh, Real.log_div (by positivity) two_ne_zero,
      Real.log_mul (Real.exp_ne_zero x) (ne_of_gt hpos), Real.log_exp]
  have hsquare : 1 - Real.tanh x * Real.tanh x = (Real.cosh x ^ 2)⁻¹ := by
    have hne : Real.cosh x ≠ 0 := ne_of_gt (Real.cosh_pos x)
    rw [Real.tanh_eq_sinh_div_cosh]
    field_simp
    linarith [Real.cosh_sq x]
  rw [hsquare, Real.log_inv, Real.log_pow, hlog]
  change ((2 : ℕ) : ℝ) * (Real.log ((2 : ℕ) : ℝ) - x -
    Real.log (1 + Real.exp (-((2 : ℕ) : ℝ) * x))) = _
  push_cast
  ring

variable {b : Nat}

theorem get_sumEvent_cons {t : Tensor ℝ} {d : Shape} {r : Nat} (ht : t.shape = b :: d)
    (hr : r < b) :
    t.sumEvent.get [r] = ((List.range d.size).map fun q => t.get (r :: d.unravel q)).sum := by
  rcases Tensor.sumEvent_rows ht with ⟨hshape, hrows⟩
  rw [Tensor.get_single hshape, hrows r hr, Tensor.toList_row ht, Scalar.sum_real]
  rfl

theorem get_sumEvent {t : Tensor ℝ} {k r : Nat} (ht : t.shape = [b, k]) (hr : r < b) :
    t.sumEvent.get [r] = ((List.range k).map fun q => t.get [r, q]).sum := by
  rw [get_sumEvent_cons ht hr]
  simp [Shape.unravel, Shape.size]

theorem map_range_cells {n k : Nat} (hk : k = Triangle.start n) (f : Nat → ℝ)
    (g : Nat → Nat → ℝ) (h : forall i j, j < i -> i < n -> f (Triangle.start i + j) = g i j) :
    (List.range k).map f = (Triangle.cells n).map fun cell => g cell.1 cell.2 := by
  apply List.ext_getElem
  · rw [List.length_map, List.length_range, List.length_map, Triangle.length_cells, hk]
  · intro p _ hp
    rw [List.length_map] at hp
    rcases hcell : (Triangle.cells n)[p] with ⟨i, j⟩
    have hget := List.getElem?_eq_getElem hp
    rw [hcell] at hget
    rcases Triangle.getElem?_cells.mp hget with ⟨hj, hi, rfl⟩
    rw [List.getElem_map, List.getElem_range, List.getElem_map, hcell]
    exact h i j hj hi

theorem getD_columns {n i j : Nat} (hj : j < i) (hi : i < n) :
    (Triangle.columns n).toArray.getD (Triangle.start i + j) 0 = j := by
  have hcell := Triangle.getElem?_cells.mpr ⟨hj, hi, rfl⟩
  rw [Array.getD_eq_getD_getElem?, List.getElem?_toArray, ← Triangle.map_snd_cells,
    List.getElem?_map, hcell]
  rfl

theorem get_correlationLogJacobian {n k r : Nat} {x : Tensor ℝ} (hx : x.shape = [b, k])
    (hk : k = Triangle.start n) (hr : r < b) :
    (correlationLogJacobian n x).get [r] =
      Real.log (fderiv ℝ (correlationEntries n) fun p : Fin k => x.get [r, p]).det := by
  let v : Fin k → ℝ := fun p => x.get [r, p]
  let logs := x.map logOneMinusTanhSquare
  let weighted := Tensor.ofFn x.shape fun index => Scalar.ofNat
    (correlationPower n ((Triangle.columns n).toArray.getD (index.getLastD 0) 0)) * logs.get index
  have hlogs : logs.shape = [b, k] := hx
  have hweighted : weighted.shape = [b, k] := hx
  have hwithin : forall {i j}, j < i -> i < n -> x.shape.Within [r, Triangle.start i + j] := by
    intro i j hj hi
    have hle := Triangle.start_le hi
    rw [hx]
    exact ⟨hr, by omega, trivial⟩
  have hlog : forall i j, j < i -> i < n -> logs.get [r, Triangle.start i + j] =
      Real.log (1 - partials v i j * partials v i j) := by
    intro i j hj hi
    have hlt : Triangle.start i + j < k := by
      have hle := Triangle.start_le hi
      omega
    rw [Tensor.get_map _ (hwithin hj hi), logOneMinusTanhSquare_real,
      partials_self v (p := ⟨Triangle.start i + j, hlt⟩) rfl]
  have hpower : forall i j, j < i -> i < n -> weighted.get [r, Triangle.start i + j] =
      (correlationPower n j : ℝ) * Real.log (1 - partials v i j * partials v i j) := by
    intro i j hj hi
    rw [Tensor.get_ofFn _ (hwithin hj hi), hlog i j hj hi]
    change ((correlationPower n ((Triangle.columns n).toArray.getD
      (Triangle.start i + j) 0) : ℕ) : ℝ) * _ = _
    rw [getD_columns hj hi]
  have hjacobian : (correlationLogJacobian n x).get [r] =
      logs.sumEvent.get [r] + Scalar.half * weighted.sumEvent.get [r] := by
    apply Tensor.get_ofFn
    rw [(Tensor.sumEvent_rows hlogs).1]
    exact ⟨hr, trivial⟩
  rw [hjacobian, get_sumEvent hlogs hr, get_sumEvent hweighted hr, map_range_cells hk _ _ hlog,
    map_range_cells hk _ _ hpower, Triangle.sum_cells n fun i j =>
      Real.log (1 - partials v i j * partials v i j), Triangle.sum_cells n fun i j =>
      (correlationPower n j : ℝ) * Real.log (1 - partials v i j * partials v i j), log_det hk v,
    Scalar.half_real]

/-- The logarithm of the Jacobian is that of the absolute determinant of the derivative of the
map from the free vector to the entries of the matrix below the diagonal. -/
theorem exists_correlation_derivative {n : Nat} (hn : 2 ≤ n) (lower upper : ℝ) :
    ∃ F : (Fin (n * (n - 1) / 2) → ℝ) → Fin (n * (n - 1) / 2) → ℝ,
      (forall v, ∃ t, correlation.forward lower upper (Tensor.vector (List.ofFn v)) = .ok t ∧
        F v = belowDiagonal n _ t) ∧
      forall b x, x.shape = [b, n * (n - 1) / 2] ->
        ∃ t, correlation.logJacobian lower upper x = .ok t ∧ t.shape = [b] ∧
          forall r, r < b -> DifferentiableAt ℝ F (fun p => x.get [r, p]) ∧
            (fderiv ℝ F fun p => x.get [r, p]).det ≠ 0 ∧
              t.get [r] = Real.log |(fderiv ℝ F fun p => x.get [r, p]).det| := by
  rcases Nat.exists_eq_add_of_le' hn with ⟨m, rfl⟩
  have hm : 1 ≤ m + 1 := Nat.le_add_left 1 m
  have hsize : (m + 2) * (m + 2 - 1) / 2 = Triangle.size (m + 1) :=
    Triangle.half_mul_pred (m + 1)
  have hk : Triangle.size (m + 1) = Triangle.start (m + 2) :=
    (Triangle.start_succ_eq_size (m + 1)).symm
  rw [hsize]
  refine ⟨correlationEntries (m + 2), forward_ofFn lower upper hm, ?_⟩
  intro b x hx
  have hjacobian : correlation.logJacobian lower upper x = .ok (correlationLogJacobian (m + 2) x) := by
    unfold logJacobian sideOf
    simp [hx, Triangle.root?_size hm, Except.map]
  have hshape : (correlationLogJacobian (m + 2) x).shape = [b] :=
    (Tensor.sumEvent_rows (t := x.map logOneMinusTanhSquare) hx).1
  refine ⟨_, hjacobian, hshape, ?_⟩
  intro r hr
  have hpos := det_pos hk fun p => x.get [r, p]
  refine ⟨differentiableAt_correlationEntries _ _, ne_of_gt hpos, ?_⟩
  rw [get_correlationLogJacobian hx hk hr, abs_of_pos hpos]

theorem exists_correlation_derivative_three : 2 ≤ 3 ∧ (Tensor.full [1, 3] (0 : ℝ)).shape = [1, 3] ∧
    0 < 1 ∧ ∃ F : (Fin 3 → ℝ) → Fin 3 → ℝ,
      (forall v, ∃ t, correlation.forward 0 0 (Tensor.vector (List.ofFn v)) = .ok t ∧
        F v = belowDiagonal 3 _ t) ∧
      ∃ t, correlation.logJacobian 0 0 (Tensor.full [1, 3] (0 : ℝ)) = .ok t ∧
        t.get [0] = Real.log |(fderiv ℝ F fun p => (Tensor.full [1, 3] (0 : ℝ)).get [0, p]).det| := by
  refine ⟨by decide, rfl, by decide, ?_⟩
  rcases exists_correlation_derivative (show 2 ≤ 3 by decide) 0 0 with ⟨F, hF, hjacobian⟩
  rcases hjacobian 1 (Tensor.full [1, 3] 0) rfl with ⟨t, ht, _, hentry⟩
  exact ⟨F, hF, t, ht, (hentry 0 (by decide)).2.2⟩

end Constraint
end DensityGraph
